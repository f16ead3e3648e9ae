/-
# Whether a device catches up on the hidden rooms

A device that has passed the version gate must be sent the hidden rooms that its earlier
syncs left out, with their full state: an incremental sync would bring their new events
only.  For this `on_PUT` sets a marker when a build has grown and the gate holds at that
moment, and the next incremental sync consumes it.

But the gate also opens when the threshold falls, when a failed fetch of it is answered at
last, and when a `PUT` names another platform; then nothing is marked.  And it may close
again before the next incremental sync, which then consumes the marker all the same.  The
rooms are brought as long as neither happens (`InTime`).

The requests of one device interleave at their awaits, each of which completes at a moment
with its own clock and answers of the version gate (`Env`); a sync asks its own questions of
the database (`Store`).  The rooms of the user stay as they are.
-/

import Liza.SyncGate.Leak
import Liza.SyncGate.Lookup

set_option autoImplicit false

namespace Liza
namespace SyncGate

open Lib Synapse

/-! ### The rooms that come with their full state -/

section Full

variable (st : Store) (rq : Request) (b : Builder)

/-- The entries of joined rooms that are sent with the full state. -/
def fullEntries : List RoomEntry :=
  (roomChanges st rq b).roomEntries.filter fun entry => entry.rtype = .joined ∧
    sendsFullState rq entry = true ∧ generateRoomEntry st rq b entry ≠ none

/-- The joined rooms that a response brings with their full state. -/
def fullRooms : List RoomId :=
  if wantsRooms rq ∧ ¬isNoOp st rq b then (fullEntries st rq b).map RoomEntry.roomId else []

end Full

variable {st : Store} {rq : Request} {b : Builder} {room : RoomId}

/-- They stand in the response. -/
theorem fullRooms_subset (h : room ∈ fullRooms st rq b) :
    room ∈ (generateSyncEntryForRooms st rq b).joined.map RoomResult.roomId := by
  unfold fullRooms at h
  split at h
  · rename_i hwants
    obtain ⟨entry, hentry, rfl⟩ := List.mem_map.1 h
    obtain ⟨hmem, hcond⟩ := List.mem_filter.1 hentry
    obtain ⟨htype, -, hsome⟩ := of_decide_eq_true hcond
    unfold generateSyncEntryForRooms
    rw [if_neg hwants.2, mem_results_iff]
    exact ⟨entry, List.mem_filter.2 ⟨hmem, decide_eq_true htype⟩, rfl, hsome⟩
  · cases h

/-- What the database answers to a sync of a user who is joined to the given rooms: they are
among his rooms, nothing else keeps them back, and each of them has events. -/
structure Serves (rooms : List RoomId) (st : Store) (rq : Request) : Prop where
  wants : wantsRooms rq = true
  global : ∀ room ∈ rooms, room ∉ st.roomsToExcludeGlobally
  whole : ∀ room ∈ rooms, room ∉ partialRooms st rq
  joined : ∀ room ∈ rooms, room ∈ joinedRooms st rq
  rows : ∀ room ∈ rooms, room ∉ st.forgottenRooms ∧ ∃ row ∈ st.roomsWhereMembershipIs,
    row.roomId = room ∧ row.membership = .join ∧ row.knownRoomVersion = true
  events : ∀ entry, st.recents entry ≠ [] ∨ st.stateDelta entry (st.recents entry) true ≠ []

/-- An entry with the full state of its room has something to report. -/
theorem generateRoomEntry_full {entry : RoomEntry}
    (hevents : ∀ entry, st.recents entry ≠ [] ∨ st.stateDelta entry (st.recents entry) true ≠ [])
    (hfull : sendsFullState rq entry = true) (htype : entry.rtype = .joined)
    (hband : entry.outOfBand = false) : generateRoomEntry st rq b entry ≠ none := by
  rcases hevents entry with hne | hne <;>
    simp [generateRoomEntry, hfull, htype, hband, roomResult, hne]

/-- **An incremental sync brings a room that is forced to be newly joined.** -/
theorem mem_fullRooms_forced {rooms hidden forced : List RoomId} {since : ℕ}
    (h : Serves rooms st rq) (hsince : rq.since = some since) (hroom : room ∈ rooms)
    (hhidden : room ∉ hidden) (hforced : room ∈ forced) :
    room ∈ fullRooms st rq (getSyncResultBuilder st rq hidden forced) := by
  have hin : room ∈ (getSyncResultBuilder st rq hidden forced).forcedNewlyJoinedRoomIds :=
    List.mem_append_right _ hforced
  have hjoined : room ∈ (getSyncResultBuilder st rq hidden forced).joinedRoomIds := by
    refine List.mem_filter.2 ⟨h.joined room hroom, ?_⟩
    simp [h.global room hroom, h.whole room hroom, hhidden]
  generalize getSyncResultBuilder st rq hidden forced = b at hin hjoined
  have hnoop : ¬isNoOp st rq b := by
    have hchanged : mayHaveRoomsChanged st b = true := by
      simp only [mayHaveRoomsChanged, decide_eq_true_eq]
      exact .inr (.inl (List.ne_nil_of_mem hin))
    simp [isNoOp, hchanged]
  have hnew : (joinedEntry st b since room).newlyJoined = true := by
    unfold joinedEntry
    simp only [hin, true_or, decide_true]
    split <;> rfl
  have hfull : sendsFullState rq (joinedEntry st b since room) = true := by
    simp [sendsFullState, hnew]
  have htype : (joinedEntry st b since room).rtype = .joined := by
    unfold joinedEntry
    simp only
    split <;> rfl
  have hband : (joinedEntry st b since room).outOfBand = false := by
    unfold joinedEntry
    simp only
    split <;> rfl
  rw [fullRooms, if_pos ⟨h.wants, hnoop⟩]
  refine List.mem_map.2 ⟨joinedEntry st b since room, List.mem_filter.2 ⟨?_, ?_⟩,
    joinedEntry_roomId⟩
  · simp only [roomChanges, hsince, roomChangesForIncrementalSync]
    exact List.mem_append_right _ (List.mem_map_of_mem hjoined)
  · exact decide_eq_true ⟨htype, hfull, generateRoomEntry_full h.events hfull htype hband⟩

/-- **An initial sync brings a room that is not excluded.** -/
theorem mem_fullRooms_initial {rooms hidden forced : List RoomId} (h : Serves rooms st rq)
    (hsince : rq.since = none) (hroom : room ∈ rooms) (hhidden : room ∉ hidden) :
    room ∈ fullRooms st rq (getSyncResultBuilder st rq hidden forced) := by
  have hout : room ∉ (getSyncResultBuilder st rq hidden forced).excludedRoomIds := by
    simp [getSyncResultBuilder, h.global room hroom, h.whole room hroom, hhidden]
  generalize getSyncResultBuilder st rq hidden forced = b at hout
  obtain ⟨hkept, row, hrow, rfl, hjoin, hversion⟩ := h.rows room hroom
  have hnoop : ¬isNoOp st rq b := by simp [isNoOp, hsince]
  rw [fullRooms, if_pos ⟨h.wants, hnoop⟩]
  refine List.mem_map.2 ⟨⟨row.roomId, .joined, none, false, true, none, st.now, st.now, false⟩,
    List.mem_filter.2 ⟨?_, ?_⟩, rfl⟩
  · simp only [roomChanges, hsince, roomChangesForInitialSync]
    refine List.mem_filterMap.2 ⟨row, ?_, by simp [rowEntry, hjoin]⟩
    simp [roomList, hrow, hkept, hout, hversion]
  · exact decide_eq_true ⟨rfl, rfl, generateRoomEntry_full h.events rfl rfl rfl⟩

/-! ### The requests of a device -/

namespace CatchUp

/-- The first place of `get_sync_result_builder` that consults the module: `passed_gate`, and
the rooms to exclude. -/
def gatePlace (cfg : Config) (rq : Request) : Code (Bool × List RoomId) := do
  let passed ← passedGate cfg rq.config.deviceId
  if passed then .ret (true, []) else do
  let hidden ← call (.getHiddenRoomIdsForUser rq.config.user)
  .ret (false, hidden)

/-- The second place: `consumed`, and the rooms that are forced to be newly joined. -/
def markerPlace (rq : Request) : Code (Bool × List RoomId) :=
  match rq.config.deviceId, rq.since with
  | some device, some _ => do
      let consumed ← call (.consume device)
      if consumed then do
        let hidden ← call (.getHiddenRoomIdsForUser rq.config.user)
        .ret (true, hidden)
      else .ret (false, [])
  | _, _ => .ret (false, [])

theorem excludedHidden_eq {cfg : Config} (hon : cfg.enabled = true) (rq : Request) :
    excludedHidden cfg rq.config.user rq.config.deviceId =
      gatePlace cfg rq >>= fun r => .ret r.2 := by
  simp only [excludedHidden, hon, if_true, gatePlace, Task.bind_assoc]
  congr 1
  funext passed
  cases passed <;> simp

theorem forcedNewlyJoined_eq {cfg : Config} (hon : cfg.enabled = true) (rq : Request) :
    forcedNewlyJoined cfg rq.config.user rq.config.deviceId rq.since.isSome =
      markerPlace rq >>= fun r => .ret r.2 := by
  unfold forcedNewlyJoined markerPlace
  rw [hon]
  cases rq.config.deviceId with
  | none => cases rq.since <;> rfl
  | some device =>
      cases rq.since with
      | none => rfl
      | some since =>
          simp only [Option.isSome_some, Task.bind_assoc]
          congr 1
          funext consumed
          cases consumed <;> simp

/-- A request in flight: a `PUT`, or a sync at one of the two places, with the variables of
the first when it is at the second. -/
inductive Running where
  | put (rest : Code Reply)
  | gate (rq : Request) (st : Store) (rest : Code (Bool × List RoomId))
  | marker (rq : Request) (st : Store) (passed : Bool) (hidden : List RoomId)
      (rest : Code (Bool × List RoomId))

/-- A sync that was answered. -/
structure Answer where
  rq : Request
  st : Store
  passed : Bool
  hidden : List RoomId
  consumed : Bool
  forced : List RoomId

/-- The rooms that come with their full state. -/
def Answer.full (a : Answer) : List RoomId :=
  fullRooms a.st a.rq (getSyncResultBuilder a.st a.rq a.hidden a.forced)

/-- The module, the requests in flight, and the answered syncs, latest first. -/
structure State where
  world : World
  running : List Running
  answers : List Answer

/-- A request arrives, or goes on. -/
inductive Act where
  | put (body : Dict)
  | sync (rq : Request) (st : Store)
  | step (i : ℕ) (env : Env)

/-- One move. -/
def step (cfg : Config) (user : UserId) (device : DeviceId) (s : State) : Act → Option State
  | .put body =>
      some { s with running := s.running ++ [.put (onPut cfg user (some device) device body)] }
  | .sync rq st => some { s with running := s.running ++ [.gate rq st (gatePlace cfg rq)] }
  | .step i env =>
      match s.running[i]? with
      | some (.put (.await op k)) =>
          some { s with
            world := (perform cfg env s.world op).1
            running := s.running.set i (.put (k (perform cfg env s.world op).2)) }
      | some (.gate rq st (.await op k)) =>
          some { s with
            world := (perform cfg env s.world op).1
            running := s.running.set i (.gate rq st (k (perform cfg env s.world op).2)) }
      | some (.gate rq st (.ret (passed, hidden))) =>
          some { s with running := s.running.set i (.marker rq st passed hidden (markerPlace rq)) }
      | some (.marker rq st passed hidden (.await op k)) =>
          some { s with
            world := (perform cfg env s.world op).1
            running := s.running.set i
              (.marker rq st passed hidden (k (perform cfg env s.world op).2)) }
      | some (.marker rq st passed hidden (.ret (consumed, forced))) =>
          some { s with
            running := s.running.eraseIdx i
            answers := ⟨rq, st, passed, hidden, consumed, forced⟩ :: s.answers }
      | _ => none

/-- No request has arrived yet. -/
def start (w : World) : State := ⟨w, [], []⟩

/-- **What is asked of the syncs**: an incremental sync with the gate open brings the hidden
rooms in full, or an earlier sync with the gate open has; and a sync that consumes the
marker brings them. -/
structure CatchesUp (rooms : List RoomId) (answers : List Answer) : Prop where
  caughtUp : ∀ a before, a :: before <:+ answers → a.passed = true → a.rq.since.isSome = true →
    ∀ room ∈ rooms, room ∈ a.full ∨ ∃ a' ∈ before, a'.passed = true ∧ room ∈ a'.full
  kept : ∀ a ∈ answers, a.consumed = true → ∀ room ∈ rooms, room ∈ a.full

/-- A sync is one of the device, and the database answers it as it should. -/
def Fair (user : UserId) (device : DeviceId) (rooms : List RoomId) : Act → Prop
  | .sync rq st => rq.config.user = user ∧ rq.config.deviceId = some device ∧ Serves rooms st rq
  | _ => True

/-- When a sync comes to consume the marker: if it is set, the gate was open; and if the gate
was open, then it is set, or an earlier sync was answered with the gate open.  The database
does not fail. -/
def InTime (s : State) : Act → Bool
  | .step i env => !env.raises &&
      match s.running[i]? with
      | some (.marker _ _ passed _ (.await (.consume device) _)) =>
          (!s.world.forced device || passed) &&
            (!passed || s.world.forced device || s.answers.any Answer.passed)
      | _ => true
  | _ => true

/-! ### The invariant -/

variable {cfg : Config} {user : UserId} {device : DeviceId} {rooms : List RoomId} {w : World}
  {env : Env} {s t : State} {i : ℕ} {answers : List Answer}

/-- The cached answer for the user is right. -/
def Entry (user : UserId) (w : World) : Prop :=
  ∀ result, w.hidden user = some result → Lookup.Lists w.rooms user result

/-- A lookup for the user answers all of the rooms. -/
def Told (user : UserId) (rooms : List RoomId) : (op : Op) → Option (Res op) → Prop
  | .getHiddenRoomIdsForUser u, some result => u = user → rooms ⊆ result
  | _, _ => True

theorem perform_rooms (cfg : Config) (env : Env) (w : World) (op : Op) :
    (perform cfg env w op).1.rooms = w.rooms := by
  unfold perform
  split
  · rfl
  · cases op <;> rfl

theorem lists_lookup (h : Entry user w) :
    Lookup.Lists w.rooms user (getHiddenRoomIdsForUser w.rooms w.hidden user).2 := by
  unfold getHiddenRoomIdsForUser
  cases hcache : w.hidden user with
  | none => exact fun _ => Iff.rfl
  | some cached => exact h cached hcache

/-- An await leaves a right answer in the cache, and answers rightly. -/
theorem perform_entry (cfg : Config) (env : Env) (op : Op) (h : Entry user w) :
    Entry user (perform cfg env w op).1 ∧
      Told user (Lookup.hiddenRooms w.rooms user) op (perform cfg env w op).2 := by
  unfold perform
  split
  · refine ⟨h, ?_⟩
    cases op <;> exact trivial
  · cases op with
    | getHiddenRoomIdsForUser u =>
        refine ⟨fun result hresult => ?_, ?_⟩
        · have hlists := lists_lookup h
          simp only [complete] at hresult ⊢
          by_cases hu : u = user
          · subst hu
            have heq : (getHiddenRoomIdsForUser w.rooms w.hidden u).2 = result := by
              unfold getHiddenRoomIdsForUser at hresult ⊢
              cases hcache : w.hidden u with
              | none => simpa [hcache] using hresult
              | some cached => simpa [hcache] using hresult
            rw [heq] at hlists
            exact hlists
          · refine h result ?_
            unfold getHiddenRoomIdsForUser at hresult
            cases hcache : w.hidden u with
            | none => simpa [hcache, Function.update_of_ne (Ne.symm hu)] using hresult
            | some cached => simpa [hcache] using hresult
        · rintro rfl room hroom
          exact (lists_lookup h room).2 hroom
    | _ => exact ⟨h, trivial⟩

/-- What the second place of a sync comes to: with the marker consumed the gate was open and
all rooms are forced; without, an earlier sync was answered with the gate open. -/
def Settled (rooms : List RoomId) (answers : List Answer) (rq : Request) (passed : Bool)
    (r : Option (Bool × List RoomId)) : Prop :=
  ∀ consumed forced, r = some (consumed, forced) →
    (consumed = true → passed = true ∧ rq.since.isSome = true ∧ rooms ⊆ forced) ∧
    (consumed = false → passed = true → rq.since.isSome = true → ∃ a ∈ answers, a.passed = true)

/-- What holds of a request in flight. -/
def Fits (user : UserId) (device : DeviceId) (rooms : List RoomId) (answers : List Answer) :
    Running → Prop
  | .put _ => True
  | .gate rq st rest => Fair user device rooms (.sync rq st) ∧
      ∃ h, rest.Obeys (Told user rooms) (fun _ _ => True)
        (fun _ r => ∀ hidden, r = some (true, hidden) → hidden = []) h
  | .marker rq st passed hidden rest => Fair user device rooms (.sync rq st) ∧
      (passed = true → hidden = []) ∧
      (rest = markerPlace rq ∨ ∃ h, rest.Obeys (Told user rooms) (fun _ _ => True)
        (fun _ r => Settled rooms answers rq passed r) h)

/-- **The invariant**: the requests in flight fit, and every sync with the gate open has
brought the rooms, or an earlier one has. -/
structure Kept (user : UserId) (device : DeviceId) (w : World) (s : State) : Prop where
  rooms : s.world.rooms = w.rooms
  entry : Entry user s.world
  running : ∀ r ∈ s.running, Fits user device (Lookup.hiddenRooms w.rooms user) s.answers r
  caughtUp : ∀ a before, a :: before <:+ s.answers → a.passed = true →
    ∀ room ∈ Lookup.hiddenRooms w.rooms user, room ∈ a.full ∨
      ∃ a' ∈ before, a'.passed = true ∧ room ∈ a'.full
  kept : ∀ a ∈ s.answers, a.consumed = true →
    ∀ room ∈ Lookup.hiddenRooms w.rooms user, room ∈ a.full

/-- The first place excludes nothing when the gate is open. -/
theorem gatePlace_obeys (cfg : Config) (rq : Request) :
    (gatePlace cfg rq).Obeys (Told user rooms) (fun _ _ => True)
      (fun _ r => ∀ hidden, r = some (true, hidden) → hidden = []) [] := by
  refine (Task.Obeys.any (passedGate cfg rq.config.deviceId) []).bind (fun h passed _ => ?_)
    fun _ _ hidden hnone => by cases hnone
  cases passed with
  | true =>
      intro hidden heq
      obtain ⟨-, rfl⟩ : true = true ∧ ([] : List RoomId) = hidden := by simpa using heq
      rfl
  | false =>
      refine (Task.Obeys.any (call (.getHiddenRoomIdsForUser rq.config.user)) h).bind
        (fun h' result _ hidden heq => ?_) fun _ _ hidden hnone => by cases hnone
      simp at heq

/-- **What consuming the marker comes to**, when it is done in time. -/
theorem markerPlace_settled {rq : Request} {passed : Bool}
    {op : Op} {k : Option (Res op) → Code (Bool × List RoomId)}
    (huser : rq.config.user = user) (hplace : markerPlace rq = .await op k)
    (hraises : env.raises = false)
    (htime : ∀ d, op = .consume d → (w.forced d = true → passed = true) ∧
      (passed = true → w.forced d = true ∨ ∃ a ∈ answers, a.passed = true)) :
    (k (perform cfg env w op).2).Obeys (Told user rooms) (fun _ _ => True)
      (fun _ r => Settled rooms answers rq passed r) [] := by
  unfold markerPlace at hplace
  split at hplace
  · rename_i d since hdevice hsince
    cases hplace
    obtain ⟨hset, hopen⟩ := htime d rfl
    have hdone : (perform cfg env w (.consume d)).2 = some (w.forced d) := by
      simp [perform, hraises, complete, consume]
    rw [hdone]
    cases hmarker : w.forced d with
    | true =>
        -- the marker was set: the rooms are looked up
        refine ⟨trivial, fun r htold => ?_⟩
        cases r with
        | none =>
            intro consumed forced heq
            cases heq
        | some result =>
            intro consumed forced heq
            obtain ⟨rfl, rfl⟩ : true = consumed ∧ result = forced := by simpa using heq
            refine ⟨fun _ => ⟨hset hmarker, ?_, htold huser⟩, (fun h => by cases h)⟩
            rw [hsince]
            rfl
    | false =>
        intro consumed forced heq
        obtain ⟨rfl, rfl⟩ : false = consumed ∧ ([] : List RoomId) = forced := by simpa using heq
        refine ⟨(fun h => by cases h), fun _ hpassed _ => ?_⟩
        exact (hopen hpassed).resolve_left (by simp [hmarker])
  · cases hplace

/-- What holds of a request in flight still holds when more syncs are answered. -/
theorem Fits.mono {more : List Answer} {r : Running} (hr : Fits user device rooms answers r)
    (hsub : answers ⊆ more) : Fits user device rooms more r := by
  cases r with
  | put rest => exact trivial
  | gate rq st rest => exact hr
  | marker rq st passed hidden rest =>
      obtain ⟨hfair, hhidden, hrest⟩ := hr
      refine ⟨hfair, hhidden, hrest.imp id ?_⟩
      rintro ⟨h, hobeys⟩
      refine ⟨h, hobeys.mono fun _ r hsettled consumed forced heq => ?_⟩
      obtain ⟨hset, hunset⟩ := hsettled consumed forced heq
      refine ⟨hset, fun hc hp hs => ?_⟩
      obtain ⟨a, ha, hpassed⟩ := hunset hc hp hs
      exact ⟨a, hsub ha, hpassed⟩

/-- A sync that is answered has brought the rooms, where it was to. -/
theorem Fits.answered {rq : Request} {st : Store} {passed consumed : Bool}
    {hidden forced : List RoomId}
    (hr : Fits user device rooms answers (.marker rq st passed hidden (.ret (consumed, forced)))) :
    (consumed = true → rooms ⊆ (Answer.mk rq st passed hidden consumed forced).full) ∧
    (passed = true → rooms ⊆ (Answer.mk rq st passed hidden consumed forced).full ∨
      ∃ a ∈ answers, a.passed = true) := by
  obtain ⟨⟨-, hdevice, hserves⟩, hhidden, hrest⟩ := hr
  have hinitial : passed = true → rq.since = none →
      rooms ⊆ (Answer.mk rq st passed hidden consumed forced).full := by
    intro hpassed hsince room hroom
    refine mem_fullRooms_initial hserves hsince hroom ?_
    rw [hhidden hpassed]
    exact List.not_mem_nil
  rcases hrest with hplace | ⟨h, hobeys⟩
  · -- nothing is awaited at the second place: the sync is an initial one
    have hsince : rq.since = none := by
      unfold markerPlace at hplace
      rw [hdevice] at hplace
      cases hs : rq.since with
      | none => rfl
      | some since =>
          rw [hs] at hplace
          cases hplace
    have hconsumed : consumed = false := by
      unfold markerPlace at hplace
      rw [hdevice, hsince] at hplace
      cases hplace
      rfl
    refine ⟨fun hc => ?_, fun hpassed => .inl (hinitial hpassed hsince)⟩
    rw [hconsumed] at hc
    cases hc
  · obtain ⟨hset, hunset⟩ := hobeys consumed forced rfl
    have hforced : consumed = true →
        rooms ⊆ (Answer.mk rq st passed hidden consumed forced).full := by
      intro hc room hroom
      obtain ⟨hpassed, hsince, hsub⟩ := hset hc
      obtain ⟨since, hsome⟩ := Option.isSome_iff_exists.1 hsince
      refine mem_fullRooms_forced hserves hsome hroom ?_ (hsub hroom)
      rw [hhidden hpassed]
      exact List.not_mem_nil
    refine ⟨hforced, fun hpassed => ?_⟩
    cases hs : rq.since with
    | none => exact .inl (hinitial hpassed hs)
    | some since =>
        cases hc : consumed with
        | true =>
            rw [← hc]
            exact .inl (hforced hc)
        | false => exact .inr (hunset hc hpassed (by rw [hs]; rfl))

/-- Once a sync was answered with the gate open, the rooms have been brought. -/
theorem Kept.brought (hK : Kept user device w s) {a : Answer} (ha : a ∈ s.answers)
    (hpassed : a.passed = true) :
    ∀ room ∈ Lookup.hiddenRooms w.rooms user, ∃ a' ∈ s.answers,
      a'.passed = true ∧ room ∈ a'.full := by
  intro room hroom
  obtain ⟨l₁, l₂, hsplit⟩ := List.append_of_mem ha
  have hsuffix : a :: l₂ <:+ s.answers := ⟨l₁, hsplit.symm⟩
  rcases hK.caughtUp a l₂ hsuffix hpassed room hroom with hfull | ⟨a', ha', hbrought⟩
  · exact ⟨a, ha, hpassed, hfull⟩
  · exact ⟨a', hsuffix.subset (List.mem_cons_of_mem _ ha'), hbrought⟩

/-- A request that arrives fits. -/
theorem Kept.arrive (hK : Kept user device w s) {r : Running}
    (hr : Fits user device (Lookup.hiddenRooms w.rooms user) s.answers r) :
    Kept user device w { s with running := s.running ++ [r] } := by
  refine { hK with running := fun r' hr' => ?_ }
  rcases List.mem_append.1 hr' with hr' | hr'
  · exact hK.running r' hr'
  · obtain rfl := List.mem_singleton.1 hr'
    exact hr

/-- A request goes on: an await of it completes. -/
theorem Kept.goOn (hK : Kept user device w s) (cfg : Config) (env : Env) (op : Op) {r : Running}
    (hr : Fits user device (Lookup.hiddenRooms w.rooms user) s.answers r) :
    Kept user device w { s with
      world := (perform cfg env s.world op).1
      running := s.running.set i r } where
  rooms := (perform_rooms cfg env s.world op).trans hK.rooms
  entry := (perform_entry cfg env op hK.entry).1
  running := by
    intro r' hr'
    rcases List.mem_or_eq_of_mem_set hr' with hr' | rfl
    · exact hK.running r' hr'
    · exact hr
  caughtUp := hK.caughtUp
  kept := hK.kept

/-- What an await answers about the rooms. -/
theorem Kept.told (hK : Kept user device w s) (cfg : Config) (env : Env) (op : Op) :
    Told user (Lookup.hiddenRooms w.rooms user) op (perform cfg env s.world op).2 := by
  rw [← hK.rooms]
  exact (perform_entry cfg env op hK.entry).2

/-- A sync is answered. -/
theorem Kept.answer (hK : Kept user device w s) {rq : Request} {st : Store}
    {passed consumed : Bool} {hidden forced : List RoomId}
    (hr : Fits user device (Lookup.hiddenRooms w.rooms user) s.answers
      (.marker rq st passed hidden (.ret (consumed, forced)))) :
    Kept user device w { s with
      running := s.running.eraseIdx i
      answers := ⟨rq, st, passed, hidden, consumed, forced⟩ :: s.answers } where
  rooms := hK.rooms
  entry := hK.entry
  running := fun r' hr' =>
    (hK.running r' (List.mem_of_mem_eraseIdx hr')).mono (List.subset_cons_self _ _)
  caughtUp := by
    intro a before hsuffix hpassed room hroom
    rcases List.suffix_cons_iff.1 hsuffix with heq | hsuffix
    · obtain ⟨rfl, rfl⟩ := List.cons.inj heq
      rcases hr.answered.2 hpassed with hfull | ⟨a, ha, hopen⟩
      · exact .inl (hfull hroom)
      · exact .inr (hK.brought ha hopen room hroom)
    · exact hK.caughtUp a before hsuffix hpassed room hroom
  kept := by
    intro a ha hconsumed room hroom
    rcases List.mem_cons.1 ha with rfl | ha
    · exact hr.answered.1 hconsumed hroom
    · exact hK.kept a ha hconsumed room hroom

/-- **Every move in time keeps the invariant.** -/
theorem kept_step {a : Act} (hK : Kept user device w s)
    (hfair : Fair user device (Lookup.hiddenRooms w.rooms user) a) (htime : InTime s a = true)
    (h : step cfg user device s a = some t) : Kept user device w t := by
  cases a with
  | put body =>
      obtain rfl := Option.some.inj h
      exact hK.arrive trivial
  | sync rq st =>
      obtain rfl := Option.some.inj h
      exact hK.arrive ⟨hfair, [], gatePlace_obeys cfg rq⟩
  | step i env =>
      simp only [InTime, Bool.and_eq_true, Bool.not_eq_true'] at htime
      obtain ⟨hraises, htime⟩ := htime
      simp only [step] at h
      split at h
      · obtain rfl := Option.some.inj h
        exact hK.goOn cfg env _ trivial
      · rename_i rq st op k hi
        obtain rfl := Option.some.inj h
        obtain ⟨hsync, past, hobeys⟩ := hK.running _ (List.mem_of_getElem? hi)
        exact hK.goOn cfg env _ ⟨hsync, _, hobeys.2 _ (hK.told cfg env op)⟩
      · rename_i rq st passed hidden hi
        obtain rfl := Option.some.inj h
        obtain ⟨hsync, past, hobeys⟩ := hK.running _ (List.mem_of_getElem? hi)
        refine { hK with running := fun r hr => ?_ }
        rcases List.mem_or_eq_of_mem_set hr with hr | rfl
        · exact hK.running r hr
        · refine ⟨hsync, fun hpassed => hobeys hidden ?_, .inl rfl⟩
          rw [hpassed]
      · rename_i rq st passed hidden op k hi
        obtain rfl := Option.some.inj h
        obtain ⟨hsync, hhidden, hrest⟩ := hK.running _ (List.mem_of_getElem? hi)
        refine hK.goOn cfg env _ ⟨hsync, hhidden, .inr ?_⟩
        rcases hrest with hplace | ⟨past, hobeys⟩
        · refine ⟨[], markerPlace_settled hsync.1 hplace.symm hraises ?_⟩
          rintro d rfl
          rw [hi] at htime
          simpa [imp_iff_not_or, or_assoc] using htime
        · exact ⟨_, hobeys.2 _ (hK.told cfg env op)⟩
      · rename_i rq st passed hidden consumed forced hi
        obtain rfl := Option.some.inj h
        exact hK.answer (hK.running _ (List.mem_of_getElem? hi))
      · cases h

/-! ### Runs -/

theorem kept_start (hentry : Entry user w) : Kept user device w (start w) where
  rooms := rfl
  entry := hentry
  running := by simp [start]
  caughtUp := by simp [start]
  kept := by simp [start]

/-- **A device catches up** in every run of its requests in which the marker is consumed in
time. -/
theorem gate_catches_up {as : List Act} (hentry : Entry user w)
    (hfair : ∀ a ∈ as, Fair user device (Lookup.hiddenRooms w.rooms user) a)
    (h : Exec (step cfg user device) (fun s a => InTime s a = true) (start w) as s) :
    CatchesUp (Lookup.hiddenRooms w.rooms user) s.answers := by
  have hK : Kept user device w s := by
    refine (h.and_mem hfair).invariant (I := Kept user device w) (kept_start hentry) ?_
    intro s a t hK hc hstep
    exact kept_step hK hc.2 hc.1 hstep
  exact ⟨fun a before hsuffix hpassed _ => hK.caughtUp a before hsuffix hpassed, hK.kept⟩

/-- A moment at which the version gate asks for a build. -/
def asksFor (now build : ℤ) : Env := ⟨now, fun _ => .obj [("min_stories_build", .int build)], false⟩

/-- The database, for the user who is joined to the stories room. -/
def memberStore : Store :=
  { storiesStore ["!s"] [] with
    roomsWhereMembershipIs := [⟨"!s", "@bob:h", .join, "$0", 1, true⟩] }

theorem memberStore_fair :
    Fair "@bob:h" "D" (Lookup.hiddenRooms (storiesRooms .join) "@bob:h")
      (.sync bobSyncs memberStore) := by
  have hrooms : Lookup.hiddenRooms (storiesRooms .join) "@bob:h" = ["!s"] := by decide
  rw [hrooms]
  exact ⟨rfl, rfl, by decide, by decide, by decide, by decide,
    by decide, fun _ => .inl (List.cons_ne_nil _ _)⟩

/-- The device tells the build 100. -/
def tellsBuild : Act := .put [("platform", .str "web"), ("build", .int 100)]

/-- An incremental sync of the device. -/
def syncs : Act := .sync bobSyncs memberStore

/-- The requests go on, each await at its moment. -/
def goOn (i : ℕ) (n : ℕ) (env : Env) : List Act := List.replicate n (.step i env)

/-- The build is told while the version gate does not answer; by the next sync it does. -/
def answeredLate : List Act :=
  tellsBuild :: goOn 0 3 silentMoment ++ syncs :: goOn 1 5 (asksFor 0 50)

/-- The build is told when it is enough; at the next sync more is asked for. -/
def asksForMore : List Act :=
  tellsBuild :: goOn 0 4 (asksFor 0 50) ++ syncs :: goOn 1 7 (asksFor 1000 200)

/-- What an answered sync shows: whether it was incremental, the gate open and the marker
consumed, and the rooms that it has brought in full. -/
structure Shown where
  incremental : Bool
  passed : Bool
  consumed : Bool
  full : List RoomId
deriving DecidableEq

/-- What the sync shows. -/
def Answer.shows (a : Answer) : Shown := ⟨a.rq.since.isSome, a.passed, a.consumed, a.full⟩

/-- A single incremental sync that brings nothing has not caught up, with the gate open or the
marker consumed. -/
theorem not_catchesUp {passed consumed : Bool} (hroom : room ∈ rooms)
    (h : answers.map Answer.shows = [⟨true, passed, consumed, []⟩])
    (hshould : passed = true ∨ consumed = true) : ¬CatchesUp rooms answers := by
  intro hcatch
  obtain ⟨a, rfl, ha⟩ := List.map_eq_singleton_iff.1 h
  obtain ⟨hsince, hpassed, hconsumed, hfull⟩ : a.rq.since.isSome = true ∧ a.passed = passed ∧
      a.consumed = consumed ∧ a.full = [] := by
    simpa [Answer.shows] using ha
  have hnot : room ∉ a.full := by
    rw [hfull]
    exact List.not_mem_nil
  rcases hshould with rfl | rfl
  · rcases hcatch.caughtUp a [] List.suffix_rfl hpassed hsince room hroom with hin | ⟨a', ha', -⟩
    · exact hnot hin
    · cases ha'
  · exact hnot (hcatch.kept a List.mem_cons_self hconsumed room hroom)

/-- The requests of these runs are fair. -/
theorem told_fair {n m : ℕ} {env env' : Env} :
    ∀ a ∈ tellsBuild :: goOn 0 n env ++ syncs :: goOn 1 m env',
      Fair "@bob:h" "D" (Lookup.hiddenRooms (storiesRooms .join) "@bob:h") a := by
  intro a ha
  simp only [goOn, List.cons_append, List.mem_cons, List.mem_append, List.mem_replicate] at ha
  rcases ha with rfl | ⟨-, rfl⟩ | rfl | ⟨-, rfl⟩
  · exact trivial
  · exact trivial
  · exact memberStore_fair
  · exact trivial

/-- **A gate that opens of itself leaves the rooms behind, and one that closes again wastes
the marker.** -/
theorem rooms_left_behind :
    (∀ a ∈ answeredLate ++ asksForMore,
      Fair "@bob:h" "D" (Lookup.hiddenRooms (storiesRooms .join) "@bob:h") a) ∧
    (∃ s, Exec (step gateOn "@bob:h" "D") (fun _ _ => True) (start (storiesWorld .join none))
        answeredLate s ∧
      s.answers.map Answer.shows = [⟨true, true, false, []⟩] ∧
      ¬CatchesUp (Lookup.hiddenRooms (storiesRooms .join) "@bob:h") s.answers) ∧
    ∃ s, Exec (step gateOn "@bob:h" "D") (fun _ _ => True) (start (storiesWorld .join none))
        asksForMore s ∧
      s.answers.map Answer.shows = [⟨true, false, true, []⟩] ∧
      ¬CatchesUp (Lookup.hiddenRooms (storiesRooms .join) "@bob:h") s.answers := by
  have hhidden : py "!s" ∈ Lookup.hiddenRooms (storiesRooms .join) "@bob:h" := by decide
  refine ⟨fun a ha => ?_, ?_, ?_⟩
  · exact (List.mem_append.1 ha).elim (told_fair a) (told_fair a)
  · obtain ⟨s, hs, hshows⟩ := exists_exec_of_runs (f := step gateOn "@bob:h" "D")
      (C := fun _ _ => True) (s := start (storiesWorld .join none)) (l := answeredLate)
      (p := fun s => s.answers.map Answer.shows = [⟨true, true, false, []⟩]) (by decide)
    exact ⟨s, hs, hshows, not_catchesUp hhidden hshows (.inl rfl)⟩
  · obtain ⟨s, hs, hshows⟩ := exists_exec_of_runs (f := step gateOn "@bob:h" "D")
      (C := fun _ _ => True) (s := start (storiesWorld .join none)) (l := asksForMore)
      (p := fun s => s.answers.map Answer.shows = [⟨true, false, true, []⟩]) (by decide)
    exact ⟨s, hs, hshows, not_catchesUp hhidden hshows (.inr rfl)⟩

/-- The build is told when it is enough, and still is at the next sync. -/
theorem told_in_time_catches_up :
    ∃ s, Exec (step gateOn "@bob:h" "D") (fun s a => InTime s a = true)
        (start (storiesWorld .join none))
        (tellsBuild :: goOn 0 4 (asksFor 0 50) ++ syncs :: goOn 1 6 (asksFor 1000 100)) s ∧
      s.answers.map Answer.shows = [⟨true, true, true, ["!s"]⟩] ∧
      CatchesUp (Lookup.hiddenRooms (storiesRooms .join) "@bob:h") s.answers := by
  obtain ⟨s, hs, hshows⟩ := exists_exec_of_runs (f := step gateOn "@bob:h" "D")
    (C := fun s a => InTime s a = true) (s := start (storiesWorld .join none))
    (l := tellsBuild :: goOn 0 4 (asksFor 0 50) ++ syncs :: goOn 1 6 (asksFor 1000 100))
    (p := fun s => s.answers.map Answer.shows = [⟨true, true, true, ["!s"]⟩])
    (by decide)
  have hentry : Entry "@bob:h" (storiesWorld .join none) := by
    intro result h
    cases h
  exact ⟨s, hs, hshows, gate_catches_up hentry told_fair hs⟩

end CatchUp

end SyncGate
end Liza
