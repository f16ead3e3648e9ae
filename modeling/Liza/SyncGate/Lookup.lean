/-
# The lookup of hidden rooms, await by await

`HiddenRoomsLookup.get_hidden_room_ids_for_user` asks for the rooms of the user and then,
room by room, for its topology state and where there is none for its creation event.  Its
answer is cached per user, without an end.  `_on_new_event` runs for every persisted event,
after its caller has read the current state of the room, and drops the entries of the
members on a topology event.

Calls, events and callbacks interleave at the awaits.  An entry goes stale when its user
joins or leaves a hidden room, and when a call caches what it has collected before a
topology event that was handled in the meantime.  Where neither happens (`Orderly`), an
entry is right or is about to be dropped, and a call in flight is on its way to the right
answer.
-/

import Liza.Lib.Run
import Liza.SyncGate.Storage
import Mathlib.Data.List.Dedup
import Mathlib.Logic.Function.Iterate

set_option autoImplicit false

namespace Liza
namespace SyncGate
namespace Lookup

open Lib Synapse

/-! ### The code -/

/-- The await at which a call stands that has not found its user in the cache. -/
inductive Stage where
  /-- `get_rooms_for_user`. -/
  | rooms
  /-- The topology state of `room`; the rooms `rest` come after it. -/
  | topology (room : RoomId) (rest hidden : List RoomId)
  /-- The creation event of `room`, which has no topology state. -/
  | create (room : RoomId) (rest hidden : List RoomId)
  /-- Every answer is there; the result is cached and returned when the call goes on. -/
  | store (hidden : List RoomId)
deriving DecidableEq

/-- The head of the loop over the rooms. -/
def Stage.next (hidden : List RoomId) : List RoomId → Stage
  | [] => .store hidden
  | room :: rest => .topology room rest hidden

/-- `hidden.add(room_id)`, under a condition. -/
def addIf (b : Bool) (room : RoomId) (hidden : List RoomId) : List RoomId :=
  if b then hidden ++ [room] else hidden

/-- What is awaited is answered, and the call goes on to the next await. -/
def Stage.resume (rooms : Rooms) (user : UserId) : Stage → Stage
  | .rooms => .next [] (roomsForUser rooms user).dedup
  | .topology room rest hidden =>
      match rooms.state room topologyState "" with
      | some state => .next (addIf (state.content.get "hidden" = .bool true) room hidden) rest
      | none => .create room rest hidden
  | .create room rest hidden =>
      match rooms.state room "m.room.create" "" with
      | none => .next hidden rest
      | some event =>
          .next (addIf (event.content.get "com.liza.stories" = .bool true ||
            event.content.get "com.liza.chat.type" = .str "stories") room hidden) rest
  | .store hidden => .store hidden

/-- `_on_new_event`, with the joined members that it finds in `state_events`. -/
def onNewEvent (cache : HiddenCache) (event : Event) (members : List UserId) : HiddenCache :=
  if event.type = topologyState then fun user => if user ∈ members then none else cache user
  else cache

/-- A call in flight, and whether all events had been handled when it started. -/
structure Call where
  user : UserId
  clean : Bool
  stage : Stage
deriving DecidableEq

/-- The handling of an event: the joined members of its room, once they are read. -/
structure Callback where
  event : Event
  members : Option (List UserId)

/-- What a call has returned, and the rooms at that moment. -/
structure Answer where
  user : UserId
  clean : Bool
  result : List RoomId
  rooms : Rooms

/-- The rooms, the cache, and what is under way. -/
structure State where
  rooms : Rooms
  cache : HiddenCache
  calls : List Call
  callbacks : List Callback
  answers : List Answer

/-- What happens next: a call starts, goes on or fails at its await; an event is
persisted, or its handling goes on. -/
inductive Act where
  | call (user : UserId)
  | resume (i : ℕ)
  | fail (i : ℕ)
  | persist (event : Event)
  | handle (i : ℕ)

/-- One move. -/
def step (s : State) : Act → Option State
  | .call user =>
      match s.cache user with
      | some cached =>
          some { s with answers := ⟨user, s.callbacks.isEmpty, cached, s.rooms⟩ :: s.answers }
      | none => some { s with calls := s.calls ++ [⟨user, s.callbacks.isEmpty, .rooms⟩] }
  | .resume i =>
      match s.calls[i]? with
      | none => none
      | some ⟨user, clean, .store hidden⟩ =>
          some { s with
            cache := Function.update s.cache user (some hidden)
            calls := s.calls.eraseIdx i
            answers := ⟨user, clean, hidden, s.rooms⟩ :: s.answers }
      | some ⟨user, clean, stage⟩ =>
          some { s with calls := s.calls.set i ⟨user, clean, stage.resume s.rooms user⟩ }
  | .fail i =>
      match s.calls[i]? with
      | none => none
      | some ⟨_, _, .store _⟩ => none
      | some _ => some { s with calls := s.calls.eraseIdx i }
  | .persist e =>
      some { s with rooms := s.rooms.persist e, callbacks := s.callbacks ++ [⟨e, none⟩] }
  | .handle i =>
      match s.callbacks[i]? with
      | none => none
      | some ⟨e, none⟩ =>
          some { s with callbacks :=
            s.callbacks.set i ⟨e, some (s.rooms.usersWith e.roomId .join)⟩ }
      | some ⟨e, some members⟩ =>
          some { s with
            cache := onNewEvent s.cache e members
            callbacks := s.callbacks.eraseIdx i }

/-- Before any call. -/
def start (rooms : Rooms) : State := ⟨rooms, fun _ => none, [], [], []⟩

/-! ### What is asked of the answers -/

/-- The rooms the user is joined to that are hidden by the current state. -/
def hiddenRooms (rooms : Rooms) (user : UserId) : List RoomId :=
  (roomsForUser rooms user).filter (isHidden rooms)

/-- The result lists the hidden rooms of the user. -/
def Lists (rooms : Rooms) (user : UserId) (result : List RoomId) : Prop :=
  ∀ room, room ∈ result ↔ room ∈ hiddenRooms rooms user

/-- Every call that has started with all events handled has returned the hidden rooms of
its user, and every call in flight comes to return them. -/
structure Coherent (s : State) : Prop where
  answered : ∀ a ∈ s.answers, a.clean = true → Lists a.rooms a.user a.result
  returns : ∀ c ∈ s.calls, ∃ n hidden,
    (Stage.resume s.rooms c.user)^[n] c.stage = .store hidden ∧ Lists s.rooms c.user hidden

/-- The rooms that a call has yet to decide. -/
def Stage.todo : Stage → List RoomId
  | .topology room rest _ => room :: rest
  | .create room rest _ => room :: rest
  | _ => []

/-- The rooms whose topology a call has yet to read. -/
def Stage.ahead : Stage → List RoomId
  | .topology room rest _ => room :: rest
  | .create _ rest _ => rest
  | _ => []

/-- The user is joined to the room. -/
def joined (rooms : Rooms) (room : RoomId) (user : UserId) : Bool :=
  rooms.membership room user = some .join

/-- The event does not change whether its room is hidden, or every call of a member has yet
to read the topology of the room. -/
def hidesInTime (s : State) (e : Event) : Bool :=
  isHidden (s.rooms.persist e) e.roomId = isHidden s.rooms e.roomId ||
    s.calls.all fun c => !joined s.rooms e.roomId c.user || c.stage = .rooms ||
      e.roomId ∈ c.stage.ahead

/-- The event does not change whether the user is joined to its room, or the room is not
hidden, no call of his has yet to decide it, and if he has an entry, then no topology event
of the room waits for the members to be read. -/
def movesInTime (s : State) (e : Event) (user : UserId) : Bool :=
  joined (s.rooms.persist e) e.roomId user = joined s.rooms e.roomId user ||
    (s.calls.all fun c => c.user ≠ user || c.stage = .rooms ||
      e.roomId ∉ c.stage.todo && !isHidden s.rooms e.roomId) &&
    (s.cache user = none || !isHidden s.rooms e.roomId &&
      s.callbacks.all fun cb => cb.event.type ≠ topologyState || cb.event.roomId ≠ e.roomId ||
        cb.members.isSome)

/-- Rooms are not created, and an event changes neither what is cached nor what is being
collected, other than by the entries that its handling drops. -/
def Orderly (s : State) : Act → Bool
  | .persist e => e.type ≠ py "m.room.create" && hidesInTime s e && e.stateKey.all (movesInTime s e)
  | _ => true

/-! ### What an event changes -/

variable {rooms : Rooms} {user : UserId} {room : RoomId} {e : Event} {s t : State}
  {todo hidden : List RoomId} {stage : Stage}

theorem mem_roomsForUser :
    room ∈ roomsForUser rooms user ↔ room ∈ rooms.ids ∧ joined rooms room user = true := by
  simp [roomsForUser, joined]

theorem mem_hiddenRooms : room ∈ hiddenRooms rooms user ↔
    room ∈ roomsForUser rooms user ∧ isHidden rooms room = true := by
  simp [hiddenRooms]

/-- What the creation event says of a room without topology state. -/
def legacy (rooms : Rooms) (room : RoomId) : Bool :=
  match rooms.state room "m.room.create" "" with
  | none => false
  | some event => event.content.get "com.liza.stories" = .bool true ||
      event.content.get "com.liza.chat.type" = .str "stories"

theorem isHidden_of_none (h : rooms.state room topologyState "" = none) :
    isHidden rooms room = legacy rooms room := by
  simp only [isHidden, h]
  rfl

section Persist

variable (hcreate : e.type ≠ py "m.room.create")
include hcreate

theorem persist_ids : (rooms.persist e).ids = rooms.ids := by
  unfold Rooms.persist
  split
  · rfl
  · split
    · split <;> rfl
    · rw [if_neg fun h => hcreate h.1]

theorem persist_legacy : legacy (rooms.persist e) room = legacy rooms room := by
  simp only [legacy]
  rw [Rooms.persist_state_of_ne]
  exact fun h => hcreate h.2.1

/-- Whether a room is hidden changes by its own topology events only. -/
theorem persist_isHidden (h : e.roomId ≠ room ∨ e.type ≠ topologyState) :
    isHidden (rooms.persist e) room = isHidden rooms room := by
  have htopology : (rooms.persist e).state room topologyState "" =
      rooms.state room topologyState "" := by
    refine Rooms.persist_state_of_ne _ _ _ _ _ fun h' => ?_
    rcases h with h | h
    · exact h h'.1
    · exact h h'.2.1
  cases hstate : rooms.state room topologyState "" with
  | none =>
      rw [isHidden_of_none hstate, isHidden_of_none (htopology.trans hstate),
        persist_legacy hcreate]
  | some state => simp only [isHidden, htopology, hstate]

omit hcreate in
/-- Whether a user is joined to a room changes by his membership events there only. -/
theorem persist_joined (h : e.roomId ≠ room ∨ e.stateKey ≠ some user ∨ e.type = topologyState) :
    joined (rooms.persist e) room user = joined rooms room user := by
  simp only [joined]
  rw [Rooms.persist_membership_of_ne]
  rintro ⟨hr, ht, hk⟩
  rcases h with h | h | h
  · exact h hr
  · exact h hk
  · rw [h] at ht
    exact absurd ht (by decide)

theorem mem_roomsForUser_persist (h : e.roomId ≠ room ∨ joined (rooms.persist e) room user =
    joined rooms room user) :
    room ∈ roomsForUser (rooms.persist e) user ↔ room ∈ roomsForUser rooms user := by
  have hjoined : joined (rooms.persist e) room user = joined rooms room user :=
    h.elim (fun hne => persist_joined (.inl hne)) id
  rw [mem_roomsForUser, mem_roomsForUser, persist_ids hcreate, hjoined]

theorem mem_hiddenRooms_persist_of_ne (hne : e.roomId ≠ room) :
    room ∈ hiddenRooms (rooms.persist e) user ↔ room ∈ hiddenRooms rooms user := by
  rw [mem_hiddenRooms, mem_hiddenRooms, mem_roomsForUser_persist hcreate (.inl hne),
    persist_isHidden hcreate (.inl hne)]

end Persist

/-! ### A call in flight -/

/-- With `hidden` collected and `todo` to be decided, a call is on its way to the hidden
rooms of its user. -/
structure OnCourse (rooms : Rooms) (user : UserId) (todo hidden : List RoomId) : Prop where
  nodup : todo.Nodup
  own : ∀ room ∈ todo, room ∈ roomsForUser rooms user
  apart : ∀ room ∈ todo, room ∉ hidden
  hidden : ∀ room, room ∈ hiddenRooms rooms user ↔
    room ∈ hidden ∨ room ∈ todo ∧ isHidden rooms room = true

/-- What holds of a call at each of its awaits. -/
def Stage.Fits (rooms : Rooms) (user : UserId) : Stage → Prop
  | .rooms => True
  | .topology room rest hidden => OnCourse rooms user (room :: rest) hidden
  | .create room rest hidden => OnCourse rooms user (room :: rest) hidden ∧
      legacy rooms room = isHidden rooms room
  | .store hidden => OnCourse rooms user [] hidden

theorem OnCourse.lists (h : OnCourse rooms user [] hidden) : Lists rooms user hidden := by
  intro room
  rw [h.hidden room]
  simp

theorem OnCourse.start : OnCourse rooms user (roomsForUser rooms user).dedup [] where
  nodup := List.nodup_dedup _
  own := fun _ h => List.mem_dedup.1 h
  apart := fun _ _ => List.not_mem_nil
  hidden := by simp [mem_hiddenRooms]

theorem OnCourse.fits_next (h : OnCourse rooms user todo hidden) :
    (Stage.next hidden todo).Fits rooms user := by
  cases todo with
  | nil => exact h
  | cons room rest => exact h

/-- The first of the rooms is decided. -/
theorem OnCourse.decide {rest : List RoomId} (h : OnCourse rooms user (room :: rest) hidden) :
    OnCourse rooms user rest (addIf (isHidden rooms room) room hidden) := by
  obtain ⟨hnodup, hown, hapart, hhidden⟩ := h
  obtain ⟨hnot, hrest⟩ := List.nodup_cons.1 hnodup
  refine ⟨hrest, fun x hx => hown x (List.mem_cons_of_mem _ hx), fun x hx => ?_, fun x => ?_⟩
  · have hne : x ≠ room := by
      rintro rfl
      exact hnot hx
    have hx' := hapart x (List.mem_cons_of_mem _ hx)
    unfold addIf
    split <;> simp [hx', hne]
  · rw [hhidden x, List.mem_cons]
    unfold addIf
    split
    · rename_i hr
      simp only [List.mem_append, List.mem_singleton]
      constructor
      · rintro (h | ⟨rfl | h, hx⟩)
        · exact .inl (.inl h)
        · exact .inl (.inr rfl)
        · exact .inr ⟨h, hx⟩
      · rintro ((h | rfl) | ⟨h, hx⟩)
        · exact .inl h
        · exact .inr ⟨.inl rfl, hr⟩
        · exact .inr ⟨.inr h, hx⟩
    · rename_i hr
      constructor
      · rintro (h | ⟨rfl | h, hx⟩)
        · exact .inl h
        · exact absurd hx hr
        · exact .inr ⟨h, hx⟩
      · rintro (h | ⟨h, hx⟩)
        · exact .inl h
        · exact .inr ⟨.inr h, hx⟩

/-- What a call awaits next fits, where what it has awaited did. -/
theorem Stage.Fits.resume (h : stage.Fits rooms user) :
    (stage.resume rooms user).Fits rooms user := by
  cases stage with
  | rooms => exact OnCourse.start.fits_next
  | topology room rest hidden =>
      have hdecide := OnCourse.decide h
      simp only [Stage.resume]
      cases hstate : rooms.state room topologyState "" with
      | none => exact ⟨h, (isHidden_of_none hstate).symm⟩
      | some state =>
          have heq : isHidden rooms room = decide (state.content.get "hidden" = .bool true) := by
            simp only [isHidden, hstate]
          rw [heq] at hdecide
          exact hdecide.fits_next
  | create room rest hidden =>
      obtain ⟨hcourse, hlegacy⟩ := h
      have hdecide := hcourse.decide
      rw [← hlegacy] at hdecide
      simp only [Stage.resume]
      cases hstate : rooms.state room "m.room.create" "" with
      | none =>
          have heq : legacy rooms room = false := by simp only [legacy, hstate]
          rw [heq] at hdecide
          exact hdecide.fits_next
      | some event =>
          have heq : legacy rooms room = (decide (event.content.get "com.liza.stories" = .bool true) ||
              decide (event.content.get "com.liza.chat.type" = .str "stories")) := by
            simp only [legacy, hstate]
          rw [heq] at hdecide
          exact hdecide.fits_next
  | store hidden => exact h

theorem resume_create (rooms : Rooms) (user : UserId) (room : RoomId) (rest hidden : List RoomId) :
    ∃ hidden', (Stage.create room rest hidden).resume rooms user = .next hidden' rest := by
  simp only [Stage.resume]
  split <;> exact ⟨_, rfl⟩

theorem next_returns (rooms : Rooms) (user : UserId) (hidden todo : List RoomId) :
    ∃ n result, (Stage.resume rooms user)^[n] (.next hidden todo) = .store result := by
  induction todo generalizing hidden with
  | nil => exact ⟨0, hidden, rfl⟩
  | cons room rest ih =>
      cases hstate : rooms.state room topologyState "" with
      | some state =>
          obtain ⟨n, result, hn⟩ := ih _
          refine ⟨n + 1, result, ?_⟩
          rw [Function.iterate_succ_apply, Stage.next, Stage.resume, hstate]
          exact hn
      | none =>
          obtain ⟨hidden', hresume⟩ := resume_create rooms user room rest hidden
          obtain ⟨n, result, hn⟩ := ih hidden'
          refine ⟨n + 2, result, ?_⟩
          rw [Function.iterate_succ_apply, Function.iterate_succ_apply, Stage.next]
          rw [show (Stage.topology room rest hidden).resume rooms user = .create room rest hidden by
            simp only [Stage.resume, hstate], hresume, hn]

/-- **A call that goes on undisturbed returns.** -/
theorem Stage.returns (rooms : Rooms) (user : UserId) (stage : Stage) :
    ∃ n result, (Stage.resume rooms user)^[n] stage = .store result := by
  cases stage with
  | rooms =>
      obtain ⟨n, result, hn⟩ := next_returns rooms user [] (roomsForUser rooms user).dedup
      exact ⟨n + 1, result, hn⟩
  | topology room rest hidden => exact next_returns rooms user hidden (room :: rest)
  | create room rest hidden =>
      obtain ⟨hidden', hresume⟩ := resume_create rooms user room rest hidden
      obtain ⟨n, result, hn⟩ := next_returns rooms user hidden' rest
      refine ⟨n + 1, result, ?_⟩
      rw [Function.iterate_succ_apply, hresume, hn]
  | store hidden => exact ⟨0, hidden, rfl⟩

/-- What it returns are the hidden rooms of its user. -/
theorem Stage.Fits.returns (h : stage.Fits rooms user) :
    ∃ n result, (Stage.resume rooms user)^[n] stage = .store result ∧ Lists rooms user result := by
  obtain ⟨n, result, hn⟩ := stage.returns rooms user
  have hfits : ∀ n, ((Stage.resume rooms user)^[n] stage).Fits rooms user := by
    intro n
    induction n with
    | zero => exact h
    | succ n ih =>
        rw [Function.iterate_succ_apply']
        exact ih.resume
  have hstore := hfits n
  rw [hn] at hstore
  exact ⟨n, result, hn, OnCourse.lists hstore⟩

/-- **A call that nothing disturbs answers as the lookup that is taken at one moment.** -/
theorem undisturbed_call {cache : HiddenCache} (hmiss : cache user = none) :
    ∃ n result, (Stage.resume rooms user)^[n] .rooms = .store result ∧
      ∀ room, room ∈ result ↔ room ∈ (getHiddenRoomIdsForUser rooms cache user).2 := by
  have hfits : Stage.rooms.Fits rooms user := trivial
  obtain ⟨n, result, hn, hlists⟩ := hfits.returns
  refine ⟨n, result, hn, fun room => ?_⟩
  rw [hlists room]
  simp only [getHiddenRoomIdsForUser, hmiss, hiddenRooms]

/-- A call stays on its course where an event changes nothing of its room, where the room
is none of those that it deals with, and where it has yet to decide it. -/
theorem OnCourse.persist (hcreate : e.type ≠ py "m.room.create")
    (h : OnCourse rooms user todo hidden)
    (he : joined (rooms.persist e) e.roomId user = joined rooms e.roomId user ∧
        isHidden (rooms.persist e) e.roomId = isHidden rooms e.roomId ∨
      e.roomId ∉ todo ∧ e.roomId ∉ hidden ∧ e.roomId ∉ hiddenRooms (rooms.persist e) user ∨
      e.roomId ∈ todo ∧ joined (rooms.persist e) e.roomId user = joined rooms e.roomId user) :
    OnCourse (rooms.persist e) user todo hidden := by
  obtain ⟨hnodup, hown, hapart, hhidden⟩ := h
  refine ⟨hnodup, fun room hroom => ?_, hapart, fun room => ?_⟩
  · refine (mem_roomsForUser_persist hcreate ?_).2 (hown room hroom)
    by_cases hr : e.roomId = room
    · subst hr
      rcases he with he | he | he
      · exact .inr he.1
      · exact absurd hroom he.1
      · exact .inr he.2
    · exact .inl hr
  · by_cases hr : e.roomId = room
    · subst hr
      rcases he with ⟨hj, hh⟩ | ⟨htodo, hout, hnot⟩ | ⟨htodo, hj⟩
      · rw [mem_hiddenRooms, mem_roomsForUser_persist hcreate (.inr hj), hh, ← mem_hiddenRooms,
          hhidden]
      · simp [htodo, hout, hnot]
      · have hin := (mem_roomsForUser_persist hcreate (.inr hj)).2 (hown _ htodo)
        simp [mem_hiddenRooms, hin, htodo, hapart _ htodo]
    · rw [mem_hiddenRooms_persist_of_ne hcreate hr, hhidden, persist_isHidden hcreate (.inl hr)]

theorem Stage.ahead_subset (stage : Stage) : stage.ahead ⊆ stage.todo := by
  cases stage with
  | rooms => exact fun _ => id
  | topology room rest hidden => exact fun _ => id
  | create room rest hidden => exact List.subset_cons_self _ _
  | store hidden => exact fun _ => id

/-- **A call in flight keeps its course over an event that comes in time.** -/
theorem Stage.Fits.persist (hcreate : e.type ≠ py "m.room.create") (h : stage.Fits rooms user)
    (hhides : isHidden (rooms.persist e) e.roomId = isHidden rooms e.roomId ∨
      joined rooms e.roomId user = false ∨ stage = .rooms ∨ e.roomId ∈ stage.ahead)
    (hmoves : joined (rooms.persist e) e.roomId user = joined rooms e.roomId user ∨
      stage = .rooms ∨ e.roomId ∉ stage.todo ∧ isHidden rooms e.roomId = false) :
    stage.Fits (rooms.persist e) user := by
  by_cases hrooms : stage = .rooms
  · subst hrooms
    exact trivial
  simp only [hrooms, false_or] at hhides hmoves
  -- the cases of `OnCourse.persist`, by what the event changes
  have hcases : ∀ hidden, OnCourse rooms user stage.todo hidden →
      joined (rooms.persist e) e.roomId user = joined rooms e.roomId user ∧
          isHidden (rooms.persist e) e.roomId = isHidden rooms e.roomId ∨
        e.roomId ∉ stage.todo ∧ e.roomId ∉ hidden ∧
          e.roomId ∉ hiddenRooms (rooms.persist e) user ∨
        e.roomId ∈ stage.ahead ∧
          joined (rooms.persist e) e.roomId user = joined rooms e.roomId user := by
    intro hidden hcourse
    by_cases hj : joined (rooms.persist e) e.roomId user = joined rooms e.roomId user
    · rcases hhides with hh | hnot | hahead
      · exact .inl ⟨hj, hh⟩
      · -- the user is not a member, so the room is not among those he is asked about
        refine .inr (.inl ⟨fun hin => ?_, fun hin => ?_, fun hin => ?_⟩)
        · have := (mem_roomsForUser.1 (hcourse.own _ hin)).2
          rw [hnot] at this
          cases this
        · have := (mem_roomsForUser.1 (mem_hiddenRooms.1 ((hcourse.hidden _).2 (.inl hin))).1).2
          rw [hnot] at this
          cases this
        · have := (mem_roomsForUser.1 (mem_hiddenRooms.1 hin).1).2
          rw [hj, hnot] at this
          cases this
      · exact .inr (.inr ⟨hahead, hj⟩)
    · obtain ⟨htodo, hvisible⟩ := hmoves.resolve_left hj
      have htype : e.type ≠ topologyState := fun ht => hj (persist_joined (.inr (.inr ht)))
      refine .inr (.inl ⟨htodo, fun hin => ?_, fun hin => ?_⟩)
      · have := (mem_hiddenRooms.1 ((hcourse.hidden _).2 (.inl hin))).2
        rw [hvisible] at this
        cases this
      · have := (mem_hiddenRooms.1 hin).2
        rw [persist_isHidden hcreate (.inr htype), hvisible] at this
        cases this
  have hkeeps : ∀ hidden, OnCourse rooms user stage.todo hidden →
      OnCourse (rooms.persist e) user stage.todo hidden := by
    intro hidden hcourse
    refine hcourse.persist hcreate ((hcases hidden hcourse).imp id (Or.imp id ?_))
    exact And.imp_left fun hin => stage.ahead_subset hin
  cases stage with
  | rooms => exact trivial
  | topology room rest hidden => exact hkeeps _ h
  | create room rest hidden =>
      obtain ⟨hcourse, hlegacy⟩ := h
      refine ⟨hkeeps _ hcourse, ?_⟩
      rw [persist_legacy hcreate, hlegacy]
      by_cases hr : e.roomId = room
      · subst hr
        rcases hcases _ hcourse with h | h | h
        · exact h.2.symm
        · exact absurd List.mem_cons_self h.1
        · exact absurd h.1 (List.nodup_cons.1 hcourse.nodup).1
      · exact (persist_isHidden hcreate (.inl hr)).symm
  | store hidden => exact hkeeps _ h

/-! ### The invariant -/

/-- The handling of an event comes to drop the entry of the user. -/
def Callback.Drops (rooms : Rooms) (user : UserId) (cb : Callback) : Prop :=
  cb.event.type = topologyState ∧
    match cb.members with
    | none => joined rooms cb.event.roomId user = true
    | some members => user ∈ members

/-- **The invariant**: an entry is right or about to be dropped, and a call is on its
course. -/
structure Held (s : State) : Prop where
  cache : ∀ user result, s.cache user = some result →
    Lists s.rooms user result ∨ ∃ cb ∈ s.callbacks, cb.Drops s.rooms user
  calls : ∀ c ∈ s.calls, c.stage.Fits s.rooms c.user
  answers : ∀ a ∈ s.answers, a.clean = true → Lists a.rooms a.user a.result

theorem Held.coherent (h : Held s) : Coherent s where
  answered := h.answers
  returns := fun c hc => (h.calls c hc).returns

theorem held_start (rooms : Rooms) : Held (start rooms) where
  cache := by simp [start]
  calls := by simp [start]
  answers := by simp [start]

/-- A call that finds an entry when all events are handled finds a right one. -/
theorem held_call (h : Held s) (hs : step s (.call user) = some t) : Held t := by
  simp only [step] at hs
  split at hs
  · rename_i cached hcached
    obtain rfl := Option.some.inj hs
    refine ⟨h.cache, h.calls, fun a ha hclean => ?_⟩
    rcases List.mem_cons.1 ha with rfl | ha
    · rcases h.cache user cached hcached with hright | ⟨cb, hcb, -⟩
      · exact hright
      · rw [List.isEmpty_iff.1 hclean] at hcb
        cases hcb
    · exact h.answers a ha hclean
  · obtain rfl := Option.some.inj hs
    refine ⟨h.cache, fun c hc => ?_, h.answers⟩
    rcases List.mem_append.1 hc with hc | hc
    · exact h.calls c hc
    · obtain rfl := List.mem_singleton.1 hc
      exact trivial

theorem held_resume {i : ℕ} (h : Held s) (hs : step s (.resume i) = some t) : Held t := by
  simp only [step] at hs
  split at hs
  · cases hs
  · rename_i u clean hidden hi
    obtain rfl := Option.some.inj hs
    have hlists : Lists s.rooms u hidden := OnCourse.lists (h.calls _ (List.mem_of_getElem? hi))
    refine ⟨fun user result hcache => ?_, fun c hc => ?_, fun a ha hclean => ?_⟩
    · by_cases hu : user = u
      · subst hu
        obtain rfl : hidden = result := by simpa using hcache
        exact .inl hlists
      · exact h.cache user result (by simpa [Function.update_of_ne hu] using hcache)
    · exact h.calls c (List.mem_of_mem_eraseIdx hc)
    · rcases List.mem_cons.1 ha with rfl | ha
      · exact hlists
      · exact h.answers a ha hclean
  · rename_i u clean stage _ hi
    obtain rfl := Option.some.inj hs
    refine ⟨h.cache, fun c hc => ?_, h.answers⟩
    rcases List.mem_or_eq_of_mem_set hc with hc | rfl
    · exact h.calls c hc
    · exact (h.calls _ (List.mem_of_getElem? hi)).resume

theorem held_fail {i : ℕ} (h : Held s) (hs : step s (.fail i) = some t) : Held t := by
  simp only [step] at hs
  split at hs
  · cases hs
  · cases hs
  · obtain rfl := Option.some.inj hs
    exact ⟨h.cache, fun c hc => h.calls c (List.mem_of_mem_eraseIdx hc), h.answers⟩

/-- The handling of an event drops what it has found to be dropped. -/
theorem held_handle {i : ℕ} (h : Held s) (hs : step s (.handle i) = some t) : Held t := by
  simp only [step] at hs
  split at hs
  · cases hs
  · rename_i e hi
    obtain rfl := Option.some.inj hs
    refine ⟨fun user result hcache => ?_, h.calls, h.answers⟩
    refine (h.cache user result hcache).imp id ?_
    rintro ⟨cb, hcb, hdrops⟩
    obtain ⟨l, hl⟩ := List.mem_iff_getElem?.1 hcb
    by_cases hli : l = i
    · -- the members are read while the user is one of them
      subst hli
      obtain rfl := Option.some.inj (hi.symm.trans hl)
      refine ⟨_, List.mem_set (List.getElem?_eq_some_iff.1 hl).1 _, hdrops.1, ?_⟩
      exact Rooms.mem_usersWith _ _ _ (of_decide_eq_true hdrops.2)
    · refine ⟨cb, List.mem_of_getElem? (i := l) ?_, hdrops⟩
      rw [List.getElem?_set_ne (Ne.symm hli), hl]
  · rename_i e members hi
    obtain rfl := Option.some.inj hs
    refine ⟨fun user result hcache => ?_, h.calls, h.answers⟩
    have hold : s.cache user = some result ∧ ¬(e.type = topologyState ∧ user ∈ members) := by
      simp only [onNewEvent] at hcache
      split at hcache
      · by_cases hmem : user ∈ members
        · simp [hmem] at hcache
        · exact ⟨by simpa [hmem] using hcache, fun hc => hmem hc.2⟩
      · rename_i htype
        exact ⟨hcache, fun hc => htype hc.1⟩
    refine (h.cache user result hold.1).imp id ?_
    rintro ⟨cb, hcb, hdrops⟩
    obtain ⟨l, hl⟩ := List.mem_iff_getElem?.1 hcb
    refine ⟨cb, List.mem_eraseIdx_iff_getElem?.2 ⟨l, fun hli => ?_, hl⟩, hdrops⟩
    subst hli
    obtain rfl := Option.some.inj (hi.symm.trans hl)
    exact hold.2 hdrops

/-- The hidden rooms of a user are the same after an event that does not change whether he
is joined to its room or whether the room is hidden; nor does either matter without the
other. -/
theorem lists_persist {result : List RoomId} (hcreate : e.type ≠ py "m.room.create")
    (h : Lists rooms user result)
    (hj : joined (rooms.persist e) e.roomId user = joined rooms e.roomId user ∨
      isHidden rooms e.roomId = false)
    (hh : isHidden (rooms.persist e) e.roomId = isHidden rooms e.roomId ∨
      joined rooms e.roomId user = false) :
    Lists (rooms.persist e) user result := by
  intro room
  rw [h room]
  by_cases hr : e.roomId = room
  · subst hr
    simp only [mem_hiddenRooms, mem_roomsForUser, persist_ids hcreate]
    -- an event changes one of the two at most
    by_cases ht : e.type = topologyState
    · have hsame : joined (rooms.persist e) e.roomId user = joined rooms e.roomId user :=
        persist_joined (.inr (.inr ht))
      rw [hsame]
      rcases hh with hh | hh <;> simp [hh]
    · rw [persist_isHidden hcreate (.inr ht)]
      rcases hj with hj | hj <;> simp [hj]
  · exact (mem_hiddenRooms_persist_of_ne hcreate hr).symm

theorem held_persist (h : Held s) (hc : Orderly s (.persist e) = true)
    (hs : step s (.persist e) = some t) : Held t := by
  obtain rfl := Option.some.inj hs
  simp only [Orderly, Bool.and_eq_true, decide_eq_true_eq] at hc
  obtain ⟨⟨hcreate, hhides⟩, hmoves⟩ := hc
  have hmoves : ∀ user, joined (s.rooms.persist e) e.roomId user = joined s.rooms e.roomId user ∨
      movesInTime s e user = true := by
    intro user
    by_cases hk : e.stateKey = some user
    · rw [hk] at hmoves
      exact .inr hmoves
    · exact .inl (persist_joined (.inr (.inl hk)))
  simp only [hidesInTime, Bool.or_eq_true, decide_eq_true_eq, List.all_eq_true,
    Bool.not_eq_true'] at hhides
  simp only [movesInTime, Bool.or_eq_true, Bool.and_eq_true, decide_eq_true_eq, List.all_eq_true,
    Bool.not_eq_true', ne_eq] at hmoves
  refine ⟨fun user result hcache => ?_, fun c hcall => ?_, h.answers⟩
  · have hentry : joined (s.rooms.persist e) e.roomId user = joined s.rooms e.roomId user ∨
        isHidden s.rooms e.roomId = false ∧ ∀ cb ∈ s.callbacks,
          (¬cb.event.type = topologyState ∨ ¬cb.event.roomId = e.roomId) ∨
            cb.members.isSome = true := by
      have hsome : ¬s.cache user = none := by
        rw [show s.cache user = some result from hcache]
        exact Option.some_ne_none _
      have := hmoves user
      tauto
    rcases h.cache user result hcache with hright | ⟨cb, hcb, htype, hmembers⟩
    · by_cases hh : isHidden (s.rooms.persist e) e.roomId = isHidden s.rooms e.roomId ∨
          joined s.rooms e.roomId user = false
      · exact .inl (lists_persist hcreate hright (hentry.imp id And.left) hh)
      · -- a topology event of a room of the user: its own handling drops the entry
        rw [not_or] at hh
        have ht : e.type = topologyState := by
          by_contra hne
          exact hh.1 (persist_isHidden hcreate (.inr hne))
        refine .inr ⟨⟨e, none⟩, List.mem_append_right _ (List.mem_singleton_self _), ht, ?_⟩
        show joined (s.rooms.persist e) e.roomId user = true
        rw [persist_joined (.inr (.inr ht))]
        simpa using hh.2
    · refine .inr ⟨cb, List.mem_append_left _ hcb, htype, ?_⟩
      cases hread : cb.members with
      | some members =>
          rw [hread] at hmembers
          exact hmembers
      | none =>
          rw [hread] at hmembers
          show joined (s.rooms.persist e) cb.event.roomId user = true
          by_cases hr : e.roomId = cb.event.roomId
          · rcases hentry with hj | ⟨-, hall⟩
            · rw [← hr, hj, hr]
              exact hmembers
            · have := hall cb hcb
              simp [htype, hr, hread] at this
          · rw [persist_joined (.inl hr)]
            exact hmembers
  · refine (h.calls c hcall).persist hcreate ?_ ?_
    · rcases hhides with hh | hall
      · exact .inl hh
      · have := hall c hcall
        tauto
    · rcases hmoves c.user with hj | hj | ⟨hall, -⟩
      · exact .inl hj
      · exact .inl hj
      · have := hall c hcall
        tauto

/-! ### Runs -/

/-- **Calls return the hidden rooms of their users**, in every run whose events come in
time. -/
theorem lookups_coherent {as : List Act}
    (h : Exec step (fun s a => Orderly s a = true) (start rooms) as s) : Coherent s := by
  have hheld : Held s := by
    refine h.invariant (I := Held) (held_start rooms) ?_
    intro s a t hheld hc hstep
    cases a with
    | call user => exact held_call hheld hstep
    | resume i => exact held_resume hheld hstep
    | fail i => exact held_fail hheld hstep
    | persist e => exact held_persist hheld hc hstep
    | handle i => exact held_handle hheld hstep
  exact hheld.coherent

/-- `@bob:h` is in two groups; the stories room `!s` is hidden by its creation content. -/
def bobsRooms : Rooms where
  ids := ["!g", "!h", "!s"]
  state := fun room type _ =>
    if type = py "m.room.create" then
      some ⟨"@ann:h", if room = py "!s" then [("com.liza.stories", .bool true)] else []⟩
    else none
  members := fun room => if room = py "!s" then [] else [("@bob:h", .join)]

/-- `@bob:h` joins the stories room. -/
def joinsStories : Event :=
  ⟨"$1", "m.room.member", "!s", "@bob:h", some "@bob:h", [("membership", .str "join")], none⟩

/-- The first group becomes hidden. -/
def hidesGroup : Event :=
  ⟨"$2", topologyState, "!g", "@ann:h", some "", [("hidden", .bool true)], none⟩

/-- The events are membership changes and topology events. -/
def ofRooms : Act → Bool
  | .persist e => e.stateKey.isSome &&
      (e.type = py "m.room.member" || e.type = topologyState)
  | _ => true

/-- A call goes on `n` times. -/
def resumes (n : ℕ) : List Act := List.replicate n (.resume 0)

/-- The event is persisted and handled. -/
def handled (e : Event) : List Act := [.persist e, .handle 0, .handle 0]

/-- **Calls return what is no longer true**, with all events handled before: after the user
has joined a hidden room, and after a room was hidden while an earlier call was collecting. -/
theorem stale_entry_returned :
    (∃ s, Exec step (fun _ a => ofRooms a = true) (start bobsRooms)
        (.call "@bob:h" :: resumes 6 ++ handled joinsStories ++ [.call "@bob:h"]) s ∧
      (∃ a ∈ s.answers, a.clean = true ∧ a.user = py "@bob:h" ∧ a.result = [] ∧
        hiddenRooms a.rooms "@bob:h" = ["!s"]) ∧ ¬Coherent s) ∧
    ∃ s, Exec step (fun _ a => ofRooms a = true) (start bobsRooms)
        (.call "@bob:h" :: resumes 3 ++ handled hidesGroup ++ resumes 3 ++ [.call "@bob:h"]) s ∧
      (∃ a ∈ s.answers, a.clean = true ∧ a.user = py "@bob:h" ∧ a.result = [] ∧
        hiddenRooms a.rooms "@bob:h" = ["!g"]) ∧ ¬Coherent s := by
  have hwrong : ∀ {s : State} {room : RoomId}, (∃ a ∈ s.answers, a.clean = true ∧
      a.user = py "@bob:h" ∧ a.result = [] ∧ hiddenRooms a.rooms "@bob:h" = [room]) →
      ¬Coherent s := by
    rintro s room ⟨a, ha, hclean, huser, hresult, hhidden⟩ hcoherent
    have := hcoherent.answered a ha hclean room
    rw [hresult, huser, hhidden] at this
    simp at this
  constructor
  · obtain ⟨s, hs, ha⟩ := exists_exec_of_runs (f := step) (C := fun _ a => ofRooms a = true)
      (s := start bobsRooms)
      (l := .call "@bob:h" :: resumes 6 ++ handled joinsStories ++ [.call "@bob:h"])
      (p := fun s => ∃ a ∈ s.answers, a.clean = true ∧ a.user = py "@bob:h" ∧ a.result = [] ∧
        hiddenRooms a.rooms "@bob:h" = ["!s"]) (by decide +kernel)
    exact ⟨s, hs, ha, hwrong ha⟩
  · obtain ⟨s, hs, ha⟩ := exists_exec_of_runs (f := step) (C := fun _ a => ofRooms a = true)
      (s := start bobsRooms)
      (l := .call "@bob:h" :: resumes 3 ++ handled hidesGroup ++ resumes 3 ++ [.call "@bob:h"])
      (p := fun s => ∃ a ∈ s.answers, a.clean = true ∧ a.user = py "@bob:h" ∧ a.result = [] ∧
        hiddenRooms a.rooms "@bob:h" = ["!g"]) (by decide +kernel)
    exact ⟨s, hs, ha, hwrong ha⟩

/-- The group is hidden while a call has yet to read its topology, and again between two
calls; the user joins the stories room when he has no entry. -/
theorem timely_events_coherent :
    ∃ s, Exec step (fun s a => Orderly s a = true) (start bobsRooms)
        (.call "@bob:h" :: resumes 1 ++ handled hidesGroup ++ resumes 4 ++ handled hidesGroup ++
          handled joinsStories ++ .call "@bob:h" :: resumes 7) s ∧
      s.answers.map Answer.result = [[py "!g", py "!s"], [py "!g"]] ∧ Coherent s := by
  obtain ⟨s, hs, hanswers⟩ := exists_exec_of_runs (f := step)
    (C := fun s a => Orderly s a = true) (s := start bobsRooms)
    (l := .call "@bob:h" :: resumes 1 ++ handled hidesGroup ++ resumes 4 ++ handled hidesGroup ++
      handled joinsStories ++ .call "@bob:h" :: resumes 7)
    (p := fun s => s.answers.map Answer.result = [[py "!g", py "!s"], [py "!g"]]) (by decide +kernel)
  exact ⟨s, hs, hanswers, lookups_coherent hs⟩

end Lookup
end SyncGate
end Liza
