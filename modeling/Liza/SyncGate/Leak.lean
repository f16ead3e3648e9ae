/-
# Which hidden rooms a closed gate lets through

The gate excludes what `HiddenRoomsLookup` answers: the hidden rooms the user is
joined to, as they were when the answer was cached.  The excluded rooms are taken
out of the joined rooms, and out of the rows of an initial sync.  But the membership
changes of an incremental sync are filtered by the rooms excluded globally only, so an
invite to a hidden room, a knock or a departure is reported; and an initial sync
reports invites, knocks and departures too, since the lookup never answers a room the
user is not joined to.

`Discreet` says of a room, on the answers that the sync gets, that none of this
happens; a sync through a closed gate shows no hidden room exactly when every hidden
room is discreet.
-/

import Liza.SyncGate.Sync

set_option autoImplicit false

namespace Liza
namespace SyncGate

open Lib Synapse

/-! ### The rooms of a response -/

section Rooms

variable {st : Store} {rq : Request} {b : Builder} {room : RoomId} {since : ℕ}

theorem roomResult_roomId {always : Bool} {rtype : RoomType} {res res' : RoomResult}
    (h : roomResult always rtype res = some res') : res'.roomId = res.roomId := by
  unfold roomResult at h
  split at h <;> split at h
  · obtain rfl := Option.some.inj h
    rfl
  · cases h
  · obtain rfl := Option.some.inj h
    rfl
  · cases h

/-- The result for an entry is about the room of the entry. -/
theorem generateRoomEntry_roomId {entry : RoomEntry} {res : RoomResult}
    (h : generateRoomEntry st rq b entry = some res) : res.roomId = entry.roomId := by
  simp only [generateRoomEntry] at h
  split at h
  · cases h
  · split at h
    · cases h
    · exact roomResult_roomId h

/-- The rooms among the results for some entries. -/
theorem mem_results_iff {entries : List RoomEntry} :
    room ∈ (entries.filterMap (generateRoomEntry st rq b)).map RoomResult.roomId ↔
      ∃ entry ∈ entries, entry.roomId = room ∧ generateRoomEntry st rq b entry ≠ none := by
  constructor
  · intro h
    obtain ⟨res, hres, rfl⟩ := List.mem_map.1 h
    obtain ⟨entry, hentry, hgen⟩ := List.mem_filterMap.1 hres
    refine ⟨entry, hentry, (generateRoomEntry_roomId hgen).symm, ?_⟩
    rw [hgen]
    exact Option.some_ne_none _
  · rintro ⟨entry, hentry, rfl, hne⟩
    obtain ⟨res, hgen⟩ := Option.ne_none_iff_exists'.1 hne
    exact List.mem_map.2 ⟨res, List.mem_filterMap.2 ⟨entry, hentry, hgen⟩,
      generateRoomEntry_roomId hgen⟩

/-- What stands in a response: a room with an entry that has anything to report, an
invite or a knock. -/
theorem mem_rooms_iff :
    room ∈ (generateSyncEntryForRooms st rq b).rooms ↔ isNoOp st rq b = false ∧
      ((∃ entry ∈ (roomChanges st rq b).roomEntries, entry.roomId = room ∧
          generateRoomEntry st rq b entry ≠ none) ∨
        (∃ e ∈ (roomChanges st rq b).invited, e.roomId = room) ∨
        ∃ e ∈ (roomChanges st rq b).knocked, e.roomId = room) := by
  unfold generateSyncEntryForRooms
  by_cases hnoop : isNoOp st rq b = true
  · rw [if_pos hnoop, hnoop]
    simp [Response.rooms]
  · rw [if_neg hnoop]
    have hfalse : isNoOp st rq b = false := by simpa using hnoop
    simp only [hfalse, true_and, Response.rooms, List.mem_append, mem_results_iff,
      List.mem_filter, decide_eq_true_eq]
    simp only [List.mem_map]
    constructor
    · rintro (((⟨entry, ⟨hentry, -⟩, h⟩ | h) | h) | ⟨entry, ⟨hentry, -⟩, h⟩)
      · exact .inl ⟨entry, hentry, h⟩
      · exact .inr (.inl h)
      · exact .inr (.inr h)
      · exact .inl ⟨entry, hentry, h⟩
    · rintro (⟨entry, hentry, h⟩ | h | h)
      · cases ht : entry.rtype with
        | joined => exact .inl (.inl (.inl ⟨entry, ⟨hentry, ht⟩, h⟩))
        | archived => exact .inr ⟨entry, ⟨hentry, ht⟩, h⟩
      · exact .inl (.inl (.inr h))
      · exact .inl (.inr h)

theorem changesIn_roomId {e : MemberEvent} (h : e ∈ nonJoins (changesIn b room)) :
    e.roomId = room := by
  have := (List.mem_filter.1 (List.mem_filter.1 h).1).2
  exact of_decide_eq_true this

theorem mem_changedRooms {e : MemberEvent} (h : e ∈ nonJoins (changesIn b room)) :
    room ∈ changedRooms b := by
  have hmem := (List.mem_filter.1 (List.mem_filter.1 h).1).1
  rw [changedRooms, List.mem_eraseDups]
  exact List.mem_map.2 ⟨e, hmem, changesIn_roomId h⟩

theorem reportedInvite_mem {events : List MemberEvent} {e : MemberEvent}
    (h : reportedInvite st events = some e) : e ∈ nonJoins events :=
  List.mem_of_getLast? (Option.filter_eq_some_iff.1 h).1

theorem reportedKnock_mem {events : List MemberEvent} {e : MemberEvent}
    (h : reportedKnock events = some e) : e ∈ nonJoins events :=
  List.mem_of_getLast? (Option.filter_eq_some_iff.1 h).1

theorem reportedLeave_mem {events : List MemberEvent} {e : MemberEvent}
    (h : reportedLeave since events = some e) : e ∈ nonJoins events :=
  (List.mem_filter.1 (List.mem_of_getLast? (Option.filter_eq_some_iff.1 h).1)).1

theorem joinedEntry_roomId : (joinedEntry st b since room).roomId = room := by
  unfold joinedEntry
  simp only
  split <;> rfl

/-- The membership changes of a room that an incremental sync reports. -/
def reportsChange (st : Store) (rq : Request) (b : Builder) (since : ℕ)
    (events : List MemberEvent) : Prop :=
  reportedInvite st events ≠ none ∨ reportedKnock events ≠ none ∨
    ∃ e, reportedLeave since events = some e ∧
      generateRoomEntry st rq b (leftEntry st b since e) ≠ none

/-- **What an incremental sync reports:** the joined rooms that have anything to
report, and of the other rooms the invites, knocks and departures. -/
theorem mem_rooms_incremental (hs : rq.since = some since) :
    room ∈ (generateSyncEntryForRooms st rq b).rooms ↔ isNoOp st rq b = false ∧
      (room ∈ b.joinedRoomIds ∧
          generateRoomEntry st rq b (joinedEntry st b since room) ≠ none ∨
        room ∉ b.joinedRoomIds ∧ reportsChange st rq b since (changesIn b room)) := by
  rw [mem_rooms_iff]
  have hch : roomChanges st rq b = roomChangesForIncrementalSync st b since := by
    rw [roomChanges, hs]
  rw [hch]
  simp only [roomChangesForIncrementalSync, List.mem_append, List.mem_filterMap, List.mem_map]
  refine and_congr_right fun _ => ?_
  constructor
  · rintro (⟨entry, (⟨_, ⟨r, hr, rfl⟩, hentry⟩ | ⟨r, hr, rfl⟩), hroom, hgen⟩ |
      ⟨e, ⟨_, ⟨r, hr, rfl⟩, he⟩, hroom⟩ | ⟨e, ⟨_, ⟨r, hr, rfl⟩, he⟩, hroom⟩)
    · simp only [roomChange] at hentry
      split at hentry
      · cases hentry
      · rename_i hjoined
        obtain ⟨e, he, rfl⟩ := Option.map_eq_some_iff.1 hentry
        have hre : e.roomId = r := changesIn_roomId (reportedLeave_mem he)
        have hrr : e.roomId = room := hroom
        obtain rfl : r = room := hre.symm.trans hrr
        exact .inr ⟨hjoined, .inr (.inr ⟨e, he, hgen⟩)⟩
    · rw [joinedEntry_roomId] at hroom
      subst hroom
      exact .inl ⟨hr, hgen⟩
    · simp only [roomChange] at he
      split at he
      · cases he
      · rename_i hjoined
        have hre : e.roomId = r := changesIn_roomId (reportedInvite_mem he)
        obtain rfl : r = room := hre.symm.trans hroom
        refine .inr ⟨hjoined, .inl ?_⟩
        rw [he]
        exact Option.some_ne_none _
    · simp only [roomChange] at he
      split at he
      · cases he
      · rename_i hjoined
        have hre : e.roomId = r := changesIn_roomId (reportedKnock_mem he)
        obtain rfl : r = room := hre.symm.trans hroom
        refine .inr ⟨hjoined, .inr (.inl ?_)⟩
        rw [he]
        exact Option.some_ne_none _
  · rintro (⟨hjoined, hgen⟩ | ⟨hjoined, hrep⟩)
    · exact .inl ⟨_, .inr ⟨room, hjoined, rfl⟩, joinedEntry_roomId, hgen⟩
    · rcases hrep with hrep | hrep | ⟨e, he, hgen⟩
      · obtain ⟨e, he⟩ := Option.ne_none_iff_exists'.1 hrep
        have hmem := reportedInvite_mem he
        refine .inr (.inl ⟨e, ⟨_, ⟨room, mem_changedRooms hmem, rfl⟩, ?_⟩, changesIn_roomId hmem⟩)
        simp only [roomChange, if_neg hjoined, he]
      · obtain ⟨e, he⟩ := Option.ne_none_iff_exists'.1 hrep
        have hmem := reportedKnock_mem he
        refine .inr (.inr ⟨e, ⟨_, ⟨room, mem_changedRooms hmem, rfl⟩, ?_⟩, changesIn_roomId hmem⟩)
        simp only [roomChange, if_neg hjoined, he]
      · have hmem := reportedLeave_mem he
        refine .inl ⟨_, .inl ⟨_, ⟨room, mem_changedRooms hmem, rfl⟩, ?_⟩, changesIn_roomId hmem,
          hgen⟩
        simp only [roomChange, if_neg hjoined, he, Option.map_some]

/-- A row that an initial sync reports. -/
def reportsRow (st : Store) (rq : Request) (b : Builder) (row : RoomsForUser) : Prop :=
  (∃ entry, rowEntry st rq row = some entry ∧ generateRoomEntry st rq b entry ≠ none) ∨
    rowInvite st row ≠ none ∨ rowKnock row ≠ none

theorem rowEntry_roomId {row : RoomsForUser} {entry : RoomEntry}
    (h : rowEntry st rq row = some entry) : entry.roomId = row.roomId := by
  unfold rowEntry at h
  split at h
  · obtain rfl := Option.some.inj h
    rfl
  · split at h
    · cases h
    · obtain rfl := Option.some.inj h
      rfl
  · obtain rfl := Option.some.inj h
    rfl
  · cases h

theorem rowInvite_roomId {row : RoomsForUser} {e : MemberEvent} (h : rowInvite st row = some e) :
    e.roomId = row.roomId := by
  unfold rowInvite at h
  split at h
  · obtain rfl := Option.some.inj h
    rfl
  · cases h

theorem rowKnock_roomId {row : RoomsForUser} {e : MemberEvent} (h : rowKnock row = some e) :
    e.roomId = row.roomId := by
  unfold rowKnock at h
  split at h
  · obtain rfl := Option.some.inj h
    rfl
  · cases h

/-- **What an initial sync reports:** the rows of the rooms that are not excluded. -/
theorem mem_rooms_initial (hs : rq.since = none) :
    room ∈ (generateSyncEntryForRooms st rq b).rooms ↔ isNoOp st rq b = false ∧
      ∃ row ∈ roomList st b, row.roomId = room ∧ reportsRow st rq b row := by
  rw [mem_rooms_iff]
  have hch : roomChanges st rq b = roomChangesForInitialSync st rq b := by
    rw [roomChanges, hs]
  rw [hch]
  simp only [roomChangesForInitialSync, List.mem_filterMap]
  refine and_congr_right fun _ => ?_
  constructor
  · rintro (⟨entry, ⟨row, hrow, hentry⟩, hroom, hgen⟩ | ⟨e, ⟨row, hrow, he⟩, hroom⟩ |
      ⟨e, ⟨row, hrow, he⟩, hroom⟩)
    · exact ⟨row, hrow, (rowEntry_roomId hentry).symm.trans hroom, .inl ⟨entry, hentry, hgen⟩⟩
    · refine ⟨row, hrow, (rowInvite_roomId he).symm.trans hroom, .inr (.inl ?_)⟩
      rw [he]
      exact Option.some_ne_none _
    · refine ⟨row, hrow, (rowKnock_roomId he).symm.trans hroom, .inr (.inr ?_)⟩
      rw [he]
      exact Option.some_ne_none _
  · rintro ⟨row, hrow, hroom, ⟨entry, hentry, hgen⟩ | hne | hne⟩
    · exact .inl ⟨entry, ⟨row, hrow, hentry⟩, (rowEntry_roomId hentry).trans hroom, hgen⟩
    · obtain ⟨e, he⟩ := Option.ne_none_iff_exists'.1 hne
      exact .inr (.inl ⟨e, ⟨row, hrow, he⟩, (rowInvite_roomId he).trans hroom⟩)
    · obtain ⟨e, he⟩ := Option.ne_none_iff_exists'.1 hne
      exact .inr (.inr ⟨e, ⟨row, hrow, he⟩, (rowKnock_roomId he).trans hroom⟩)

end Rooms

/-! ### What the gate adds -/

/-- The answer of `HiddenRoomsLookup` for a user. -/
def lookedUp (w : World) (user : UserId) : List RoomId :=
  (getHiddenRoomIdsForUser w.rooms w.hidden user).2

/-- The rooms that a marker of the device forces to be newly joined. -/
def forcedBy (w : World) (rq : Request) : List RoomId :=
  match rq.config.deviceId, rq.since with
  | some device, some _ => if w.forced device then lookedUp w rq.config.user else []
  | _, _ => []

/-- The device of a sync has not passed the gate. -/
def NotPassed (cfg : Config) (env : Env) (w : World) (rq : Request) : Prop :=
  ∀ device, rq.config.deviceId = some device → w.passedGate cfg env device = some false

section Gate

variable {cfg : Config} {env : Env} {w w' : World} {st : Store} {rq : Request}

/-- An await that is not about the tables leaves the rooms, the cache and the markers. -/
theorem eval_devicePassedGate (device : DeviceId) :
    ((devicePassedGate cfg device).eval (perform cfg env) w).1.rooms = w.rooms ∧
      ((devicePassedGate cfg device).eval (perform cfg env) w).1.hidden = w.hidden ∧
      ((devicePassedGate cfg device).eval (perform cfg env) w).1.forced = w.forced := by
  unfold devicePassedGate
  split
  · exact ⟨rfl, rfl, rfl⟩
  · by_cases hraises : env.raises = true
    · simp [Task.call, Task.eval, perform, hraises]
    · simp only [Task.call, Task.await_bind, Task.eval, perform, hraises, complete,
        Bool.false_eq_true, if_false]
      cases getCapability w.capabilities device with
      | none => exact ⟨rfl, rfl, rfl⟩
      | some row =>
          simp only [Task.ret_bind, Task.eval, perform, hraises, complete, Bool.false_eq_true,
            if_false]
          cases (getMinBuild (cfg.baseUrl.getD []) cfg.ttlSeconds env w.thresholds row.1).2 with
          | none => exact ⟨rfl, rfl, rfl⟩
          | some threshold =>
              simp only [Task.ret_bind]
              split
              · exact ⟨rfl, rfl, rfl⟩
              · split <;> exact ⟨rfl, rfl, rfl⟩

/-- A second lookup gives the answer of the first. -/
theorem lookedUp_again (rooms : Rooms) (cache : HiddenCache) (user : UserId) :
    (getHiddenRoomIdsForUser rooms (getHiddenRoomIdsForUser rooms cache user).1 user).2 =
      (getHiddenRoomIdsForUser rooms cache user).2 := by
  cases h : cache user with
  | none => simp [getHiddenRoomIdsForUser, h]
  | some cached => simp [getHiddenRoomIdsForUser, h]

/-- A lookup that does not raise. -/
theorem eval_lookup (user : UserId) :
    Task.eval (perform cfg env) w (call (.getHiddenRoomIdsForUser user) : Code (List RoomId)) =
      if env.raises then (w, none)
      else ({ w with hidden := (getHiddenRoomIdsForUser w.rooms w.hidden user).1 },
        some (lookedUp w user)) := by
  by_cases h : env.raises = true
  · simp [Task.call, Task.eval, perform, h]
  · simp [Task.call, Task.eval, perform, h, complete, lookedUp]

theorem eval_excludedHidden (hon : cfg.enabled = true) {user : UserId} {device : Option DeviceId}
    (h : (passedGate cfg device).eval (perform cfg env) w = (w', some false)) :
    (excludedHidden cfg user device).eval (perform cfg env) w =
      if env.raises then (w', none)
      else ({ w' with hidden := (getHiddenRoomIdsForUser w'.rooms w'.hidden user).1 },
        some (lookedUp w' user)) := by
  rw [excludedHidden, if_pos hon, Task.eval_bind, h]
  exact eval_lookup user

/-- The marker of the device is consulted, and then the lookup. -/
theorem eval_forcedNewlyJoined (hon : cfg.enabled = true) (hraises : env.raises = false)
    (rq : Request) :
    ((forcedNewlyJoined cfg rq.config.user rq.config.deviceId rq.since.isSome).eval
      (perform cfg env) w).2 = some (forcedBy w rq) := by
  unfold forcedNewlyJoined forcedBy
  rw [hon]
  cases rq.config.deviceId with
  | none => rfl
  | some device =>
      cases rq.since with
      | none => rfl
      | some since =>
          change Prod.snd (Task.eval (perform cfg env) w
            (call (.consume device) >>= fun consumed =>
              if consumed then call (.getHiddenRoomIdsForUser rq.config.user) else .ret [])) =
            some (if w.forced device then lookedUp w rq.config.user else [])
          rw [Task.eval_bind]
          have hconsume : Task.eval (perform cfg env) w (call (.consume device)) =
              ({ w with forced := (consume w.forced device).1 }, some (w.forced device)) := by
            simp [Task.call, Task.eval, perform, hraises, complete, consume]
          rw [hconsume]
          cases hm : w.forced device with
          | false => rfl
          | true =>
              change Prod.snd (Task.eval (perform cfg env) _
                (call (.getHiddenRoomIdsForUser rq.config.user) : Code (List RoomId))) = _
              rw [eval_lookup, hraises]
              rfl

/-- **A closed gate excludes what the lookup answers, and forces it where the device has
a marker.** -/
theorem closed_gate (hon : cfg.enabled = true) (hgate : NotPassed cfg env w rq)
    {hidden forced : List RoomId}
    (h : ((syncGate cfg rq.config.user rq.config.deviceId rq.since.isSome).eval
      (perform cfg env) w).2 = some (hidden, forced)) :
    hidden = lookedUp w rq.config.user ∧ forced = forcedBy w rq := by
  -- the world after the gate was asked, and its answer
  have hpassed : ∃ w', (passedGate cfg rq.config.deviceId).eval (perform cfg env) w =
      (w', some false) ∧ w'.rooms = w.rooms ∧ w'.hidden = w.hidden ∧ w'.forced = w.forced := by
    cases hd : rq.config.deviceId with
    | none => exact ⟨w, rfl, rfl, rfl, rfl⟩
    | some device => exact ⟨_, Prod.ext rfl (hgate device hd), eval_devicePassedGate device⟩
  obtain ⟨w', heval, hrooms, hhidden, hforced⟩ := hpassed
  have hlook : lookedUp w' rq.config.user = lookedUp w rq.config.user := by
    rw [lookedUp, lookedUp, hrooms, hhidden]
  rw [syncGate, Task.eval_bind, eval_excludedHidden hon heval] at h
  cases hraises : env.raises with
  | true =>
      rw [hraises] at h
      cases h
  | false =>
      rw [hraises] at h
      -- the world after the first lookup
      generalize hw'' : ({ w' with
        hidden := (getHiddenRoomIdsForUser w'.rooms w'.hidden rq.config.user).1 } : World) = w'' at h
      have hlook' : lookedUp w'' rq.config.user = lookedUp w rq.config.user := by
        rw [← hw'', ← hlook]
        exact lookedUp_again _ _ _
      have hforced' : forcedBy w'' rq = forcedBy w rq := by
        unfold forcedBy
        rw [hlook', ← hforced, ← hw'']
      change ((forcedNewlyJoined cfg rq.config.user rq.config.deviceId rq.since.isSome >>=
        fun forced => .ret (lookedUp w' rq.config.user, forced)).eval (perform cfg env) w'').2 = _ at h
      rw [Task.eval_bind] at h
      have hrest := eval_forcedNewlyJoined (w := w'') hon hraises rq
      generalize (forcedNewlyJoined cfg rq.config.user rq.config.deviceId rq.since.isSome).eval
        (perform cfg env) w'' = p at h hrest
      obtain ⟨w₃, forced'⟩ := p
      obtain rfl : forced' = some (forcedBy w'' rq) := hrest
      obtain ⟨h₁, h₂⟩ := Prod.mk.inj (Option.some.inj h)
      exact ⟨h₁.symm.trans hlook, h₂.symm.trans hforced'⟩

end Gate

/-! ### When the hidden rooms stay hidden -/

section Discreet

variable (w : World) (st : Store) (rq : Request) (room : RoomId)

/-- The builder of a sync through a closed gate. -/
def gatedBuilder : Builder :=
  getSyncResultBuilder st rq (lookedUp w rq.config.user) (forcedBy w rq)

/-- The room is withheld from the joined rooms and from the rows: it is excluded for
everybody, partially stated, or in the answer of the lookup. -/
def Withheld : Prop :=
  room ∈ st.roomsToExcludeGlobally ∨ room ∈ partialRooms st rq ∨
    room ∈ lookedUp w rq.config.user

/-- Nothing of the room is reported.  Without a since token: it is withheld or
forgotten, or no membership of the user in it has anything to report.  With one: where
the user is joined to it, it is withheld or has nothing to report, and where it is not
among the joined rooms (because it is withheld, too) the period holds no invite, knock
or departure of the user that is reported, unless the membership changes themselves
are left out. -/
def Discreet : Prop :=
  match rq.since with
  | none => Withheld w st rq room ∨ room ∈ st.forgottenRooms ∨
      ∀ row ∈ st.roomsWhereMembershipIs, row.roomId = room → row.knownRoomVersion = true →
        ¬reportsRow st rq (gatedBuilder w st rq) row
  | some since =>
      (room ∈ joinedRooms st rq → Withheld w st rq room ∨
        generateRoomEntry st rq (gatedBuilder w st rq)
          (joinedEntry st (gatedBuilder w st rq) since room) = none) ∧
      (room ∉ joinedRooms st rq ∨ Withheld w st rq room →
        room ∈ st.roomsToExcludeGlobally ∨ room ∈ partialRooms st rq ∨
          ¬reportsChange st rq (gatedBuilder w st rq) since
            (st.membershipChanges.filter fun e => e.roomId = room))

end Discreet

section Main

variable {cfg : Config} {env : Env} {w : World} {st : Store} {rq : Request} {room : RoomId}
  {since : ℕ} {r : Response}

theorem mem_excluded_iff :
    room ∈ (gatedBuilder w st rq).excludedRoomIds ↔ Withheld w st rq room := by
  simp only [gatedBuilder, getSyncResultBuilder, List.mem_append, Withheld, or_assoc]

theorem mem_joined_iff :
    room ∈ (gatedBuilder w st rq).joinedRoomIds ↔
      room ∈ joinedRooms st rq ∧ ¬Withheld w st rq room := by
  rw [← mem_excluded_iff]
  simp [gatedBuilder, getSyncResultBuilder]

/-- The membership changes of a room that the incremental sync goes through. -/
theorem changesIn_gated (hs : rq.since = some since) :
    changesIn (gatedBuilder w st rq) room =
      if room ∈ st.roomsToExcludeGlobally ∨ room ∈ partialRooms st rq then []
      else st.membershipChanges.filter fun e => e.roomId = room := by
  have hchanges : changesIn (gatedBuilder w st rq) room =
      st.membershipChanges.filter fun e => e.roomId = room ∧
        e.roomId ∉ partialRooms st rq ∧ e.roomId ∉ st.roomsToExcludeGlobally := by
    simp only [changesIn, gatedBuilder, getSyncResultBuilder, changes, hs, List.filter_filter]
    refine List.filter_congr fun e _ => ?_
    simp
  rw [hchanges]
  split
  · rename_i hout
    rw [List.filter_eq_nil_iff]
    intro e _ he
    obtain ⟨rfl, hpartial, hglobal⟩ := of_decide_eq_true he
    exact hout.elim hglobal hpartial
  · rename_i hin
    refine List.filter_congr fun e _ => ?_
    by_cases he : e.roomId = room
    · subst he
      simpa [not_or, and_comm] using hin
    · simp [he]

/-- No change is reported where there are no events. -/
theorem not_reportsChange_nil {b : Builder} : ¬reportsChange st rq b since [] := by
  rintro (h | h | ⟨e, h, -⟩)
  · exact h rfl
  · exact h rfl
  · cases h

/-- **A room stands in no section exactly when nothing of it is reported.** -/
theorem not_mem_rooms_iff (hnoop : isNoOp st rq (gatedBuilder w st rq) = false) :
    room ∉ (generateSyncEntryForRooms st rq (gatedBuilder w st rq)).rooms ↔
      Discreet w st rq room := by
  unfold Discreet
  cases hs : rq.since with
  | none =>
      rw [mem_rooms_initial hs]
      simp only [hnoop, true_and, not_exists, not_and, roomList, List.mem_filter, mem_excluded_iff,
        decide_eq_true_eq]
      constructor
      · intro h
        by_cases hw : Withheld w st rq room
        · exact .inl hw
        · by_cases hf : room ∈ st.forgottenRooms
          · exact .inr (.inl hf)
          · refine .inr (.inr fun row hrow hroom hknown => h row ⟨⟨hrow, ?_⟩, hknown⟩ hroom)
            rw [hroom]
            exact ⟨hf, hw⟩
      · rintro h row ⟨⟨hrow, hforgotten, hwithheld⟩, hknown⟩ rfl
        rcases h with h | h | h
        · exact absurd h hwithheld
        · exact absurd h hforgotten
        · exact h row hrow rfl hknown
  | some since =>
      rw [mem_rooms_incremental hs]
      simp only [hnoop, true_and, not_or, not_and, mem_joined_iff, changesIn_gated hs]
      refine and_congr ?_ ?_
      · constructor
        · intro h hjoined
          by_cases hw : Withheld w st rq room
          · exact .inl hw
          · exact .inr (not_not.1 (h ⟨hjoined, hw⟩))
        · rintro h ⟨hjoined, hw⟩
          exact not_not.2 ((h hjoined).resolve_left hw)
      · have hcond : (room ∈ joinedRooms st rq → ¬¬Withheld w st rq room) ↔
            (room ∉ joinedRooms st rq ∨ Withheld w st rq room) := by
          rw [not_not, ← imp_iff_not_or]
        rw [hcond]
        refine imp_congr_right fun _ => ?_
        by_cases hout : room ∈ st.roomsToExcludeGlobally ∨ room ∈ partialRooms st rq
        · rw [if_pos hout]
          refine iff_of_true not_reportsChange_nil ?_
          rw [← or_assoc]
          exact .inl hout
        · rw [if_neg hout, ← or_assoc]
          exact ⟨fun h => .inr h, fun h => h.resolve_left hout⟩

/-- **A sync through a closed gate shows no hidden room exactly when every hidden room is
discreet:** unless the sync has no rooms part or nothing has happened, every room that is
hidden by its current state is kept back by the exclusions, and where these do not reach
(invites, knocks, departures) there is nothing to report of it. -/
theorem closed_gate_hides_iff (hon : cfg.enabled = true) (hgate : NotPassed cfg env w rq)
    (hr : generateSyncResult cfg env w st rq = some r) :
    (∀ room, isHidden w.rooms room = true → room ∉ r.rooms) ↔
      (wantsRooms rq = true → isNoOp st rq (gatedBuilder w st rq) = false →
        ∀ room, isHidden w.rooms room = true → Discreet w st rq room) := by
  unfold generateSyncResult at hr
  split at hr
  · cases hr
  · rename_i hidden forced hsync
    obtain ⟨rfl, rfl⟩ := closed_gate hon hgate hsync
    obtain rfl := Option.some.inj hr
    by_cases hwants : wantsRooms rq = true
    · rw [if_pos hwants]
      cases hnoop : isNoOp st rq (gatedBuilder w st rq) with
      | true =>
          refine iff_of_true (fun room _ hmem => ?_) fun _ h => (Bool.noConfusion h)
          have := (mem_rooms_iff.1 hmem).1
          rw [show getSyncResultBuilder st rq (lookedUp w rq.config.user) (forcedBy w rq) =
            gatedBuilder w st rq from rfl, hnoop] at this
          cases this
      | false =>
          constructor
          · intro h _ _ room hroom
            exact (not_mem_rooms_iff hnoop).1 (h room hroom)
          · intro h room hroom
            exact (not_mem_rooms_iff hnoop).2 (h hwants rfl room hroom)
    · rw [if_neg hwants]
      refine iff_of_true (fun room _ hmem => ?_) fun h => absurd h hwants
      simp [Response.rooms] at hmem

end Main

/-! ### A hidden room that is shown -/

/-- The gate is on. -/
def gateOn : Config := ⟨true, some "https://gate", 300, fun _ _ => false⟩

/-- A moment at which the version gate does not answer. -/
def silentMoment : Env := ⟨0, fun _ => .null, false⟩

/-- A stories room, hidden by its creation content, and what a user is in it. -/
def storiesRooms (membership : Membership) : Rooms where
  ids := ["!s"]
  state := fun room type _ => if room = py "!s" ∧ type = py "m.room.create" then
    some ⟨"@ann:h", [("com.liza.stories", .bool true)]⟩ else none
  members := fun _ => [("@bob:h", membership)]

/-- The rooms are those, and no device has told its build. -/
def storiesWorld (membership : Membership) (cached : Option (List RoomId)) : World where
  devices := [("@bob:h", "D")]
  capabilities := fun _ => none
  forced := fun _ => false
  thresholds := ⟨fun _ => .null, fun _ => none⟩
  rooms := storiesRooms membership
  hidden := fun _ => cached

/-- A database in which nothing has happened, with the rooms and the membership changes
of the user, and an event in every joined room. -/
def storiesStore (rooms : List RoomId) (changes : List MemberEvent) : Store where
  roomsToExcludeGlobally := []
  tokenBeforeRooms := 10
  now := 10
  roomsForUser := rooms
  membershipChanges := changes
  usersInRoom := fun _ => []
  isPartialStateRoom := fun _ => false
  unPartialStatedRooms := []
  roomsWhereMembershipIs := []
  forgottenRooms := []
  oldMembership := fun _ => none
  ignoredUsers := []
  ignoresInvitesOf := fun _ => false
  roomEvents := fun _ => some (["$1"], 9)
  hasRoomChangedSince := fun _ => true
  ephemeral := []
  sticky := []
  updatedRoomAccountData := []
  roomAccountData := []
  updatedTags := []
  tagsForUser := []
  tagsForRoom := fun _ => []
  recents := fun _ => ["$1"]
  stateDelta := fun _ _ _ => []
  visibleSticky := fun _ => []

/-- An incremental sync of `@bob:h` from the device `D`. -/
def bobSyncs : Request where
  config := ⟨"@bob:h", some "D", true, false, false, false, false, fun _ => true, fun _ => true⟩
  since := some 5
  fullState := false
  includePresenceData := false
  includeDeviceListUpdates := false

/-- An invite of `@bob:h` to the stories room. -/
def storiesInvite : MemberEvent := ⟨"$0", "!s", "@ann:h", .invite, 6, false⟩

theorem bob_notPassed (membership : Membership) (cached : Option (List RoomId)) :
    NotPassed gateOn silentMoment (storiesWorld membership cached) bobSyncs := by
  intro device _
  rfl

/-- **A device that has not passed the gate is shown hidden rooms:** an invite to a stories
room stands in the invite section; and a stories room that the user joined after the
answer of the lookup was cached stands in the join section. -/
theorem hidden_rooms_shown :
    (NotPassed gateOn silentMoment (storiesWorld .invite none) bobSyncs ∧
      isHidden (storiesRooms .invite) "!s" = true ∧
      ∃ r, generateSyncResult gateOn silentMoment (storiesWorld .invite none)
        (storiesStore [] [storiesInvite]) bobSyncs = some r ∧ r.invited = [storiesInvite]) ∧
    NotPassed gateOn silentMoment (storiesWorld .join (some [])) bobSyncs ∧
      isHidden (storiesRooms .join) "!s" = true ∧
      ∃ r, generateSyncResult gateOn silentMoment (storiesWorld .join (some []))
        (storiesStore ["!s"] []) bobSyncs = some r ∧
        r.joined.map RoomResult.roomId = [py "!s"] :=
  ⟨⟨bob_notPassed _ _, by decide, _, rfl, by decide⟩,
    bob_notPassed _ _, by decide, _, rfl, by decide⟩

theorem eq_stories_of_hidden {membership : Membership} {room : RoomId}
    (h : isHidden (storiesRooms membership) room = true) : room = py "!s" := by
  by_contra hne
  simp [isHidden, storiesRooms, hne] at h

/-- Nothing is shown where the user is joined to the stories room only, and the lookup is
not answered from an older cache entry. -/
theorem stories_hidden_from_bob :
    ∃ r, generateSyncResult gateOn silentMoment (storiesWorld .join none)
        (storiesStore ["!s"] []) bobSyncs = some r ∧
      ∀ room, isHidden (storiesRooms .join) room = true → room ∉ r.rooms := by
  refine ⟨_, rfl, ?_⟩
  have hgate := bob_notPassed .join none
  refine (closed_gate_hides_iff rfl hgate rfl).2 ?_
  intro _ _ room hroom
  obtain rfl := eq_stories_of_hidden hroom
  refine ⟨fun _ => .inl (.inr (.inr (by decide))), fun _ => .inr (.inr ?_)⟩
  exact not_reportsChange_nil

end SyncGate
end Liza
