/-
# The rooms of a sync response

`SyncHandler` of `servers/synapse/src/synapse/handlers/sync.py`, as far as it
decides which rooms stand in a response: `get_sync_result_builder`,
`_generate_sync_entry_for_rooms`, the two ways to find the room changes (with and
without a since token) and `_generate_room_entry`.

A sync runs at one moment.  What the database and the other handlers answer to its
questions is `Store`; a question whose answer depends on a room entry is a function
of it.  Positions in the event stream are natural numbers, and of a token only its
room position is kept.  The unread counts and the summary of a room are left out:
whether a room is reported does not depend on them.
-/

import Liza.SyncGate.Module

set_option autoImplicit false

namespace Liza
namespace SyncGate

open Lib Synapse

/-- A membership event of the user. -/
structure MemberEvent where
  eventId : EventId
  roomId : RoomId
  sender : UserId
  membership : Membership
  streamOrdering : ℕ
  outOfBand : Bool
deriving DecidableEq

/-- `RoomsForUser`: the current membership of the user in a room. -/
structure RoomsForUser where
  roomId : RoomId
  sender : UserId
  membership : Membership
  eventId : EventId
  eventPos : ℕ
  knownRoomVersion : Bool
deriving DecidableEq

/-- `SyncConfig`, with what is asked of its filter collection. -/
structure SyncConfig where
  user : UserId
  deviceId : Option DeviceId
  lazyLoadMembers : Bool
  includeLeave : Bool
  blocksAllRooms : Bool
  blocksAllRoomAccountData : Bool
  blocksAllRoomEphemeral : Bool
  keepsRoomAccountData : PyStr → Bool
  keepsRoomEphemeral : Json → Bool

/-- A sync request; the last two say whether presence and device list updates are
part of it. -/
structure Request where
  config : SyncConfig
  since : Option ℕ
  fullState : Bool
  includePresenceData : Bool
  includeDeviceListUpdates : Bool

/-- `rtype` of a `RoomSyncResultBuilder`. -/
inductive RoomType where
  | joined
  | archived
deriving DecidableEq

/-- `RoomSyncResultBuilder`. -/
structure RoomEntry where
  roomId : RoomId
  rtype : RoomType
  events : Option (List EventId)
  newlyJoined : Bool
  fullState : Bool
  since : Option ℕ
  upto : ℕ
  end_ : ℕ
  outOfBand : Bool
deriving DecidableEq

/-- The answers to the questions of one sync. -/
structure Store where
  roomsToExcludeGlobally : List RoomId
  /-- The token taken before the rooms of the user are read. -/
  tokenBeforeRooms : ℕ
  now : ℕ
  /-- `get_rooms_for_user`. -/
  roomsForUser : List RoomId
  /-- The membership events of the user between the since token and now. -/
  membershipChanges : List MemberEvent
  usersInRoom : RoomId → List UserId
  isPartialStateRoom : RoomId → Bool
  unPartialStatedRooms : List RoomId
  /-- All memberships of the user, as the initial sync reads them. -/
  roomsWhereMembershipIs : List RoomsForUser
  forgottenRooms : List RoomId
  /-- The membership of the user at the since token. -/
  oldMembership : RoomId → Option Membership
  ignoredUsers : List UserId
  ignoresInvitesOf : UserId → Bool
  /-- The new events of a room, and where they start. -/
  roomEvents : RoomId → Option (List EventId × ℕ)
  hasRoomChangedSince : RoomId → Bool
  /-- Typing notifications and receipts of the period, in all rooms. -/
  ephemeral : List (RoomId × Json)
  sticky : List (RoomId × EventId)
  updatedRoomAccountData : List (RoomId × Dict)
  roomAccountData : List (RoomId × Dict)
  updatedTags : List (RoomId × Dict)
  tagsForUser : List (RoomId × Dict)
  tagsForRoom : RoomId → Dict
  /-- `_load_filtered_recents`. -/
  recents : RoomEntry → List EventId
  /-- `compute_state_delta`, for the timeline and the flag for the full state. -/
  stateDelta : RoomEntry → List EventId → Bool → List EventId
  /-- The sticky events that the user may see. -/
  visibleSticky : List EventId → List EventId

/-- `SyncResultBuilder`, before any section is filled. -/
structure Builder where
  joinedRoomIds : List RoomId
  excludedRoomIds : List RoomId
  forcedNewlyJoinedRoomIds : List RoomId
  membershipChangeEvents : List MemberEvent

/-- `JoinedSyncResult` and `ArchivedSyncResult`; the latter has no ephemeral and no
sticky events. -/
structure RoomResult where
  roomId : RoomId
  timeline : List EventId
  state : List EventId
  ephemeral : List Json
  accountData : List (PyStr × Json)
  sticky : List EventId
deriving DecidableEq

/-- `SyncResult`: its room sections. -/
structure Response where
  joined : List RoomResult
  invited : List MemberEvent
  knocked : List MemberEvent
  archived : List RoomResult

/-- The rooms that stand in a response. -/
def Response.rooms (r : Response) : List RoomId :=
  r.joined.map RoomResult.roomId ++ r.invited.map MemberEvent.roomId ++
    r.knocked.map MemberEvent.roomId ++ r.archived.map RoomResult.roomId

section Builder

variable (st : Store) (rq : Request)

/-- `get_membership_changes_for_user`, which is asked with a since token only. -/
def changes : List MemberEvent :=
  match rq.since with
  | none => []
  | some _ => st.membershipChanges.filter fun e => e.roomId ∉ st.roomsToExcludeGlobally

/-- `last_membership_change_by_room_id[room_id]`, where it came after the rooms of the
user were read. -/
def lateChange (room : RoomId) : Option MemberEvent :=
  (((changes st rq).filter fun e => e.roomId = room).getLast?).filter
    fun e => st.tokenBeforeRooms ≤ e.streamOrdering

/-- `mutable_joined_room_ids`, after the loop over the late changes: a late leave takes
a room out, a late join brings one in where the user is still in the room. -/
def joinedRooms : List RoomId :=
  st.roomsForUser.filter (fun room => (lateChange st rq room).all fun e => e.membership = .join) ++
    ((changes st rq).map MemberEvent.roomId).eraseDups.filter fun room =>
      room ∉ st.roomsForUser ∧ rq.config.user ∈ st.usersInRoom room ∧
        (lateChange st rq room).any fun e => e.membership = .join

/-- The partially stated rooms that an eager sync leaves out. -/
def partialRooms : List RoomId :=
  if rq.config.lazyLoadMembers then [] else (joinedRooms st rq).filter st.isPartialStateRoom

/-- `forced_newly_joined_room_ids`, before the marker of the device is consulted. -/
def unPartialStated : List RoomId :=
  if rq.since.isSome ∧ ¬rq.config.lazyLoadMembers then
    (st.unPartialStatedRooms.filter fun room => room ∈ joinedRooms st rq).filter
      fun room => ¬st.isPartialStateRoom room
  else []

/-- `get_sync_result_builder`, with the rooms that the gate excludes and forces. -/
def getSyncResultBuilder (hidden forced : List RoomId) : Builder :=
  let excluded := st.roomsToExcludeGlobally ++ partialRooms st rq ++ hidden
  { joinedRoomIds := (joinedRooms st rq).filter fun room => room ∉ excluded
    excludedRoomIds := excluded
    forcedNewlyJoinedRoomIds := unPartialStated st rq ++ forced
    membershipChangeEvents := (changes st rq).filter fun e => e.roomId ∉ partialRooms st rq }

end Builder

/-! ### The room changes of an incremental sync -/

/-- What the loop over the membership changes adds for one room. -/
structure RoomChange where
  invited : Option MemberEvent
  knocked : Option MemberEvent
  archived : Option RoomEntry

/-- The membership events other than joins. -/
def nonJoins (events : List MemberEvent) : List MemberEvent :=
  events.filter fun e => e.membership ≠ .join

/-- The invite that is reported for the events of a room: the last one that is not a
join. -/
def reportedInvite (st : Store) (events : List MemberEvent) : Option MemberEvent :=
  ((nonJoins events).getLast?).filter fun e =>
    e.membership = .invite ∧ e.sender ∉ st.ignoredUsers ∧ ¬st.ignoresInvitesOf e.sender

/-- The knock that is reported. -/
def reportedKnock (events : List MemberEvent) : Option MemberEvent :=
  ((nonJoins events).getLast?).filter fun e => e.membership = .knock

/-- The last leave or ban, where it came after the since token. -/
def reportedLeave (since : ℕ) (events : List MemberEvent) : Option MemberEvent :=
  (((nonJoins events).filter fun e => e.membership = .leave ∨ e.membership = .ban).getLast?).filter
    fun e => since < e.streamOrdering

section Changes

variable (st : Store) (rq : Request) (b : Builder)

/-- `mem_change_events_by_room_id[room_id]`. -/
def changesIn (room : RoomId) : List MemberEvent :=
  b.membershipChangeEvents.filter fun e => e.roomId = room

/-- The user has joined the room at some point since the last sync. -/
def joinedAnew (room : RoomId) : Bool :=
  if room ∈ b.joinedRoomIds ∧ nonJoins (changesIn b room) ≠ [] then true
  else if room ∈ b.joinedRoomIds ∨
      (nonJoins (changesIn b room)).length ≠ (changesIn b room).length then
    st.oldMembership room ≠ some .join
  else false

/-- The entry of a room that was left. -/
def leftEntry (since : ℕ) (e : MemberEvent) : RoomEntry where
  roomId := e.roomId
  rtype := .archived
  events := if e.outOfBand then some [e.eventId] else none
  newlyJoined := e.roomId ∈ b.forcedNewlyJoinedRoomIds ∨ joinedAnew st b e.roomId
  fullState := false
  since := some since
  upto := e.streamOrdering
  end_ := e.streamOrdering
  outOfBand := e.outOfBand

/-- The body of the loop over the rooms with membership changes. -/
def roomChange (since : ℕ) (room : RoomId) : RoomChange where
  invited := if room ∈ b.joinedRoomIds then none else reportedInvite st (changesIn b room)
  knocked := if room ∈ b.joinedRoomIds then none else reportedKnock (changesIn b room)
  archived := if room ∈ b.joinedRoomIds then none
    else (reportedLeave since (changesIn b room)).map (leftEntry st b since)

/-- The rooms with membership changes, in the order of their first change. -/
def changedRooms : List RoomId :=
  (b.membershipChangeEvents.map MemberEvent.roomId).eraseDups

/-- The entry of a joined room. -/
def joinedEntry (since : ℕ) (room : RoomId) : RoomEntry :=
  let newlyJoined : Bool := room ∈ b.forcedNewlyJoinedRoomIds ∨
    (room ∈ changedRooms b ∧ joinedAnew st b room)
  match st.roomEvents room with
  | some (events, startKey) =>
      ⟨room, .joined, some events.reverse, newlyJoined, false,
        if newlyJoined then none else some since, startKey, st.now, false⟩
  | none => ⟨room, .joined, some [], newlyJoined, false, some since, since, st.now, false⟩

/-- `_RoomChanges`: the entries, the invites and the knocks. -/
structure RoomChanges where
  roomEntries : List RoomEntry
  invited : List MemberEvent
  knocked : List MemberEvent

/-- `_get_room_changes_for_incremental_sync`. -/
def roomChangesForIncrementalSync (since : ℕ) : RoomChanges :=
  let perRoom := (changedRooms b).map (roomChange st b since)
  { roomEntries := perRoom.filterMap RoomChange.archived ++
      b.joinedRoomIds.map (joinedEntry st b since)
    invited := perRoom.filterMap RoomChange.invited
    knocked := perRoom.filterMap RoomChange.knocked }

/-! ### The room changes of an initial sync -/

/-- The membership event of a row. -/
def RoomsForUser.event (row : RoomsForUser) : MemberEvent :=
  ⟨row.eventId, row.roomId, row.sender, row.membership, row.eventPos, false⟩

/-- The rows that the initial sync goes through. -/
def roomList : List RoomsForUser :=
  (st.roomsWhereMembershipIs.filter fun row =>
    row.roomId ∉ st.forgottenRooms ∧ row.roomId ∉ b.excludedRoomIds).filter
      RoomsForUser.knownRoomVersion

/-- The entry of a row: a joined room, or a room that was left. -/
def rowEntry (row : RoomsForUser) : Option RoomEntry :=
  match row.membership with
  | .join => some ⟨row.roomId, .joined, none, false, true, none, st.now, st.now, false⟩
  | .leave =>
      if ¬rq.config.includeLeave ∧ rq.config.user = row.sender then none
      else some ⟨row.roomId, .archived, none, false, true, none, row.eventPos, row.eventPos, false⟩
  | .ban =>
      some ⟨row.roomId, .archived, none, false, true, none, row.eventPos, row.eventPos, false⟩
  | _ => none

/-- The invite of a row that is reported. -/
def rowInvite (row : RoomsForUser) : Option MemberEvent :=
  if row.membership = .invite ∧ row.sender ∉ st.ignoredUsers ∧ ¬st.ignoresInvitesOf row.sender then
    some row.event
  else none

/-- The knock of a row. -/
def rowKnock (row : RoomsForUser) : Option MemberEvent :=
  if row.membership = .knock then some row.event else none

/-- `_get_room_changes_for_initial_sync`. -/
def roomChangesForInitialSync : RoomChanges where
  roomEntries := (roomList st b).filterMap (rowEntry st rq)
  invited := (roomList st b).filterMap (rowInvite st)
  knocked := (roomList st b).filterMap rowKnock

end Changes

/-! ### The sections -/

section Sections

variable (st : Store) (rq : Request) (b : Builder)

/-- The value of a room in a dictionary of the source. -/
def valueOf {α : Type} (room : RoomId) (d : List (RoomId × α)) : Option α :=
  (d.find? fun p => p.1 = room).map Prod.snd

/-- `account_data_by_room`. -/
def accountDataByRoom : List (RoomId × Dict) :=
  if rq.config.blocksAllRooms ∨ rq.config.blocksAllRoomAccountData then []
  else if rq.since.isSome ∧ ¬rq.fullState then st.updatedRoomAccountData
  else st.roomAccountData

/-- `ephemeral_by_room`: what happens in the joined rooms. -/
def ephemeralByRoom : List (RoomId × Json) :=
  if rq.config.blocksAllRooms ∨ rq.config.blocksAllRoomEphemeral then []
  else st.ephemeral.filter fun p => p.1 ∈ b.joinedRoomIds

/-- `sticky_by_room`. -/
def stickyByRoom : List (RoomId × EventId) :=
  st.sticky.filter fun p => p.1 ∈ b.joinedRoomIds

/-- `_may_have_rooms_changed`. -/
def mayHaveRoomsChanged : Bool :=
  b.membershipChangeEvents ≠ [] ∨ b.forcedNewlyJoinedRoomIds ≠ [] ∨
    ∃ room ∈ b.joinedRoomIds, st.hasRoomChangedSince room

/-- Nothing has happened since the last sync. -/
def isNoOp : Bool :=
  ¬rq.fullState ∧ rq.since.isSome ∧ ephemeralByRoom st rq b = [] ∧
    accountDataByRoom st rq = [] ∧ stickyByRoom st b = [] ∧ ¬mayHaveRoomsChanged st b ∧
    st.updatedTags = []

/-- `tags_by_room`. -/
def tagsByRoom : List (RoomId × Dict) :=
  if rq.since.isSome then st.updatedTags else st.tagsForUser

/-- The full state of the room of an entry is sent. -/
def sendsFullState (entry : RoomEntry) : Bool :=
  entry.fullState || entry.newlyJoined || rq.fullState

/-- `tags` of `_generate_room_entry`: those of the period, or all of them with the full
state. -/
def entryTags (entry : RoomEntry) : Option Dict :=
  if sendsFullState rq entry then
    (if st.tagsForRoom entry.roomId = [] then none else some (st.tagsForRoom entry.roomId))
  else valueOf entry.roomId (tagsByRoom st rq)

/-- `account_data` of `_generate_room_entry`. -/
def entryAccountData (entry : RoomEntry) : Dict :=
  (valueOf entry.roomId (accountDataByRoom st rq)).getD []

/-- `account_data_events`, after the filter. -/
def accountDataEvents (entry : RoomEntry) : List (PyStr × Json) :=
  let tags := (entryTags st rq entry).toList.map fun tags =>
    (py "m.tag", Json.obj [(py "tags", .obj tags)])
  (tags ++ entryAccountData st rq entry).filter fun p => rq.config.keepsRoomAccountData p.1

/-- `ephemeral` of `_generate_room_entry`. -/
def entryEphemeral (entry : RoomEntry) : List Json :=
  ((ephemeralByRoom st rq b).filter fun p => p.1 = entry.roomId).map Prod.snd

/-- `sticky_event_ids` of `_generate_room_entry`. -/
def entrySticky (entry : RoomEntry) : List EventId :=
  ((stickyByRoom st b).filter fun p => p.1 = entry.roomId).map Prod.snd

/-- The result of an entry by its type, where it is not empty or is always included. -/
def roomResult (alwaysInclude : Bool) (rtype : RoomType) (res : RoomResult) : Option RoomResult :=
  match rtype with
  | .joined =>
      if res.timeline ≠ [] ∨ res.state ≠ [] ∨ res.ephemeral ≠ [] ∨ res.accountData ≠ [] ∨
          res.sticky ≠ [] ∨ alwaysInclude then some res
      else none
  | .archived =>
      if res.timeline ≠ [] ∨ res.state ≠ [] ∨ res.accountData ≠ [] ∨ alwaysInclude then
        some { res with ephemeral := [], sticky := [] }
      else none

/-- `_generate_room_entry`: the result for an entry, where it has anything to report. -/
def generateRoomEntry (entry : RoomEntry) : Option RoomResult :=
  let fullState := sendsFullState rq entry
  let sticky := entrySticky st b entry
  if ¬(rq.fullState ∨ entryAccountData st rq entry ≠ [] ∨ entryEphemeral st rq b entry ≠ [] ∨
      fullState ∨ sticky ≠ []) ∧ entry.events = some [] ∧
      valueOf entry.roomId (tagsByRoom st rq) = none then none
  else
    let batch := st.recents entry
    let accountData := accountDataEvents st rq entry
    let ephemeral := (entryEphemeral st rq b entry).filter rq.config.keepsRoomEphemeral
    if ¬(rq.fullState ∨ batch ≠ [] ∨ accountData ≠ [] ∨ ephemeral ≠ [] ∨ fullState ∨
        sticky ≠ []) then none
    else
      roomResult rq.fullState entry.rtype
        { roomId := entry.roomId
          timeline := batch
          state := if entry.outOfBand then [] else st.stateDelta entry batch fullState
          ephemeral := ephemeral
          accountData := accountData
          sticky := st.visibleSticky (sticky.filter fun id => id ∉ batch) }

/-- The room changes, by whether there is a since token. -/
def roomChanges : RoomChanges :=
  match rq.since with
  | some since => roomChangesForIncrementalSync st b since
  | none => roomChangesForInitialSync st rq b

/-- `_generate_sync_entry_for_rooms`. -/
def generateSyncEntryForRooms : Response :=
  if isNoOp st rq b then ⟨[], [], [], []⟩
  else
    let changes := roomChanges st rq b
    let joined := changes.roomEntries.filter fun e => e.rtype = .joined
    let archived := changes.roomEntries.filter fun e => e.rtype = .archived
    { joined := joined.filterMap (generateRoomEntry st rq b)
      invited := changes.invited
      knocked := changes.knocked
      archived := archived.filterMap (generateRoomEntry st rq b) }

/-- The rooms part is computed for its own sake, or for presence and device lists. -/
def wantsRooms : Bool :=
  ¬rq.config.blocksAllRooms ∨ rq.includePresenceData ∨ rq.includeDeviceListUpdates

end Sections

/-- `generate_sync_result`: the room sections of the response, `none` where the gate
has raised. -/
def generateSyncResult (cfg : Config) (env : Env) (w : World) (st : Store) (rq : Request) :
    Option Response :=
  match ((syncGate cfg rq.config.user rq.config.deviceId rq.since.isSome).eval
    (perform cfg env) w).2 with
  | none => none
  | some (hidden, forced) =>
      some (if wantsRooms rq then
        generateSyncEntryForRooms st rq (getSyncResultBuilder st rq hidden forced)
      else ⟨[], [], [], []⟩)

end SyncGate
end Liza
