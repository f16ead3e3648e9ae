/-
# The badge of an HTTP pusher

`servers/synapse/src/synapse/push`: the decisions of `room_read_logic.py`, and what
`HttpPusher` (`httppusher.py`) does with the unread rooms of its user: `_update_badge`
after a read receipt, and `_process_one` with `dispatch_push_event` for an event.

The pusher shares the event loop with everything that makes rooms unread or read, and
any number of `_update_badge` calls may be on their way.  `get_unread_rooms` reads the
invites first and the counts afterwards, so a read in progress is a state of its own.
Three ghosts are kept beside the pusher: the rooms with an accepted event push, the
rooms that have left the unread set since the last counts-only push, and those among
them that left it unseen, which is to say at a moment when the set remembered by the
last `_update_badge` did not hold them.
-/

import Liza.Synapse.Rooms
import Liza.Lib.Run
import Mathlib.Algebra.Ring.Nat

set_option autoImplicit false

namespace Liza
namespace Push

open Lib Synapse

/-- `badge_from_unread`. -/
def badgeFromUnread (invites : List RoomId) (counts : List (RoomId × ℕ)) (groupByRoom : Bool) : ℕ :=
  if groupByRoom then invites.length + counts.length
  else invites.length + (counts.map Prod.snd).sum

/-- `unread_room_ids`. -/
def unreadRoomIds (invites : List RoomId) (counts : List (RoomId × ℕ)) : List RoomId :=
  invites ++ counts.map Prod.fst

/-- `should_send_badge`. -/
def shouldSendBadge (previousBadge : Option ℕ) (badge : ℕ) (previousRooms : Option (List RoomId))
    (rooms : List RoomId) (clearingOnRoomRead : Bool) : Bool :=
  if previousBadge ≠ some badge then true
  else
    match clearingOnRoomRead, previousRooms with
    | true, some previousRooms => ¬∀ room ∈ previousRooms, room ∈ rooms
    | _, _ => false

/-- `push.group_unread_count_by_room` and `push.clearing_on_room_read`. -/
structure Config where
  groupUnreadCountByRoom : Bool
  clearingOnRoomRead : Bool

/-- `get_unread_rooms` on its way: the invites, and the counts once they are read. -/
structure Reading where
  invites : List RoomId
  counts : Option (List (RoomId × ℕ))
deriving DecidableEq

/-- A pusher and the unread rooms of its user. -/
structure State where
  /-- The rooms the user is invited to, and the joined rooms with unread notifications. -/
  invites : List RoomId
  counts : List (RoomId × ℕ)
  badgeCountLastCall : Option ℕ
  unreadRoomsLastCall : Option (List RoomId)
  /-- The `_update_badge` calls on their way. -/
  updates : List Reading
  /-- The room of the event that `_process_one` is at, with its badge count. -/
  dispatching : Option (RoomId × Reading)
  /-- The rooms for which an event push was accepted. -/
  pushed : List RoomId
  /-- The rooms that have left the unread set since the last counts-only push. -/
  uncleared : List RoomId
  /-- Those of them that left it unseen. -/
  unseen : List RoomId

/-- What happens to the pusher. -/
inductive Act where
  /-- Events arrive and rooms are read. -/
  | change (invites : List RoomId) (counts : List (RoomId × ℕ))
  /-- `_update_badge` begins and reads the invites. -/
  | update
  /-- It reads the counts. -/
  | count (i : ℕ)
  /-- It decides, and sends the counts-only push where it is to be sent. -/
  | finish (i : ℕ)
  /-- `_process_one` begins with an event of the room and reads the invites; or begins
  again after the read-grace. -/
  | process (room : RoomId)
  /-- It reads the counts. -/
  | countEvent
  /-- It skips the event. -/
  | skip
  /-- The gateway has answered to the push of the event. -/
  | answer (accepted : Bool)

/-- The unread set. -/
def State.unread (s : State) : List RoomId := unreadRoomIds s.invites s.counts

/-- The rooms become unread or read. -/
def change (s : State) (invites : List RoomId) (counts : List (RoomId × ℕ)) : State :=
  let left := s.unread.filter fun room => room ∉ unreadRoomIds invites counts
  { s with
    invites := invites
    counts := counts
    uncleared := s.uncleared ++ left
    unseen := s.unseen ++ left.filter fun room => room ∉ s.unreadRoomsLastCall.getD [] }

/-- `_update_badge`, after its reads. -/
def updateBadge (cfg : Config) (s : State) (invites : List RoomId) (counts : List (RoomId × ℕ)) :
    State :=
  let badge := badgeFromUnread invites counts cfg.groupUnreadCountByRoom
  let rooms := unreadRoomIds invites counts
  let send := shouldSendBadge s.badgeCountLastCall badge s.unreadRoomsLastCall rooms
    cfg.clearingOnRoomRead
  let s := { s with unreadRoomsLastCall := some rooms }
  if send then { s with badgeCountLastCall := some badge, uncleared := [], unseen := [] } else s

/-- One step. -/
def step (cfg : Config) (s : State) : Act → Option State
  | .change invites counts => some (change s invites counts)
  | .update => some { s with updates := s.updates ++ [⟨s.invites, none⟩] }
  | .count i =>
      match s.updates[i]? with
      | some ⟨invites, none⟩ => some { s with updates := s.updates.set i ⟨invites, some s.counts⟩ }
      | _ => none
  | .finish i =>
      match s.updates[i]? with
      | some ⟨invites, some counts⟩ =>
          some { updateBadge cfg s invites counts with updates := s.updates.eraseIdx i }
      | _ => none
  | .process room =>
      if s.dispatching.all fun p => p.1 = room then
        some { s with dispatching := some (room, ⟨s.invites, none⟩) }
      else none
  | .countEvent =>
      match s.dispatching with
      | some (room, ⟨invites, none⟩) =>
          some { s with dispatching := some (room, ⟨invites, some s.counts⟩) }
      | _ => none
  | .skip => some { s with dispatching := none }
  | .answer accepted =>
      match s.dispatching with
      | some (room, ⟨invites, some counts⟩) =>
          if accepted then
            some { s with
              badgeCountLastCall :=
                some (badgeFromUnread invites counts cfg.groupUnreadCountByRoom)
              dispatching := none
              pushed := room :: s.pushed }
          else some { s with dispatching := none }
      | _ => none

/-- A pusher that was just started. -/
def start (invites : List RoomId) (counts : List (RoomId × ℕ)) : State :=
  ⟨invites, counts, none, none, [], none, [], [], []⟩

end Push
end Liza
