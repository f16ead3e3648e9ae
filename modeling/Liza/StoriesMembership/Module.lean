/-
# Who is invited to whose stories

`servers/synapse/modules/stories_membership/__init__.py`: the callback for new events, which
invites the two sides of a direct chat to each other's stories room and takes them out
again; with `AccountDataManager.get_global` of Synapse, which freezes what it returns
(`util/frozenutils.py`).

Every event is processed to its end before the next one, so a callback is a function of the
world.  Of a call of `update_room_membership` it is assumed that it fails only where it would
change nothing.  The push rules that are set beside an invite, the name and the power levels
of a stories room, and the servers through which a remote user is invited are left out; so
is the start-up pass.  The account data `com.liza.stories`, which holds the stories room of a
user, is written by the module only.
-/

import Liza.StoriesMembership.Hidden
import Liza.Synapse.Api
import Liza.Lib.Run

set_option autoImplicit false

namespace Liza
namespace StoriesMembership

open Lib Synapse

/-! ### What `get_global` returns -/

/-- A value as `isinstance` tells it apart. -/
inductive PyVal where
  | dict (items : List (PyStr × PyVal))
  | immutabledict (items : List (PyStr × PyVal))
  | list (items : List PyVal)
  | tuple (items : List PyVal)
  | scalar (v : Json)

mutual

/-- `freeze`. -/
def freeze : Json → PyVal
  | .obj d => .immutabledict (freezeItems d)
  | .arr l => .tuple (freezeList l)
  | v => .scalar v

/-- The elements of a list. -/
def freezeList : List Json → List PyVal
  | [] => []
  | v :: l => freeze v :: freezeList l

/-- The items of a dictionary. -/
def freezeItems : List (PyStr × Json) → List (PyStr × PyVal)
  | [] => []
  | (k, v) :: d => (k, freeze v) :: freezeItems d

end

/-- `room in rooms`, for a list of values. -/
def hasRoom (room : RoomId) (rooms : List PyVal) : Bool :=
  rooms.any fun
    | .scalar (.str r) => r = room
    | _ => false

/-- The loop of `_room_is_registered_dm` over the values of `m.direct`. -/
def registers (room : RoomId) : PyVal → Bool
  | .dict items => items.any fun item =>
      match item.2 with
      | .list rooms => hasRoom room rooms
      | _ => false
  | _ => false

/-! ### The world -/

/-- What is configured: the name of the server and the names of the bots; and how the server
names a new room. -/
structure Config where
  host : PyStr
  aiBotLocalparts : List PyStr
  newRoomId : List RoomId → RoomId
  newRoomId_fresh : ∀ ids, newRoomId ids ∉ ids

/-- The rooms, and the account data of the users: `m.direct`, the role, and the stories
room. -/
structure World where
  rooms : Rooms
  direct : UserId → Option Dict
  roles : UserId → Option Dict
  stories : List (UserId × RoomId)

/-- The stories room of a user. -/
def World.storiesRoom (w : World) (user : UserId) : Option RoomId :=
  (w.stories.find? fun e => e.1 = user).map Prod.snd

/-- The state of a new stories room. -/
def storiesState (owner : UserId) (type key : PyStr) : Option StateEvent :=
  if type = py "m.room.create" ∧ key = [] then
    some ⟨owner, [("com.liza.stories", .bool true), ("com.liza.chat.type", .str "stories")]⟩
  else if type = SyncGate.topologyState ∧ key = [] then some ⟨owner, [("hidden", .bool true)]⟩
  else none

/-- `create_room`. -/
def createRoom (r : Rooms) (room : RoomId) (owner : UserId) : Rooms where
  ids := r.ids ++ [room]
  state := fun x type key => if x = room then storiesState owner type key else r.state x type key
  members := fun x => if x = room then [(owner, .join)] else r.members x

/-- `update_room_membership(…, "invite")`. -/
def invite (r : Rooms) (room : RoomId) (guest : UserId) : Rooms :=
  if r.isIn room guest then r else r.setMember room guest .invite

/-- `update_room_membership(…, "leave")`. -/
def kick (r : Rooms) (room : RoomId) (guest : UserId) : Rooms :=
  if r.isIn room guest then r.setMember room guest .leave else r

/-! ### The module -/

/-- `ensure_stories_room`. -/
def ensureStoriesRoom (cfg : Config) (w : World) (user : UserId) : World × RoomId :=
  match w.storiesRoom user with
  | some room => (w, room)
  | none =>
      let room := cfg.newRoomId w.rooms.ids
      ({ w with rooms := createRoom w.rooms room user, stories := (user, room) :: w.stories }, room)

/-- `_is_ai_user`. -/
def isAiUser (cfg : Config) (w : World) (user : UserId) : Bool :=
  lstrip (codePoint '@') (split1 (codePoint ':') user).1 ∈ cfg.aiBotLocalparts ||
    (isMine cfg.host user && isAiRole (w.roles user))

/-- `_invite_into_owner_room`. -/
def inviteIntoOwnerRoom (cfg : Config) (w : World) (owner guest : UserId) : World :=
  if isMine cfg.host owner then
    let (w, room) := ensureStoriesRoom cfg w owner
    { w with rooms := invite w.rooms room guest }
  else w

/-- `subscribe_pair`. -/
def subscribePair (cfg : Config) (w : World) (a b : UserId) : World :=
  if isAiUser cfg w a || isAiUser cfg w b then w
  else inviteIntoOwnerRoom cfg (inviteIntoOwnerRoom cfg w a b) b a

/-- `_leave_owner_room`. -/
def leaveOwnerRoom (cfg : Config) (w : World) (owner guest : UserId) : World :=
  if isMine cfg.host owner then
    match w.storiesRoom owner with
    | some room => { w with rooms := kick w.rooms room guest }
    | none => w
  else w

/-- `unsubscribe_pair`. -/
def unsubscribePair (cfg : Config) (w : World) (a b : UserId) : World :=
  leaveOwnerRoom cfg (leaveOwnerRoom cfg w a b) b a

/-- `_room_is_registered_dm`. -/
def roomIsRegisteredDm (cfg : Config) (w : World) (user : UserId) (room : RoomId) : Bool :=
  if room = [] || !isMine cfg.host user then false
  else registers room (freeze ((w.direct user).elim .null .obj))

/-- `_event_room_is_hidden`. -/
def eventRoomIsHidden (r : Rooms) (room : RoomId) : Bool :=
  isHiddenRoom ((r.state room "m.room.create" "").map StateEvent.content)
    ((r.state room SyncGate.topologyState "").map StateEvent.content)

/-- `_room_is_direct`: there are at most two users with a membership of any kind. -/
def roomIsDirect (r : Rooms) (room : RoomId) : Bool := (r.members room).length ≤ 2

/-- `_other_members`. -/
def otherMembers (r : Rooms) (room : RoomId) (exclude : UserId) : List UserId :=
  ((r.members room).filter fun p => p.1 ≠ exclude && p.2 = .join).map Prod.fst

/-- `is_direct_membership_join`. -/
def isDirectMembershipJoin (type : PyStr) (content : Dict) (isDirectRoom : Bool) : Bool :=
  type = py "m.room.member" && isDirectRoom && content.get "membership" = .str "join"

/-- `is_direct_membership_leave`. -/
def isDirectMembershipLeave (type : PyStr) (content : Dict) (isDirectRoom : Bool) : Bool :=
  type = py "m.room.member" && isDirectRoom &&
    (content.get "membership" = .str "leave" || content.get "membership" = .str "ban")

/-- `is_direct` of `_on_new_event`. -/
def isDirect (r : Rooms) (e : Event) : Bool :=
  (e.content.get "is_direct").truthy || roomIsDirect r e.roomId

/-- The user of a membership event. -/
def memberOf (e : Event) : UserId := e.stateKey.getD []

/-- `_on_new_event`. -/
def onNewEvent (cfg : Config) (w : World) (e : Event) : World :=
  if eventRoomIsHidden w.rooms e.roomId then w
  else if isDirectMembershipJoin e.type e.content (isDirect w.rooms e) then
    (otherMembers w.rooms e.roomId (memberOf e)).foldl
      (fun w other => subscribePair cfg w (memberOf e) other) w
  else if isDirectMembershipLeave e.type e.content (isDirect w.rooms e) then
    if roomIsRegisteredDm cfg w (memberOf e) e.roomId then
      (otherMembers w.rooms e.roomId (memberOf e)).foldl
        (fun w other => unsubscribePair cfg w (memberOf e) other) w
    else w
  else w

/-- What happens: an event is persisted, or a user writes `m.direct`. -/
inductive Ev where
  | event (e : Event)
  | direct (user : UserId) (content : Dict)

/-- The world as it is when the callback runs. -/
def arrive (w : World) : Ev → World
  | .event e => { w with rooms := w.rooms.persist e }
  | .direct user content => { w with direct := Function.update w.direct user (some content) }

/-- One event with its callback. -/
def step (cfg : Config) (w : World) (ev : Ev) : Option World :=
  match ev with
  | .event e => some (onNewEvent cfg (arrive w ev) e)
  | .direct _ _ => some (arrive w ev)

end StoriesMembership
end Liza
