/-
# The module API as the server modules use it

The modules under `servers/synapse/modules` await the same handful of calls of
`ModuleApi` and of the main store, start background processes, and read and
write a table of their own.  `Op` is one such await; a module brings its jobs
(`Job`) and the operations of its table (`Own`).  The helper methods that several
modules carry a copy of (`_is_ai`, `_room_creator`, the mute of a room) are here
once.

A room id may come out of an event's content, where it is whatever JSON value
the sender put there, so the operations take a room as `Json`.
-/

import Liza.Synapse.Rooms
import Liza.Lib.Task

set_option autoImplicit false

namespace Liza
namespace Synapse

open Lib

/-- The argument of `create_and_send_event_into_room`. -/
structure EventDict where
  type : PyStr
  room : Json
  sender : UserId
  stateKey : Option PyStr
  content : Dict
  redacts : Option EventId

/-- What a module awaits. -/
inductive Op (Job Own : Type) where
  /-- `get_current_state_event(room, type, "")`. -/
  | stateEvent (room : Json) (type : PyStr)
  /-- `account_data_manager.get_global(user, "com.liza.user_role")`. -/
  | userRole (user : UserId)
  /-- `get_users_in_room` and `get_invited_users_in_room`. -/
  | usersInRoom (room : Json) (membership : Membership)
  /-- `update_room_membership`. -/
  | updateRoomMembership (sender target : UserId) (room : Json) (action : Membership)
      (remoteHosts : Option (List PyStr))
  /-- `create_and_send_event_into_room`. -/
  | sendEvent (event : EventDict)
  /-- The check of `push_rules` before a mute. -/
  | hasMuteRule (user : UserId) (room : Json)
  /-- `add_push_rule` with the action `dont_notify`. -/
  | addMuteRule (user : UserId) (room : Json)
  /-- `get_event(event_id, get_prev_content=True)`: the `prev_content`. -/
  | prevContent (eventId : EventId)
  /-- `api.sleep`. -/
  | sleep
  /-- `run_as_background_process`. -/
  | background (job : Job)
  /-- An operation of the module's own table. -/
  | own (op : Own)

/-- What an operation answers. -/
@[reducible]
def Res {Job Own : Type} (OwnRes : Own → Type) : Op Job Own → Type
  | .stateEvent _ _ => Option StateEvent
  | .userRole _ => Option Dict
  | .usersInRoom _ _ => List UserId
  | .updateRoomMembership _ _ _ _ _ => Unit
  | .sendEvent _ => EventId
  | .hasMuteRule _ _ => Bool
  | .addMuteRule _ _ => Unit
  | .prevContent _ => Option Dict
  | .sleep => Unit
  | .background _ => Unit
  | .own op => OwnRes op

/-- The code of a module. -/
abbrev Code (Job : Type) {Own : Type} (OwnRes : Own → Type) (α : Type) :=
  Task (Op Job Own) (Res OwnRes) α

/-- `com.liza.chat.type`. -/
def chatTypeKey : PyStr := "com.liza.chat.type"

/-- The `com.liza.chat.type` of a channel. -/
def channelTypeName : PyStr := "channel"

/-- `m.room.create`. -/
def createState : PyStr := "m.room.create"

/-- `_AI_LOCALPARTS`. -/
def aiLocalparts : List PyStr := ["liza", "gpt", "deepseek"]

/-- `hs.is_mine_id`. -/
def isMine (host : PyStr) (id : UserId) : Bool := (split1 (codePoint ':') id).2 = some host

/-- The test of `_is_ai` on a user name. -/
def isAiLocalpart (user : UserId) : Bool :=
  lstrip (codePoint '@') (split1 (codePoint ':') user).1 ∈ aiLocalparts

/-- The test of `_is_ai` on the stored role. -/
def isAiRole (data : Option Dict) : Bool :=
  match data with
  | none => false
  | some d => d.get "role" = .str "ai"

section Code

variable {Job Own : Type} {OwnRes : Own → Type}

/-- `await op`. -/
abbrev call (op : Op Job Own) : Code Job OwnRes (Res OwnRes op) := Task.call op

/-- `try: await t except Exception: log`. -/
def attempt {α : Type} (t : Code Job OwnRes α) : Code Job OwnRes Unit :=
  (t >>= fun _ => .ret ()).orElse (.ret ())

/-- The content of a current state event, `None` without one. -/
def stateContent (room : Json) (type : PyStr) : Code Job OwnRes (Option Dict) := do
  let ev ← call (.stateEvent room type)
  return ev.map StateEvent.content

/-- `_channel_type` and `_chat_type`. -/
def chatType (room : Json) : Code Job OwnRes Json := do
  let content ← stateContent room createState
  return (content.getD []).get chatTypeKey

/-- `_room_creator`. -/
def roomCreator (room : Json) : Code Job OwnRes (Option UserId) := do
  let create ← call (.stateEvent room createState)
  return create.map StateEvent.sender

/-- `_is_ai`. -/
def isAi (host : PyStr) (user : UserId) : Code Job OwnRes Bool :=
  if isAiLocalpart user then .ret true
  else if !isMine host user then .ret false
  else (call (.userRole user) >>= fun data => .ret (isAiRole data)).orElse (.ret false)

/-- `None if is_mine(member) else [member.split(":", 1)[1]]`; the index raises
where the id has no server name. -/
def remoteHosts (host : PyStr) (member : UserId) : Code Job OwnRes (Option (List PyStr)) :=
  if isMine host member then .ret none
  else match (split1 (codePoint ':') member).2 with
    | some server => .ret (some [server])
    | none => .raised

/-- `_mute_for_subscriber` and `_mute_room_for_local_user`. -/
def muteRoom (user : UserId) (room : Json) : Code Job OwnRes Unit :=
  attempt do
    let existing ← call (.hasMuteRule user room)
    if existing then .ret () else call (.addMuteRule user room)

/-- The mute of a new member, for local users only. -/
def muteIfLocal (host : PyStr) (member : UserId) (room : Json) : Code Job OwnRes Unit :=
  if isMine host member then muteRoom member room else .ret ()

end Code

/-- A state event with the state key `""`, as the modules send them. -/
def stateDict (room : Json) (sender : UserId) (type : PyStr) (content : Dict) : EventDict :=
  { type, room, sender, stateKey := some [], content, redacts := none }

end Synapse
end Liza
