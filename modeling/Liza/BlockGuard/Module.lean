/-
# Who is kept from a personal chat

`servers/synapse/modules/block_guard`: `_logic.py` and the two callbacks of `__init__.py`.
Whoever is on somebody's list of ignored users may not open a personal chat with them
(`on_create_room`), and may neither invite them to one nor write to them there
(`check_event_allowed`).

Account data comes from `AccountDataManager.get_global`, which freezes it: a dictionary is an
`immutabledict` and a list a `tuple`.  The body of a request is not frozen.  The callbacks refuse
with an exception; here they return whether they let the request or the event pass.
-/

import Liza.StoriesMembership.Module
import Liza.Synapse.EventAuth

set_option autoImplicit false

namespace Liza
namespace BlockGuard

open Lib Synapse
open StoriesMembership (PyVal freeze freezeList freezeItems hasRoom)

/-! ### `_logic.py` -/

/-- `_is_mapping`. -/
def isMapping : PyVal → Bool
  | .dict _ => true
  | .immutabledict _ => true
  | _ => false

/-- `_is_sequence`: no `str` is one. -/
def isSequence : PyVal → Bool
  | .list _ => true
  | .tuple _ => true
  | _ => false

/-- The items of a mapping. -/
def items : PyVal → List (PyStr × PyVal)
  | .dict d => d
  | .immutabledict d => d
  | _ => []

/-- The elements of a sequence. -/
def elements : PyVal → List PyVal
  | .list l => l
  | .tuple l => l
  | _ => []

/-- `mapping.get(key)`. -/
def lookup (v : PyVal) (key : PyStr) : PyVal :=
  ((items v).find? fun e => e.1 = key).elim (.scalar .null) Prod.snd

/-- `MEMBER_EVENT_TYPE`. -/
def memberEventType : PyStr := "m.room.member"

/-- `BLOCKABLE_MESSAGE_TYPES`. -/
def blockableMessageTypes : List PyStr := ["m.room.message", "m.room.encrypted", "m.reaction"]

/-- `is_blockable_event_type`. -/
def isBlockableEventType (eventType : PyStr) (content : Dict) : Bool :=
  if eventType ∈ blockableMessageTypes then true
  else if eventType ≠ memberEventType then false
  else content.get "membership" = .str "invite" && content.get "is_direct" = .bool true

/-- `is_service_localpart`. -/
def isServiceLocalpart (user : UserId) (serviceLocalparts : List PyStr) : Bool :=
  lstrip (codePoint '@') (split1 (codePoint ':') user).1 ∈ serviceLocalparts

/-- `is_exempt_room`. -/
def isExemptRoom (roomType chatType : Json) (topologyContent : Option Dict) (legacyStories : Bool) :
    Bool :=
  if roomType = .str "m.space" || roomType = .str "com.liza.channel" then true
  else if chatType = .str "stories" || chatType = .str "channel_discussion" then true
  else if legacyStories then true
  else match topologyContent with
    | some content => content.get "hidden" = .bool true
    | none => false

/-- `joined_and_invited`. -/
def joinedAndInvited (members : List (UserId × PyStr)) : List UserId :=
  (members.filter fun m => m.2 = py "join" || m.2 = py "invite").map Prod.fst

/-- `dm_counterpart`. -/
def dmCounterpart (members : List (UserId × PyStr)) (sender : UserId) : Option UserId :=
  let participants := joinedAndInvited members
  if participants.length ≠ 2 || sender ∉ participants then none
  else participants.find? fun user => user ≠ sender

/-- `room_is_direct_for`. -/
def roomIsDirectFor (directContent : PyVal) (room : RoomId) : Bool :=
  if !isMapping directContent || room = [] then false
  else (items directContent).any fun e => isSequence e.2 && hasRoom room (elements e.2)

/-- `ignores`. -/
def ignores (ignoredUserListContent : PyVal) (user : UserId) : Bool :=
  if !isMapping ignoredUserListContent then false
  else
    let ignored := lookup ignoredUserListContent "ignored_users"
    isMapping ignored && (items ignored).any fun e => e.1 = user

/-- The elements of a list that are texts. -/
def strings (l : List Json) : List PyStr :=
  l.filterMap fun
    | .str s => some s
    | _ => none

/-- `blocked_invitees`. -/
def blockedInvitees (config : Dict) (ignoreLookup : List (UserId × Bool)) : List UserId :=
  if !(config.get "is_direct").truthy then []
  else match config.get "invite" with
    | .arr invites => (strings invites).filter fun user => ignoreLookup.lookup user = some true
    | _ => []

/-! ### The module -/

/-- What is configured, and the name of the server. -/
structure Config where
  host : PyStr
  enabled : Bool
  serviceLocalparts : List PyStr

/-- The global account data of the users, by type. -/
abbrev AccountData := UserId → PyStr → Option Dict

section Module

variable (cfg : Config) (data : AccountData)

/-- `_get_global`: `None` also where `get_global` raises, as it does for an id that is not one of a
user of this server. -/
def getGlobal (user : UserId) (dataType : PyStr) : PyVal :=
  if EventAuth.userIdFromString user && isMine cfg.host user then
    freeze ((data user dataType).elim .null .obj)
  else .scalar .null

/-- `_ignores`. -/
def ignoresUser (owner candidate : UserId) : Bool :=
  isMine cfg.host owner && ignores (getGlobal cfg data owner "m.ignored_user_list") candidate

/-- `_is_service_account`. -/
def isServiceAccount (user : UserId) : Bool :=
  if isServiceLocalpart user cfg.serviceLocalparts then true
  else if !isMine cfg.host user then false
  else match lookup (getGlobal cfg data user "com.liza.user_role") "role" with
    | .scalar role => role = .str "ai"
    | _ => false

/-- `_on_create_room`: whether it lets the request pass. -/
def onCreateRoom (creator : UserId) (config : Dict) : Bool :=
  if !cfg.enabled || !(config.get "is_direct").truthy then true
  else if isServiceAccount cfg data creator then true
  else match config.get "invite" with
    | .arr invites =>
        (blockedInvitees config ((strings invites).map fun invitee =>
          (invitee, ignoresUser cfg data invitee creator))).isEmpty
    | _ => true

/-- The state before an event: the contents of the state events, by type and key. -/
abbrev State := List ((PyStr × PyStr) × Dict)

/-- `_state`: the content of a state event. -/
def State.content (state : State) (eventType : PyStr) : Option Dict :=
  state.lookup (eventType, [])

/-- `_members`. -/
def membersOf (state : State) : List (UserId × PyStr) :=
  state.filterMap fun e =>
    if e.1.1 ≠ memberEventType then none
    else match e.2.get "membership" with
      | .str membership => some (e.1.2, membership)
      | _ => none

/-- `_is_exempt_room`. -/
def isExempt (state : State) : Bool :=
  let create := (state.content "m.room.create").getD []
  isExemptRoom (create.get "type") (create.get "com.liza.chat.type")
    (state.content "com.liza.chat.topology") (create.get "com.liza.stories").truthy

/-- `_is_direct_room`. -/
def isDirectRoom (room : RoomId) (sender counterpart : UserId) : Bool :=
  [counterpart, sender].any fun user =>
    isMine cfg.host user && roomIsDirectFor (getGlobal cfg data user "m.direct") room

/-- `_check_event_allowed`: whether it lets the event pass. -/
def checkEventAllowed (event : Event) (state : State) : Bool :=
  if !cfg.enabled then true
  else if !isBlockableEventType event.type event.content then true
  else if !isMine cfg.host event.sender then true
  else if isExempt state then true
  else if isServiceAccount cfg data event.sender then true
  else if event.type = memberEventType then
    match event.stateKey with
    | none => true
    | some target =>
        if target = [] || isServiceAccount cfg data target then true
        else !ignoresUser cfg data target event.sender
  else
    match dmCounterpart (membersOf state) event.sender with
    | none => true
    | some counterpart =>
        if isServiceAccount cfg data counterpart then true
        else if !ignoresUser cfg data counterpart event.sender then true
        else !isDirectRoom cfg data event.roomId event.sender counterpart

end Module

end BlockGuard
end Liza
