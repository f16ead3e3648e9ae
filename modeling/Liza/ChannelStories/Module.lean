/-
# The `channel_stories` module

`servers/synapse/modules/channel_stories`: the callback and the background jobs
of `__init__.py`, the predicates of `_logic.py`, and the table `channel_stories`
of `_storage.py`, which maps a channel to its stories room.
-/

import Liza.Synapse.Server

set_option autoImplicit false

namespace Liza
namespace ChannelStories

open Lib Synapse
open Lib.Task (forEach)

/-- `com.liza.channel.stories_of`, in the creation content of a stories room. -/
def channelStoriesOf : PyStr := "com.liza.channel.stories_of"

/-- `is_channel_join`. -/
def isChannelJoin (eventType : PyStr) (content : Dict) : Bool :=
  eventType = py "m.room.member" && content.get "membership" = .str "join"

/-- `is_channel_leave`. -/
def isChannelLeave (eventType : PyStr) (content : Dict) : Bool :=
  eventType = py "m.room.member" &&
    (content.get "membership" = .str "leave" || content.get "membership" = .str "ban")

/-- The callback of an event, and the background processes of the module with
their arguments.  The content of a creation event comes with whether it is frozen:
`_on_new_event` copies the outer dict only. -/
inductive Job where
  | onNewEvent (event : Event)
  | ensureSchema
  | onRoomCreate (room : RoomId) (creationContent : Dict) (frozen : Bool)
  | addMember (channel : RoomId) (member : UserId)
  | removeMember (channel : RoomId) (member : UserId)

/-- The operations of `ChannelStoriesStore`. -/
inductive StoreOp where
  | ensureSchema
  | putStoriesRoom (channel : Json) (room : RoomId)
  | getStoriesRoom (channel : Json)

/-- What they answer. -/
@[reducible]
def StoreRes : StoreOp → Type
  | .getStoriesRoom _ => Option RoomId
  | _ => Unit

/-- What the module awaits. -/
abbrev Op := Synapse.Op Job StoreOp

/-- What an operation answers. -/
abbrev Res := @Synapse.Res Job StoreOp StoreRes

/-- The code of the module. -/
abbrev Code (α : Type) := Synapse.Code Job StoreRes α

/-- `await op`. -/
abbrev call (op : Op) : Code (Res op) := Task.call op

/-- Which events come to the callback with a frozen content: a module with a
`check_event_allowed` callback freezes the event it is asked about, and an event
that is read again from the database is not frozen. -/
abbrev Freezes := EventId → Bool

section

variable (frozen : Freezes) (host : PyStr)

/-- `_mute_room_for_local_user`. -/
abbrev muteRoomForLocalUser (user : UserId) (room : Json) : Code Unit := muteRoom user room

/-- `_add_member`. -/
def addMember (channel : Json) (member : UserId) : Code Unit := do
  let ai ← isAi host member
  if ai then .ret () else
  let storiesRoom ← call (.own (.getStoriesRoom channel))
  match storiesRoom with
  | none => .ret ()
  | some storiesRoom =>
    let owner ← roomCreator (.str storiesRoom)
    match owner with
    | none => .ret ()
    | some owner =>
      let _ ← muteIfLocal host member (.str storiesRoom)
      let hosts ← remoteHosts host member
      attempt (call (.updateRoomMembership owner member (.str storiesRoom) .invite hosts))

/-- `_remove_member`. -/
def removeMember (channel : Json) (member : UserId) : Code Unit := do
  let storiesRoom ← call (.own (.getStoriesRoom channel))
  match storiesRoom with
  | none => .ret ()
  | some storiesRoom =>
    let owner ← roomCreator (.str storiesRoom)
    match owner with
    | none => .ret ()
    | some owner =>
      attempt (call (.updateRoomMembership owner member (.str storiesRoom) .leave none))

/-- `_backfill_channel_members`. -/
def backfillChannelMembers (channel : Json) : Code Unit := do
  let members ← call (.usersInRoom channel .join)
  forEach (addMember host channel) members

/-- The `channel_id` that a creation content names, where `_on_room_create` goes on
with it.  The marker of a frozen content is an `immutabledict`, which is no `dict`. -/
def claimedChannel (frozen : Bool) (creationContent : Dict) : Option Json :=
  match creationContent.get channelStoriesOf with
  | .obj marker =>
      if frozen then none
      else if (Dict.get marker "channel_id").truthy then some (Dict.get marker "channel_id")
      else none
  | _ => none

/-- `_on_room_create`. -/
def onRoomCreate (room : RoomId) (creationContent : Dict) (frozen : Bool) : Code Unit :=
  match claimedChannel frozen creationContent with
  | none => .ret ()
  | some channel => do
    let _ ← call (.own (.putStoriesRoom channel room))
    backfillChannelMembers host channel

/-- `_on_new_event`.  `event.state_key` raises on an event without one. -/
def onNewEvent (event : Event) : Code Unit :=
  if event.type = createState then
    call (.background (.onRoomCreate event.roomId event.content (frozen event.eventId)))
  else if isChannelJoin event.type event.content || isChannelLeave event.type event.content then do
    let chatType ← chatType (.str event.roomId)
    if chatType = .str channelTypeName then
      match event.stateKey with
      | none => .raised
      | some member =>
        if isChannelJoin event.type event.content then
          call (.background (.addMember event.roomId member))
        else call (.background (.removeMember event.roomId member))
    else .ret ()
  else .ret ()

/-- The code of every job. -/
def code : Job → Code Unit
  | .onNewEvent e => onNewEvent frozen e
  | .ensureSchema => call (.own .ensureSchema)
  | .onRoomCreate room content fr => onRoomCreate host room content fr
  | .addMember c m => addMember host (.str c) m
  | .removeMember c m => removeMember (.str c) m

end

/-- The rows of `channel_stories`: a channel and its stories room. -/
abbrev Rows := List (RoomId × RoomId)

/-- `SELECT stories_room_id … WHERE channel_id = ?`. -/
def Rows.room (rows : Rows) (channel : RoomId) : Option RoomId :=
  (rows.find? fun row => row.1 = channel).map Prod.snd

/-- The operations of `ChannelStoriesStore`.  The insert is `ON CONFLICT DO
NOTHING`; a value that is not a `str` is refused by the text column. -/
def storeOp (_ : Rooms) (rows : Rows) : (op : StoreOp) → Rows × Option (StoreRes op)
  | .ensureSchema => (rows, some ())
  | .putStoriesRoom (.str channel) room =>
      (if (rows.room channel).isSome then rows else rows ++ [(channel, room)], some ())
  | .putStoriesRoom _ _ => (rows, none)
  | .getStoriesRoom (.str channel) => (rows, some (rows.room channel))
  | .getStoriesRoom _ => (rows, none)

/-- The module as it is registered. -/
def channelStories (frozen : Freezes) : Module Job StoreOp StoreRes Rows where
  onNewEvent := .onNewEvent
  onStartup := [.ensureSchema]
  own := storeOp
  code := code frozen

/-- The homeserver under the module. -/
abbrev World := Synapse.World Rows

/-- The module on a homeserver. -/
abbrev system (frozen : Freezes) (host : PyStr) : System World Ev Bool Job Op Res :=
  (channelStories frozen).system host

/-- A state of the event loop of the module. -/
abbrev State := Loop World Ev Job Op Res

/-- A move of the event loop of the module. -/
abbrev Act := Move Ev Bool

/-- An entry of the log of the module. -/
abbrev LogEntry := Entry World Job Op Res

/-- **An insert keeps what is there:** the room of a channel is the one it had, or,
where it had none, the inserted one. -/
theorem room_putStoriesRoom (rooms : Rooms) (rows : Rows) (channel : RoomId) (room : RoomId)
    (c : RoomId) :
    (storeOp rooms rows (.putStoriesRoom (.str channel) room)).1.room c =
      (rows.room c).or (if c = channel then some room else none) := by
  simp only [storeOp]
  split
  · rename_i hsome
    obtain ⟨r, hr⟩ := Option.isSome_iff_exists.1 hsome
    by_cases hc : c = channel
    · rw [hc, hr]
      rfl
    · rw [if_neg hc, Option.or_none]
  · unfold Rows.room
    rw [List.find?_append]
    by_cases hc : c = channel
    · subst hc
      cases hf : rows.find? fun row => row.1 = c with
      | some row => simp
      | none => simp
    · have hne : ¬channel = c := fun h => hc h.symm
      simp [hc, hne]

end ChannelStories
end Liza
