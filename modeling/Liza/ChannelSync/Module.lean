/-
# The `channel_sync` module

`servers/synapse/modules/channel_sync/__init__.py`: every callback and background
job, as the tasks they are, and `_storage.py`: the table `channel_post_mirror`
with its operations.
-/

import Liza.ChannelSync.Logic
import Liza.Synapse.Server

set_option autoImplicit false

namespace Liza
namespace ChannelSync

open Lib Synapse
open Lib.Task (forEach)

/-- The callback of an event, and the background processes of the module with
their arguments. -/
inductive Job where
  | onNewEvent (event : Event)
  | onStartup
  | onChannelJoin (channel : RoomId) (member : UserId)
  | onChannelLeave (channel : RoomId) (member : UserId)
  | syncDiscussionPrivacy (channel : RoomId) (joinRule : Json)
  | muteForSubscriber (user : UserId) (room : RoomId)
  | cleanupUnlinkedDiscussion (eventId : EventId) (newRoom : Json) (channelDeleted : Bool)
  | mirrorPost (event : Event)
  | mirrorEdit (event : Event) (target : Json)
  | mirrorRedact (event : Event) (redacts : EventId)

/-- The operations of `MirrorStore`. -/
inductive StoreOp where
  | ensureSchema
  | findChannelRooms
  | alreadyMirrored (post : EventId)
  | getMirror (post : Json)
  | putMirror (post mirror : EventId) (room : Json)
  | deleteMirror (post : EventId)
  | deleteByDiscussion (room : Json)

/-- What they answer. -/
@[reducible]
def StoreRes : StoreOp → Type
  | .findChannelRooms => List RoomId
  | .alreadyMirrored _ => Bool
  | .getMirror _ => Option (EventId × RoomId)
  | _ => Unit

/-- What the module awaits. -/
abbrev Op := Synapse.Op Job StoreOp

/-- What an operation answers. -/
abbrev Res := @Synapse.Res Job StoreOp StoreRes

/-- The code of the module. -/
abbrev Code (α : Type) := Synapse.Code Job StoreRes α

/-- `await op`. -/
abbrev call (op : Op) : Code (Res op) := Task.call op

/-- `_channel_type`. -/
abbrev channelType (room : Json) : Code Json := chatType room

/-- `_discussion_room`. -/
def discussionRoom (room : RoomId) : Code Json := do
  let content ← stateContent (.str room) channelDiscussionState
  return discussionRoomOf content

/-- `_channel_join_rule`. -/
def channelJoinRule (room : Json) : Code Json := do
  let content ← stateContent room joinRulesState
  return joinRuleOf content

/-- `_discussion_hidden`. -/
def discussionHidden (room : Json) : Code Json := do
  let content ← stateContent room topologyState
  return match content with
    | none => .null
    | some c => c.get "hidden"

/-- `_history_visibility`. -/
def historyVisibility (room : Json) : Code Json := do
  let content ← stateContent room historyVisibilityState
  return (content.getD []).get "history_visibility"

section

variable (host : PyStr)

/-- `_mute_for_subscriber`. -/
abbrev muteForSubscriber (user : UserId) (room : Json) : Code Unit := muteRoom user room

/-- `_on_channel_join`. -/
def onChannelJoin (channel : RoomId) (member : UserId) : Code Unit := do
  let ai ← isAi host member
  if ai then .ret () else
  let discussion ← discussionRoom channel
  if discussion = .null then .ret () else
  let _ ← muteIfLocal host member discussion
  let joinRule ← channelJoinRule (.str channel)
  if isPublicChannel joinRule then .ret () else
  let owner ← roomCreator discussion
  match owner with
  | none => .ret ()
  | some owner =>
    let hosts ← remoteHosts host member
    attempt (call (.updateRoomMembership owner member discussion .invite hosts))

/-- `_sync_discussion_privacy`. -/
def syncDiscussionPrivacy (channel : RoomId) (joinRule : Json) : Code Unit := do
  let discussion ← discussionRoom channel
  if discussion = .null then .ret () else
  let owner ← roomCreator discussion
  match owner with
  | none => .ret ()
  | some owner =>
    let settings := discussionSettingsFor joinRule
    let _ ← attempt (call (.sendEvent (stateDict discussion owner joinRulesState
      [("join_rule", .str settings.joinRule)])))
    attempt (call (.sendEvent (stateDict discussion owner historyVisibilityState
      [("history_visibility", .str settings.historyVisibility)])))

/-- `[m for m in members if not await self._is_ai(m)]`. -/
def humanMembers : List UserId → Code (List UserId)
  | [] => .ret []
  | m :: ms => do
    let ai ← isAi host m
    let rest ← humanMembers ms
    return if ai then rest else m :: rest

/-- `_channel_snapshot`. -/
def channelSnapshot (channel : RoomId) (discussion : Json) : Code Snapshot := do
  let channelMembers ← call (.usersInRoom (.str channel) .join)
  let human ← humanMembers host channelMembers
  let joined ← call (.usersInRoom discussion .join)
  let invited ← call (.usersInRoom discussion .invite)
  let channelJoinRule' ← channelJoinRule (.str channel)
  let discussionJoinRule ← channelJoinRule discussion
  let discussionHistoryVisibility ← historyVisibility discussion
  let hidden ← discussionHidden discussion
  return {
    channelJoinRule := channelJoinRule'
    discussionJoinRule
    discussionHistoryVisibility
    discussionHidden := hidden
    channelMembers := human
    discussionMembers := joined ++ invited }

/-- `_migrate_channel_visibility`, without the flag it returns for the log. -/
def migrateChannelVisibility (channel : RoomId) : Code Unit := do
  let joinRule ← channelJoinRule (.str channel)
  if !isPublicChannel joinRule then .ret () else
  let visibility ← historyVisibility (.str channel)
  if visibility = .str "world_readable" then .ret () else
  let owner ← roomCreator (.str channel)
  match owner with
  | none => .ret ()
  | some owner => attempt (call (.sendEvent (stateDict (.str channel) owner historyVisibilityState
      [("history_visibility", .str "world_readable")])))

/-- The `state_writes` of a plan. -/
def stateWrites (p : Plan) : List (PyStr × Dict) :=
  (p.setJoinRule.map fun r => (joinRulesState, [(py "join_rule", Json.str r)])).toList ++
    (p.setHistoryVisibility.map fun v =>
      (historyVisibilityState, [(py "history_visibility", Json.str v)])).toList ++
    if p.setHidden then [(topologyState, [(py "hidden", Json.bool true)])] else []

/-- `_migrate_one_channel`, without the flag it returns for the log. -/
def migrateOneChannel (channel : RoomId) : Code Unit := do
  let discussion ← discussionRoom channel
  if discussion = .null then .ret () else
  let owner ← roomCreator discussion
  match owner with
  | none => .ret ()
  | some owner =>
    let snapshot ← channelSnapshot host channel discussion
    let plan := planDiscussionMigration snapshot
    if planIsNoop plan then .ret () else
    let _ ← forEach (fun w => attempt (call (.sendEvent (stateDict discussion owner w.1 w.2))))
      (stateWrites plan)
    forEach (fun member => do
      let hosts ← remoteHosts host member
      attempt (call (.updateRoomMembership owner member discussion .invite hosts))) plan.invite

/-- `_migrate_channel_discussions`: a channel that raises does not stop the
others. -/
def migrateChannelDiscussions : Code Unit := do
  let channels ← (call (.own .findChannelRooms)).orElse (.ret [])
  forEach (fun channel => attempt do
    let _ ← migrateChannelVisibility channel
    let _ ← migrateOneChannel host channel
    call .sleep) channels

/-- `_on_startup`. -/
def onStartup : Code Unit := do
  let _ ← attempt (call (.own .ensureSchema))
  migrateChannelDiscussions host

/-- `_on_channel_leave`. -/
def onChannelLeave (channel : RoomId) (member : UserId) : Code Unit := do
  let discussion ← discussionRoom channel
  if discussion = .null then .ret () else
  let owner ← roomCreator discussion
  match owner with
  | none => .ret ()
  | some owner => attempt (call (.updateRoomMembership owner member discussion .leave none))

/-- `_cleanup_unlinked_discussion`; the `.get` on a `prev_content` is never
refused, contents being objects. -/
def cleanupUnlinkedDiscussion (eventId : EventId) (newRoom : Json) (channelDeleted : Bool) :
    Code Unit := do
  let stored ← (call (.prevContent eventId) >>= fun c => .ret (some c)).orElse (.ret none)
  match stored with
  | none => .ret ()
  | some prev =>
    let prevRoom := (prev.getD []).get "room_id"
    if shouldCleanupMappings prevRoom newRoom channelDeleted then
      call (.own (.deleteByDiscussion prevRoom))
    else .ret ()

/-- `_ensure_author_in_discussion`. -/
def ensureAuthorInDiscussion (author : UserId) (discussion : Json) : Code Bool := do
  let owner ← roomCreator discussion
  match owner with
  | none => .ret false
  | some owner =>
    let hosts := (split1 (codePoint ':') author).2.map fun server => [server]
    let _ ← attempt (call (.updateRoomMembership owner author discussion .invite hosts))
    (call (.updateRoomMembership author author discussion .join hosts) >>=
      fun _ => .ret true).orElse (.ret false)

/-- `_send_mirror`. -/
def sendMirror (sender : UserId) (discussion : Json) (content : Dict) : Code EventId :=
  call (.sendEvent
    { type := "m.room.message", room := discussion, sender, stateKey := none, content,
      redacts := none })

/-- `_send_mirror` with its exception caught. -/
def trySendMirror (sender : UserId) (discussion : Json) (content : Dict) :
    Code (Option EventId) :=
  (sendMirror sender discussion content >>= fun id => .ret (some id)).orElse (.ret none)

/-- `_mirror_post`. -/
def mirrorPost (event : Event) : Code Unit := do
  let done ← call (.own (.alreadyMirrored event.eventId))
  if done then .ret () else
  let discussion ← discussionRoom event.roomId
  if discussion = .null then .ret () else
  let content := buildMirrorContent event.content event.roomId event.eventId
  let first ← trySendMirror event.sender discussion content
  match first with
  | some mirror => call (.own (.putMirror event.eventId mirror discussion))
  | none =>
    let joined ← ensureAuthorInDiscussion event.sender discussion
    if !joined then .ret () else
    let second ← trySendMirror event.sender discussion content
    match second with
    | some mirror => call (.own (.putMirror event.eventId mirror discussion))
    | none => .ret ()

/-- One item of the argument of `dict(…)`: a pair with a string key. -/
def dictItem : Json → Option (PyStr × Json)
  | .arr [.str k, v] => some (k, v)
  | .str [a, b] => some ([a], .str [b])
  | .obj [(k, _), (l, _)] => some (k, .str l)
  | _ => none

/-- `dict(v or {})`.  A list of pairs is a dictionary too; one with a key that is
not a string cannot be sent, which is counted as the exception here. -/
def dictOf : Json → Option Dict
  | .obj d => some d
  | .arr l => (l.mapM dictItem).map (Dict.update [])
  | v => if v.truthy then none else some []

/-- `_mirror_edit`. -/
def mirrorEdit (event : Event) (target : Json) : Code Unit := do
  let mapping ← call (.own (.getMirror target))
  match mapping with
  | none => .ret ()
  | some (mirror, discussion) =>
    match dictOf (event.content.get "m.new_content") with
    | none => .raised
    | some new =>
      let content := new.set relates
        (.obj [("rel_type", .str "m.replace"), ("event_id", .str mirror)])
      attempt (call (.sendEvent
        { type := "m.room.message", room := .str discussion, sender := event.sender,
          stateKey := none, content, redacts := none }))

/-- `_mirror_redact`. -/
def mirrorRedact (event : Event) (redacts : EventId) : Code Unit := do
  let mapping ← call (.own (.getMirror (.str redacts)))
  match mapping with
  | none => .ret ()
  | some (mirror, discussion) =>
    let sent ← (call (.sendEvent
      { type := "m.room.redaction", room := .str discussion, sender := event.sender,
        stateKey := none, content := [], redacts := some mirror }) >>=
      fun _ => .ret true).orElse (.ret false)
    if sent then call (.own (.deleteMirror redacts)) else .ret ()

/-- `_on_new_event`.  `event.state_key` raises on an event without one. -/
def onNewEvent (event : Event) : Code Unit :=
  let room := Json.str event.roomId
  if isMembershipLeave event.type event.content then
    match event.stateKey with
    | none => .raised
    | some user =>
      if user.isEmpty then .ret () else do
        let chatType ← channelType room
        if chatType = .str channelTypeName then
          call (.background (.onChannelLeave event.roomId user))
        else .ret ()
  else if event.type = py "m.room.member" ∧ event.content.get "membership" = .str "join" then do
    let chatType ← channelType room
    match event.stateKey with
    | none => .raised
    | some user =>
      if chatType = .str discussionChatType then
        if !user.isEmpty && isMine host user then
          call (.background (.muteForSubscriber user event.roomId))
        else .ret ()
      else if chatType = .str channelTypeName ∧ user ≠ [] then
        call (.background (.onChannelJoin event.roomId user))
      else .ret ()
  else if event.type = channelDiscussionState then do
    let chatType ← channelType room
    if chatType = .str channelTypeName then
      call (.background (.cleanupUnlinkedDiscussion event.eventId
        (discussionRoomOf (some event.content)) (channelDeletedOf (some event.content))))
    else .ret ()
  else if event.type = joinRulesState then do
    let chatType ← channelType room
    let joinRule := joinRuleOf (some event.content)
    if chatType = .str channelTypeName ∧ joinRule.truthy then
      call (.background (.syncDiscussionPrivacy event.roomId joinRule))
    else .ret ()
  else if isRootPost event.type event.content then do
    let chatType ← channelType room
    if chatType = .str channelTypeName then call (.background (.mirrorPost event)) else .ret ()
  else if event.type = py "m.room.message" then
    match isEdit event.content, editedEventId event.content with
    | some true, some target => do
      let chatType ← channelType room
      if chatType = .str channelTypeName ∧ target.truthy then
        call (.background (.mirrorEdit event target))
      else .ret ()
    | some _, _ => .ret ()
    | none, _ => .raised
  else if event.type = py "m.room.redaction" then do
    let chatType ← channelType room
    match event.redacts with
    | some target =>
      if chatType = .str channelTypeName ∧ target ≠ [] then
        call (.background (.mirrorRedact event target))
      else .ret ()
    | none => .ret ()
  else .ret ()

/-- The code of every job. -/
def code : Job → Code Unit
  | .onNewEvent e => onNewEvent host e
  | .onStartup => onStartup host
  | .onChannelJoin c m => onChannelJoin host c m
  | .onChannelLeave c m => onChannelLeave c m
  | .syncDiscussionPrivacy c r => syncDiscussionPrivacy c r
  | .muteForSubscriber u room => muteForSubscriber u (.str room)
  | .cleanupUnlinkedDiscussion id new deleted => cleanupUnlinkedDiscussion id new deleted
  | .mirrorPost e => mirrorPost e
  | .mirrorEdit e target => mirrorEdit e target
  | .mirrorRedact e target => mirrorRedact e target

end

/-- A row of `channel_post_mirror`. -/
structure MirrorRow where
  post : EventId
  mirror : EventId
  room : RoomId
deriving DecidableEq

/-- The operations of `MirrorStore` on its rows.  `find_channel_rooms` reads the
creation events of the rooms; a value that is not a `str` is no text column. -/
def storeOp (rooms : Rooms) (rows : List MirrorRow) :
    (op : StoreOp) → List MirrorRow × Option (StoreRes op)
  | .ensureSchema => (rows, some ())
  | .findChannelRooms =>
      (rows, some (rooms.ids.filter fun r =>
        (((rooms.state r createState []).map StateEvent.content).getD []).get chatTypeKey =
          .str channelTypeName))
  | .alreadyMirrored post => (rows, some (rows.any fun row => row.post = post))
  | .getMirror post =>
      (rows, some ((rows.find? fun row => .str row.post = post).map
        fun row => (row.mirror, row.room)))
  | .putMirror post mirror (.str room) =>
      (if rows.any fun row => row.post = post then rows else rows ++ [⟨post, mirror, room⟩],
        some ())
  | .putMirror _ _ _ => (rows, none)
  | .deleteMirror post => (rows.filter fun row => row.post ≠ post, some ())
  | .deleteByDiscussion room => (rows.filter fun row => .str row.room ≠ room, some ())

/-- The module as it is registered. -/
def channelSync : Module Job StoreOp StoreRes (List MirrorRow) where
  onNewEvent := .onNewEvent
  onStartup := [.onStartup]
  own := storeOp
  code := code

/-- The homeserver under the module. -/
abbrev World := Synapse.World (List MirrorRow)

/-- The module on a homeserver. -/
abbrev system (host : PyStr) : System World Ev Bool Job Op Res := channelSync.system host

/-- A state of the event loop of the module. -/
abbrev State := Loop World Ev Job Op Res

/-- A move of the event loop of the module. -/
abbrev Act := Move Ev Bool

/-- The homeserver with the given state and members, and no mirrored post. -/
def worldOf (state : List (RoomId × PyStr × StateEvent))
    (members : List (RoomId × UserId × Membership)) : World :=
  World.ofLists [] state members

/-- The room that the `com.liza.channel.discussion` of a channel names. -/
def World.link (w : World) (room : RoomId) : Json :=
  discussionRoomOf ((w.rooms.state room channelDiscussionState []).map StateEvent.content)

/-- The join rule of a room. -/
def World.joinRule (w : World) (room : RoomId) : Json :=
  joinRuleOf ((w.rooms.state room joinRulesState []).map StateEvent.content)

/-- The history visibility of a room. -/
def World.historyVisibility (w : World) (room : RoomId) : Json :=
  (((w.rooms.state room historyVisibilityState []).map StateEvent.content).getD []).get
    "history_visibility"

end ChannelSync
end Liza
