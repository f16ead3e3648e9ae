/-
# The pure predicates of `channel_sync`

`servers/synapse/modules/channel_sync/_logic.py`, function by function.  Python's
`None` is `Json.null` (`Dict.get`), and a function that raises returns `none`.
-/

import Liza.Synapse.Rooms

set_option autoImplicit false

namespace Liza
namespace ChannelSync

open Lib Synapse

/-- `com.liza.channel.discussion`, in a channel: the room its comments go to. -/
def channelDiscussionState : PyStr := "com.liza.channel.discussion"

/-- `com.liza.channel.parent`, in a discussion room: the channel it belongs to. -/
def channelParentState : PyStr := "com.liza.channel.parent"

/-- `com.liza.channel.post_ref`. -/
def postRefKey : PyStr := "com.liza.channel.post_ref"

/-- The `com.liza.chat.type` of a discussion room. -/
def discussionChatType : PyStr := "channel_discussion"

/-- `m.room.join_rules`. -/
def joinRulesState : PyStr := "m.room.join_rules"

/-- `m.room.history_visibility`. -/
def historyVisibilityState : PyStr := "m.room.history_visibility"

/-- `com.liza.chat.topology`. -/
def topologyState : PyStr := "com.liza.chat.topology"

/-- `m.relates_to`. -/
def relates : PyStr := "m.relates_to"

/-- A root post: an `m.room.message` without a relation. -/
def isRootPost (eventType : PyStr) (content : Dict) : Bool :=
  eventType = py "m.room.message" && !content.contains relates

/-- `content.get("m.relates_to") or {}`; `none` where the later `.get` on it
raises, the relation being neither empty nor an object. -/
def relation (content : Dict) : Option Dict :=
  match content.get relates with
  | .obj rel => some rel
  | v => if v.truthy then none else some []

/-- `is_edit`. -/
def isEdit (content : Dict) : Option Bool :=
  (relation content).map fun rel => rel.get "rel_type" = .str "m.replace"

/-- `edited_event_id`. -/
def editedEventId (content : Dict) : Option Json :=
  (relation content).map fun rel =>
    if rel.get "rel_type" = .str "m.replace" then rel.get "event_id" else .null

/-- `discussion_room_of`: the `room_id` of the link, `None` without one. -/
def discussionRoomOf (content : Option Dict) : Json :=
  match content with
  | none => .null
  | some c => c.get "room_id"

/-- `channel_deleted_of`: only the literal `true` counts. -/
def channelDeletedOf (content : Option Dict) : Bool :=
  match content with
  | none => false
  | some c => c.get "deleted" = .bool true

/-- `should_cleanup_mappings`. -/
def shouldCleanupMappings (prevRoom newRoom : Json) (channelDeleted : Bool) : Bool :=
  if !prevRoom.truthy then false
  else if channelDeleted then true
  else newRoom ≠ .null && newRoom ≠ prevRoom

/-- `build_mirror_content`: the post with a reference back to it. -/
def buildMirrorContent (post : Dict) (channelId : RoomId) (postEventId : EventId) : Dict :=
  post.set postRefKey (.obj [("channel_id", .str channelId), ("post_event_id", .str postEventId)])

/-- `join_rule_of`. -/
def joinRuleOf (content : Option Dict) : Json :=
  match content with
  | none => .null
  | some c => c.get "join_rule"

/-- `is_public_channel`. -/
def isPublicChannel (joinRule : Json) : Bool := joinRule = .str "public"

/-- `is_membership_leave`: a membership event that takes access away. -/
def isMembershipLeave (eventType : PyStr) (content : Dict) : Bool :=
  eventType = py "m.room.member" &&
    (content.get "membership" = .str "leave" || content.get "membership" = .str "ban")

/-- The settings of a discussion room. -/
structure Settings where
  joinRule : PyStr
  historyVisibility : PyStr
deriving DecidableEq

/-- `discussion_settings_for`: an open channel has an open chat, and every other
rule, unknown ones included, a closed one. -/
def discussionSettingsFor (channelJoinRule : Json) : Settings :=
  if isPublicChannel channelJoinRule then ⟨"public", "world_readable"⟩ else ⟨"invite", "shared"⟩

/-- The snapshot that `plan_discussion_migration` decides on. -/
structure Snapshot where
  channelJoinRule : Json
  discussionJoinRule : Json
  discussionHistoryVisibility : Json
  discussionHidden : Json
  channelMembers : List UserId
  discussionMembers : List UserId

/-- What a migration has to change. -/
structure Plan where
  setJoinRule : Option PyStr
  setHistoryVisibility : Option PyStr
  setHidden : Bool
  invite : List UserId

/-- `plan_discussion_migration`. -/
def planDiscussionMigration (s : Snapshot) : Plan :=
  let wanted := discussionSettingsFor s.channelJoinRule
  { setJoinRule :=
      if s.discussionJoinRule ≠ .str wanted.joinRule then some wanted.joinRule else none
    setHistoryVisibility :=
      if s.discussionHistoryVisibility ≠ .str wanted.historyVisibility then
        some wanted.historyVisibility
      else none
    setHidden := s.discussionHidden ≠ .bool true
    invite :=
      if isPublicChannel s.channelJoinRule then []
      else s.channelMembers.filter fun m => m ∉ s.discussionMembers }

/-- `plan_is_noop`. -/
def planIsNoop (p : Plan) : Bool :=
  p.setJoinRule.isNone && p.setHistoryVisibility.isNone && !p.setHidden && p.invite.isEmpty

/-- The settings depend on the openness of the rule only. -/
theorem discussionSettingsFor_congr {r r' : Json} (h : isPublicChannel r = isPublicChannel r') :
    discussionSettingsFor r = discussionSettingsFor r' := by
  unfold discussionSettingsFor
  rw [h]

end ChannelSync
end Liza
