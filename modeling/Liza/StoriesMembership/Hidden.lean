/-
# Which rooms are hidden

Whether a room is hidden is decided in four places, from the content of its
`com.liza.chat.topology` state and, where there is none, from its creation content:

* `is_hidden_room` of `servers/synapse/modules/stories_membership/_logic.py`;
* `HiddenRoomsLookup` of `servers/synapse/modules/chat_topology_sync_gate/_storage.py`, room
  by room;
* `is_hidden_room` of `servers/synapse/modules/access_admin/_logic.py`, as
  `build_dossier_groups` of `_dossier.py` calls it;
* `isHiddenChat` of `clients/flutter/lib/utils/chat_topology.dart`.

Comments in each demand that they decide alike.  The three of the server do.  The client
reads the type of the chat first and the older key only where there is none.
-/

import Liza.SyncGate.Storage

set_option autoImplicit false

namespace Liza
namespace StoriesMembership

open Lib Synapse

/-- `STORIES_TAG`, `LEGACY_STORIES_KEY` and `_legacyStoriesKey`. -/
def storiesTag : PyStr := "com.liza.stories"

/-- `CHAT_TYPE_KEY` and `_chatTypeKey`. -/
def chatTypeKey : PyStr := "com.liza.chat.type"

/-- `is_hidden_room` of `stories_membership`. -/
def isHiddenRoom (create topology : Option Dict) : Bool :=
  match topology with
  | some topology => topology.get "hidden" = .bool true
  | none =>
      match create with
      | none => false
      | some create =>
          create.get storiesTag = .bool true || create.get chatTypeKey = .str "stories"

/-- The decision of `HiddenRoomsLookup` for a room. -/
def lookupHides (create topology : Option Dict) : Bool :=
  match topology with
  | some topology => topology.get "hidden" = .bool true
  | none =>
      match create with
      | none => false
      | some create =>
          create.get "com.liza.stories" = .bool true ||
            create.get "com.liza.chat.type" = .str "stories"

/-- `is_hidden_room` of `access_admin`. -/
def accessHides (topology : Option Dict) (chatType : Json) (legacyStories : Bool) : Bool :=
  match topology with
  | some topology => topology.get "hidden" = .bool true
  | none => legacyStories || chatType = .str "stories"

/-- The same with what `build_dossier_groups` reads from the creation content. -/
def dossierHides (create topology : Option Dict) : Bool :=
  let create := create.getD []
  accessHides topology (create.get chatTypeKey) (create.get storiesTag = .bool true)

/-- `lizaChatType`. -/
def lizaChatType : Option Dict → Option PyStr
  | none => none
  | some create =>
      match create.get chatTypeKey with
      | .str type => some type
      | _ => if create.get storiesTag = .bool true then some "stories" else none

/-- `isHiddenChat`, for a room that the user has not revealed to himself. -/
def isHiddenChat (create topology : Option Dict) : Bool :=
  match topology with
  | some topology => topology.get "hidden" = .bool true
  | none => lizaChatType create = some "stories"

/-- The older key says that the room is one of stories, and the type of the chat says
that it is something else. -/
def contradicts (create : Dict) : Bool :=
  create.get storiesTag = .bool true &&
    match create.get chatTypeKey with
    | .str type => type ≠ py "stories"
    | _ => false

/-- The lookup decides by the current state of the room. -/
theorem isHidden_eq_lookupHides (rooms : Rooms) (room : RoomId) :
    SyncGate.isHidden rooms room =
      lookupHides ((rooms.state room "m.room.create" "").map StateEvent.content)
        ((rooms.state room SyncGate.topologyState "").map StateEvent.content) := by
  unfold SyncGate.isHidden lookupHides
  cases rooms.state room SyncGate.topologyState "" with
  | some topology => rfl
  | none =>
      cases rooms.state room "m.room.create" "" with
      | none => rfl
      | some create => rfl

theorem isHiddenRoom_eq_lookupHides (create topology : Option Dict) :
    isHiddenRoom create topology = lookupHides create topology := rfl

theorem dossierHides_eq_lookupHides (create topology : Option Dict) :
    dossierHides create topology = lookupHides create topology := by
  cases topology with
  | some topology => rfl
  | none =>
      cases create with
      | none => rfl
      | some create => rfl

/-- Without topology state, the client decides as the lookup does unless the two keys
contradict each other. -/
theorem isHiddenChat_eq_iff (create : Dict) :
    isHiddenChat (some create) none = lookupHides (some create) none ↔
      contradicts create = false := by
  show (decide (lizaChatType (some create) = some (py "stories"))) =
    (decide (create.get storiesTag = .bool true) || decide (create.get chatTypeKey = .str "stories")) ↔ _
  unfold contradicts lizaChatType
  by_cases hlegacy : create.get storiesTag = .bool true
  · cases htype : create.get chatTypeKey with
    | str type =>
        by_cases hstories : type = py "stories"
        · simp [htype, hlegacy, hstories]
        · simp [htype, hlegacy, hstories]
    | _ => simp [htype, hlegacy]
  · cases htype : create.get chatTypeKey with
    | str type => simp [htype, hlegacy]
    | _ => simp [htype, hlegacy]

/-- **When the four decide alike.**  For every creation content and every topology
content, each present or not: the four predicates agree exactly when there is topology
state, or the creation content does not both say by the older key that the room is one of
stories and give it another type. -/
theorem hidden_predicates_agree_iff (create topology : Option Dict) :
    (isHiddenRoom create topology = lookupHides create topology ∧
      lookupHides create topology = dossierHides create topology ∧
      dossierHides create topology = isHiddenChat create topology) ↔
      (topology = none → ∀ c, create = some c → contradicts c = false) := by
  rw [dossierHides_eq_lookupHides, isHiddenRoom_eq_lookupHides]
  cases topology with
  | some topology =>
      have hsame : lookupHides create (some topology) = isHiddenChat create (some topology) := rfl
      simp [hsame]
  | none =>
      cases create with
      | none =>
          have hsame : lookupHides none none = isHiddenChat none none := rfl
          simp [hsame]
      | some create =>
          have h := isHiddenChat_eq_iff create
          constructor
          · rintro ⟨-, -, heq⟩ - c hc
            obtain rfl := Option.some.inj hc
            exact h.1 heq.symm
          · intro hc
            exact ⟨rfl, rfl, (h.2 (hc rfl create rfl)).symm⟩

/-- The creation content of a channel that has the older key, too. -/
def taggedChannel : Dict :=
  [("com.liza.stories", .bool true), ("com.liza.chat.type", .str "channel")]

/-- **A channel with the older key is hidden by the server and shown by the client.** -/
theorem taggedChannel_disagree :
    lookupHides (some taggedChannel) none = true ∧ isHiddenChat (some taggedChannel) none = false ∧
      ¬(isHiddenRoom (some taggedChannel) none = lookupHides (some taggedChannel) none ∧
        lookupHides (some taggedChannel) none = dossierHides (some taggedChannel) none ∧
        dossierHides (some taggedChannel) none = isHiddenChat (some taggedChannel) none) := by
  decide

end StoriesMembership
end Liza
