/-
# Two tests for a direct chat

`block_guard` and `stories_membership` both ask whether a room is among the direct chats of a
user, in the account data that `get_global` returns.  The one asks whether it is a mapping of
sequences, the other whether it is a `dict` of `list`s, and a frozen value never is: the other
test finds no direct chat at all (`registers_freeze`), though on values that are not frozen it
finds the same ones (`registers_plain`).  The two agree on a room exactly when it is not listed
(`direct_tests_agree_iff`).
-/

import Liza.BlockGuard.Module

set_option autoImplicit false

namespace Liza
namespace BlockGuard

open Lib Synapse
open StoriesMembership (PyVal freeze freezeList freezeItems hasRoom registers)

mutual

/-- A value as `json.loads` returns it, not frozen. -/
def plain : Json → PyVal
  | .obj d => .dict (plainItems d)
  | .arr l => .list (plainList l)
  | v => .scalar v

/-- The elements of a list. -/
def plainList : List Json → List PyVal
  | [] => []
  | v :: l => plain v :: plainList l

/-- The items of a dictionary. -/
def plainItems : List (PyStr × Json) → List (PyStr × PyVal)
  | [] => []
  | (k, v) :: d => (k, plain v) :: plainItems d

end

/-- `_room_is_registered_dm`, with what `get_global` returns. -/
def roomIsRegisteredDm (host : PyStr) (user : UserId) (room : RoomId) (direct : PyVal) : Bool :=
  if room = [] || !isMine host user then false else registers room direct

/-- The callback of `stories_membership` asks this of the frozen account data. -/
theorem roomIsRegisteredDm_freeze (cfg : StoriesMembership.Config) (w : StoriesMembership.World)
    (user : UserId) (room : RoomId) : StoriesMembership.roomIsRegisteredDm cfg w user room =
      roomIsRegisteredDm cfg.host user room (freeze ((w.direct user).elim .null .obj)) := rfl

/-- The stored value lists the room: it is an object, and the room is in a list of it. -/
def Listed (stored : Json) (room : RoomId) : Prop :=
  ∃ d, stored = .obj d ∧ ∃ e ∈ d, ∃ rooms, e.2 = .arr rooms ∧ Json.str room ∈ rooms

section Listed

variable {room : RoomId} {l : List Json} {d : Dict} {v : Json}

/-- What `freeze` and `plain` share, and the test of `block_guard` reads: a list is a sequence,
an object is a mapping, nothing else is either, and a string stays what it is. -/
structure Encodes (enc : Json → PyVal) : Prop where
  str : ∀ v room, hasRoom room [enc v] = true ↔ v = .str room
  sequence : ∀ v, isSequence (enc v) = true ↔ ∃ l, v = .arr l
  elements : ∀ l, elements (enc (.arr l)) = l.map enc
  mapping : ∀ v, isMapping (enc v) = true ↔ ∃ d, v = .obj d
  items : ∀ d, items (enc (.obj d)) = d.map fun e => (e.1, enc e.2)

theorem freezeList_eq (l : List Json) : freezeList l = l.map freeze := by
  induction l with
  | nil => rfl
  | cons v l ih =>
      rw [List.map_cons, ← ih]
      rfl

theorem plainList_eq (l : List Json) : plainList l = l.map plain := by
  induction l with
  | nil => rfl
  | cons v l ih =>
      rw [List.map_cons, ← ih]
      rfl

theorem freezeItems_eq (d : Dict) : freezeItems d = d.map fun e => (e.1, freeze e.2) := by
  induction d with
  | nil => rfl
  | cons e d ih =>
      rw [List.map_cons, ← ih]
      rfl

theorem plainItems_eq (d : Dict) : plainItems d = d.map fun e => (e.1, plain e.2) := by
  induction d with
  | nil => rfl
  | cons e d ih =>
      rw [List.map_cons, ← ih]
      rfl

theorem encodes_freeze : Encodes freeze where
  str v room := by cases v <;> simp [freeze, hasRoom]
  sequence v := by cases v <;> simp [freeze, isSequence]
  elements := freezeList_eq
  mapping v := by cases v <;> simp [freeze, isMapping]
  items := freezeItems_eq

theorem encodes_plain : Encodes plain where
  str v room := by cases v <;> simp [plain, hasRoom]
  sequence v := by cases v <;> simp [plain, isSequence]
  elements := plainList_eq
  mapping v := by cases v <;> simp [plain, isMapping]
  items := plainItems_eq

namespace Encodes

variable {enc : Json → PyVal} (E : Encodes enc)

include E

theorem hasRoom_map : hasRoom room (l.map enc) = true ↔ Json.str room ∈ l := by
  induction l with
  | nil => simp [hasRoom]
  | cons v l ih =>
      have hcons : hasRoom room ((v :: l).map enc) =
          (hasRoom room [enc v] || hasRoom room (l.map enc)) := by
        simp [hasRoom]
      rw [hcons, Bool.or_eq_true, E.str, ih, List.mem_cons, eq_comm]

/-- A value is a sequence with the room exactly when it is a list with it. -/
theorem sequence_with :
    (isSequence (enc v) && hasRoom room (BlockGuard.elements (enc v))) = true ↔
      ∃ rooms, v = .arr rooms ∧ Json.str room ∈ rooms := by
  rw [Bool.and_eq_true, E.sequence]
  constructor
  · rintro ⟨⟨rooms, rfl⟩, hroom⟩
    rw [E.elements, E.hasRoom_map] at hroom
    exact ⟨rooms, rfl, hroom⟩
  · rintro ⟨rooms, rfl, hroom⟩
    rw [E.elements, E.hasRoom_map]
    exact ⟨⟨rooms, rfl⟩, hroom⟩

/-- **`room_is_direct_for` finds the rooms that are listed**, whether the value is frozen or
not. -/
theorem roomIsDirectFor_iff : roomIsDirectFor (enc v) room = true ↔
    room ≠ [] ∧ Listed v room := by
  unfold roomIsDirectFor
  by_cases hroom : room = []
  · simp [hroom]
  by_cases hmapping : isMapping (enc v) = true
  · obtain ⟨d, rfl⟩ := (E.mapping v).1 hmapping
    simp only [hmapping, hroom, Bool.not_true, Bool.false_or, decide_false, Bool.false_eq_true,
      if_false, E.items, List.any_map, List.any_eq_true, Function.comp_def, E.sequence_with]
    unfold Listed
    simp [hroom]
  · have hnot : ¬Listed v room := fun ⟨d, hd, _⟩ => hmapping ((E.mapping v).2 ⟨d, hd⟩)
    simp [hmapping, hnot]

end Encodes

/-- No frozen value is a `dict`. -/
theorem registers_freeze : registers room (freeze v) = false := by
  cases v <;> rfl

/-- Where the value is not frozen, `_room_is_registered_dm` finds the rooms that are listed, too. -/
theorem registers_plain : registers room (plain v) = true ↔ Listed v room := by
  unfold Listed
  cases v with
  | obj d =>
      simp only [plain, registers, plainItems_eq, List.any_map, List.any_eq_true, Json.obj.injEq,
        exists_eq_left']
      refine exists_congr fun e => and_congr_right fun _ => ?_
      cases h : e.2 <;> simp [plain, h, plainList_eq, encodes_plain.hasRoom_map]
  | _ => simp [plain, registers]

end Listed

/-- **When the two tests for a direct chat agree.**  For every value stored as `m.direct` of a
user: `_room_is_registered_dm` of the frozen value is what `room_is_direct_for` returns for the
frozen value and for the value that is not frozen exactly when the value does not list the room.
-/
theorem direct_tests_agree_iff (host : PyStr) (user : UserId) (room : RoomId) (stored : Json) :
    (roomIsRegisteredDm host user room (freeze stored) = roomIsDirectFor (freeze stored) room ∧
        roomIsRegisteredDm host user room (freeze stored) = roomIsDirectFor (plain stored) room) ↔
      room = [] ∨ ¬Listed stored room := by
  have hregistered : roomIsRegisteredDm host user room (freeze stored) = false := by
    unfold roomIsRegisteredDm
    rw [registers_freeze, ite_self]
  rw [hregistered, eq_comm, eq_comm (a := false), ← Bool.not_eq_true, ← Bool.not_eq_true,
    encodes_freeze.roomIsDirectFor_iff, encodes_plain.roomIsDirectFor_iff, and_self_iff]
  tauto

/-- A direct chat of Alice that only one of the tests finds. -/
theorem listed_disagree :
    let stored : Json := .obj [(py "@bob:h", .arr [.str "!dm:h"])]
    isMine (py "h") "@alice:h" = true ∧
      roomIsRegisteredDm (py "h") "@alice:h" "!dm:h" (freeze stored) = false ∧
      roomIsDirectFor (freeze stored) "!dm:h" = true ∧
      roomIsDirectFor (plain stored) "!dm:h" = true := by
  decide

end BlockGuard
end Liza
