/-
# Power levels in the auth rules

`synapse/event_auth.py`: `get_user_power_level` and the rules that an `m.room.create` and an
`m.room.power_levels` event have to pass whatever else the state of the room is
(`_check_create`, `_check_power_levels`), with `is_creator` of `synapse/events/__init__.py`.
The rules that compare power levels with the current ones only refuse more.

A room version is the flags of it that are read here.  The content of an event is a dictionary,
and with `use_frozen_dicts` a frozen one, with all the mappings in it.  What `int` makes of a
string or a float is a parameter (`PyInt`); `none` stands for an exception.
-/

import Liza.Lib.Json
import Liza.Lib.PyOps
import Mathlib.Algebra.Ring.Int.Defs

set_option autoImplicit false

namespace Liza
namespace Synapse
namespace EventAuth

open Lib

/-! ### `int` -/

/-- What `int` makes of a string, and of a float, given by its `repr`. -/
structure PyInt where
  ofStr : PyStr → Option ℤ
  ofFloat : PyStr → Option ℤ

/-- `int(v)`. -/
def PyInt.int (p : PyInt) : Json → Option ℤ
  | .bool b => some (if b then 1 else 0)
  | .int n => some n
  | .float repr => p.ofFloat repr
  | .str s => p.ofStr s
  | _ => none

/-! ### Events -/

/-- The flags of a room version. -/
structure RoomVersion where
  msc4289CreatorPowerEnabled : Bool
  implicitRoomCreator : Bool
  enforceIntPowerLevels : Bool

/-- An `m.room.create` event. -/
structure CreateEvent where
  roomVersion : RoomVersion
  sender : PyStr
  content : Dict

/-- The content of an event, plain or frozen. -/
structure Content where
  frozen : Bool
  dict : Dict

/-- `CREATOR_POWER_LEVEL`. -/
def creatorPowerLevel : ℤ := 2 ^ 53

/-- `set(v)`: the members of a list, the characters of a string, or the keys of a mapping. -/
def pySet : Json → Option (List Json)
  | .arr l => if l.all Json.hashable then some l else none
  | .str s => some (s.map fun c => .str [c])
  | .obj d => some (d.map fun e => .str e.1)
  | _ => none

/-- `is_creator`. -/
def isCreator (create : CreateEvent) (user : PyStr) : Option Bool :=
  if create.sender = user then some true
  else if create.roomVersion.msc4289CreatorPowerEnabled then
    (pySet ((Dict.get? create.content "additional_creators").getD (.arr []))).map
      fun creators => Json.str user ∈ creators
  else some false

/-- `v.get(key)` of a mapping, `none` for an `AttributeError`. -/
def getOf (v : Json) (key : PyStr) : Option Json :=
  match v with
  | .obj d => some (Dict.get d key)
  | _ => none

/-- The user is a creator, in a room version where creators have power. -/
def hasCreatorPower (create : CreateEvent) (user : PyStr) : Option Bool :=
  if create.roomVersion.msc4289CreatorPowerEnabled then isCreator create user else some false

/-- The level in the content of `m.room.power_levels`. -/
def levelIn (p : PyInt) (content : Content) (user : PyStr) : Option ℤ := do
  let level ← getOf ((Dict.get? content.dict "users").getD (.obj [])) user
  let level := if level = .null then
    (Dict.get? content.dict "users_default").getD (.int 0) else level
  if level = .null then some 0 else p.int level

/-- The creator of a room; `none` for a `KeyError`. -/
def roomCreator (create : CreateEvent) : Option Json :=
  if create.roomVersion.implicitRoomCreator then some (.str create.sender)
  else Dict.get? create.content "creator"

/-- `get_user_power_level`: without power levels the creator has 100 and everyone else 0. -/
def getUserPowerLevel (p : PyInt) (create : CreateEvent) (powerLevels : Option Content)
    (user : PyStr) : Option ℤ := do
  let creator ← hasCreatorPower create user
  if creator then some creatorPowerLevel
  else
    match powerLevels with
    | some content => levelIn p content user
    | none => (roomCreator create).map fun creator => if creator = .str user then 100 else 0

/-! ### What is accepted -/

/-- `_check_create`, as far as power levels depend on it. -/
def checkCreate (create : CreateEvent) : Bool :=
  (create.roomVersion.implicitRoomCreator || Dict.contains create.content "creator") &&
    (!create.roomVersion.msc4289CreatorPowerEnabled ||
      match Dict.get? create.content "additional_creators" with
      | none => true
      | some (.arr l) => l.all Json.isStr
      | some _ => false)

/-- `UserID.from_string` returns. -/
def userIdFromString (s : PyStr) : Bool :=
  match s with
  | [] => false
  | c :: rest => c = codePoint '@' ∧ (split1 (codePoint ':') rest).2.isSome

/-- The keys with a level, and those with a mapping to levels. -/
def levelKeys : List PyStr :=
  ["users_default", "events_default", "state_default", "ban", "redact", "kick", "invite"]

/-- The keys with a mapping to levels. -/
def mappingKeys : List PyStr := ["events", "notifications", "users"]

/-- `type(v) is int`. -/
def isInt : Json → Bool
  | .int _ => true
  | _ => false

/-- One item of the content, where levels have to be integers. -/
def intLevels (e : PyStr × Json) : Bool :=
  (e.1 ∉ levelKeys ∨ isInt e.2) &&
    (e.1 ∉ mappingKeys ||
      match e.2 with
      | .obj d => d.all fun f => isInt f.2
      | _ => false)

/-- `_check_power_levels`, up to the comparison with the current power levels. -/
def checkPowerLevels (p : PyInt) (create : CreateEvent) (content : Content) : Bool :=
  match (Dict.get? content.dict "users").getD (.obj []) with
  | .obj users =>
      (users.all fun e => userIdFromString e.1 && (p.int e.2).isSome) &&
        (!create.roomVersion.msc4289CreatorPowerEnabled ||
          (!Dict.contains users create.sender &&
            match Dict.get? create.content "additional_creators" with
            | some (.arr l) => users.all fun e => Json.str e.1 ∉ l
            | _ => true)) &&
        (!create.roomVersion.enforceIntPowerLevels || content.dict.all intLevels)
  | _ => false

/-- The state of a room that power levels are read from. -/
structure RoomState where
  create : CreateEvent
  powerLevels : Option Content

/-- The auth rules accept the events of the state. -/
def RoomState.Accepted (p : PyInt) (s : RoomState) : Prop :=
  checkCreate s.create = true ∧
    ∀ content, s.powerLevels = some content → checkPowerLevels p s.create content = true

/-- The user has a level for being a creator: in a room version where creators have power, or
in a room without power levels. -/
def RoomState.HasCreatorLevel (s : RoomState) (user : PyStr) : Prop :=
  hasCreatorPower s.create user = some true ∨
    (s.powerLevels = none ∧ roomCreator s.create = some (.str user))

end EventAuth
end Synapse
end Liza
