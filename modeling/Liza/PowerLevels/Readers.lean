/-
# The modules that read power levels themselves

`power_from_content` (`modules/access_admin/_logic.py`) tells an administrator the level of a
user in a room, and `user_power_level` (`modules/knock_notify/_logic.py`) finds those who are
told of a request to join.  Both take the content of `m.room.power_levels` alone, so neither
knows of levels that come from being a creator: without an event both say 0.  For all others,
and a plain dictionary, the second one reads what the auth rules read, and the first one does
when the level is stored as an integer; one stored as a string, which older room versions
accept, counts as 0 for it (`readers_agree`).
-/

import Liza.Synapse.EventAuth

set_option autoImplicit false

namespace Liza
namespace PowerLevels

open Lib Synapse.EventAuth

variable {p : PyInt} {s : RoomState} {content : Content} {user : PyStr} {v : Json} {n : ℤ}

/-! ### The readers -/

/-- `v if isinstance(v, dict) else None`, in a content that may be frozen. -/
def asDict (frozen : Bool) : Json → Option Dict
  | .obj d => if frozen then none else some d
  | _ => none

/-- `value if isinstance(value, int) else 0`; `bool` is a subclass of `int`. -/
def intOrZero : Json → ℤ
  | .int n => n
  | .bool b => if b then 1 else 0
  | _ => 0

/-- `users[user_id]` of a dictionary. -/
def userEntry (content : Content) (user : PyStr) : Option Json :=
  ((Dict.get? content.dict "users").bind (asDict content.frozen)).bind fun users =>
    Dict.get? users user

/-- `content.get("users_default", 0)`. -/
def usersDefault (content : Content) : Json := (Dict.get? content.dict "users_default").getD (.int 0)

/-- `power_from_content`. -/
def powerFromContent (content : Option Content) (user : PyStr) : ℤ :=
  match content with
  | none => 0
  | some content =>
      if content.frozen then 0
      else
        match userEntry content user with
        | some value => intOrZero value
        | none => intOrZero (usersDefault content)

/-- `user_power_level`. -/
def userPowerLevel (p : PyInt) (user : PyStr) (powerLevelsContent : Option Content) : ℤ :=
  let pl := powerLevelsContent.getD ⟨false, []⟩
  match (userEntry pl user).bind p.int with
  | some n => n
  | none => (p.int (usersDefault pl)).getD 0

/-! ### What they agree on -/

/-- The value a level is read from. -/
def storedLevel (content : Option Content) (user : PyStr) : Json :=
  match content with
  | none => .int 0
  | some content => (userEntry content user).getD (usersDefault content)

/-- The value is an integer for Python, or `None`. -/
def Integral : Json → Prop
  | .int _ => True
  | .bool _ => True
  | .null => True
  | _ => False

theorem intOrZero_of_not_integral (h : ¬Integral v) : intOrZero v = 0 := by
  cases v with
  | int n => exact absurd trivial h
  | bool b => exact absurd trivial h
  | _ => rfl

/-- An integer is read as what it is, and `None` as 0. -/
theorem read_of_integral (h : Integral v) :
    (if v = .null then some 0 else p.int v) = some (intOrZero v) := by
  cases v with
  | null => rfl
  | int n => rfl
  | bool b => rfl
  | float r => cases h
  | str t => cases h
  | arr l => cases h
  | obj d => cases h

/-- The mapping from users to levels. -/
theorem users_cases (user : PyStr) (hplain : content.frozen = false)
    (haccepted : checkPowerLevels p s.create content = true) :
    ∃ users, (Dict.get? content.dict "users").getD (.obj []) = .obj users ∧
      userEntry content user = Dict.get? users user := by
  unfold checkPowerLevels at haccepted
  cases hget : Dict.get? content.dict "users" with
  | none => exact ⟨[], rfl, by simp [userEntry, hget]⟩
  | some value =>
      rw [hget] at haccepted
      cases value with
      | obj users => exact ⟨users, rfl, by simp [userEntry, hget, asDict, hplain]⟩
      | _ => cases haccepted

/-- No user has `None` as their level. -/
theorem readable_of_accepted (haccepted : checkPowerLevels p s.create content = true)
    (hplain : content.frozen = false) (hentry : userEntry content user = some v) :
    (p.int v).isSome = true := by
  obtain ⟨users, husers, heq⟩ := users_cases user hplain haccepted
  rw [heq] at hentry
  have hmem := Dict.mem_of_get? hentry
  rw [checkPowerLevels, husers] at haccepted
  simp only [Bool.and_eq_true, List.all_eq_true] at haccepted
  exact (haccepted.1.1 _ hmem).2

/-- Whether a user is a creator can be told of an accepted creation event. -/
theorem isCreator_isSome {create : CreateEvent} (h : checkCreate create = true)
    (hpower : create.roomVersion.msc4289CreatorPowerEnabled = true) :
    (isCreator create user).isSome = true := by
  rw [isCreator, if_pos hpower]
  split
  · rfl
  · rw [Option.isSome_map]
    simp only [checkCreate, hpower, Bool.not_true, Bool.false_or, Bool.and_eq_true] at h
    cases hget : Dict.get? create.content "additional_creators" with
    | none => rfl
    | some value =>
        have hvalue := h.2
        rw [hget] at hvalue
        cases value with
        | arr l =>
            have hhash : l.all Json.hashable = true := by
              refine List.all_eq_true.2 fun w hw => ?_
              have hstr : w.isStr = true := List.all_eq_true.1 hvalue w hw
              cases w with
              | str t => rfl
              | _ => cases hstr
            simp [pySet, hhash]
        | _ => cases hvalue

theorem hasCreatorPower_eq_false (haccepted : s.Accepted p) (hcreator : ¬s.HasCreatorLevel user) :
    hasCreatorPower s.create user = some false := by
  have hsome : (hasCreatorPower s.create user).isSome = true := by
    unfold hasCreatorPower
    split
    · rename_i hpower
      exact isCreator_isSome haccepted.1 hpower
    · rfl
  obtain ⟨b, hb⟩ := Option.isSome_iff_exists.1 hsome
  cases b with
  | false => exact hb
  | true => exact absurd (.inl hb) hcreator

/-- The level that the auth rules read of the content. -/
theorem levelIn_eq (haccepted : checkPowerLevels p s.create content = true)
    (hplain : content.frozen = false) :
    levelIn p content user =
      (if storedLevel (some content) user = .null then some 0
        else p.int (storedLevel (some content) user)) := by
  obtain ⟨users, husers, hentry⟩ := users_cases user hplain haccepted
  rw [levelIn, husers, storedLevel, hentry]
  show (if (if Dict.get users user = .null then usersDefault content
    else Dict.get users user) = .null then _ else _) = _
  rw [Dict.get]
  cases hget : Dict.get? users user with
  | none => rfl
  | some value =>
      have hne : value ≠ .null := by
        rintro rfl
        have := readable_of_accepted haccepted hplain (hentry.trans hget)
        cases this
      simp only [Option.getD_some, if_neg hne]

/-- The level that the auth rules read, of a user who has none for being a creator. -/
theorem getUserPowerLevel_eq (haccepted : s.Accepted p)
    (hplain : ∀ content, s.powerLevels = some content → content.frozen = false)
    (hcreator : ¬s.HasCreatorLevel user) :
    getUserPowerLevel p s.create s.powerLevels user =
      (if storedLevel s.powerLevels user = .null then some 0
        else p.int (storedLevel s.powerLevels user)) := by
  unfold getUserPowerLevel
  rw [hasCreatorPower_eq_false haccepted hcreator]
  cases hlevels : s.powerLevels with
  | some content => exact levelIn_eq (haccepted.2 content hlevels) (hplain content hlevels)
  | none =>
      have hsome : (roomCreator s.create).isSome = true := by
        have hcheck := haccepted.1
        simp only [checkCreate, Bool.and_eq_true, Bool.or_eq_true] at hcheck
        unfold roomCreator
        split
        · rfl
        · rename_i himplicit
          exact hcheck.1.resolve_left himplicit
      obtain ⟨creator, hroom⟩ := Option.isSome_iff_exists.1 hsome
      -- The creator of the room is somebody else.
      have hne : creator ≠ .str user := fun heq => hcreator (.inr ⟨hlevels, by rw [hroom, heq]⟩)
      show (roomCreator s.create).map _ = some 0
      rw [hroom, Option.map_some, if_neg hne]

/-- What `user_power_level` reads of a plain dictionary: a level that `int` refuses is left for
the default. -/
theorem userPowerLevel_eq (haccepted : s.Accepted p)
    (hplain : ∀ content, s.powerLevels = some content → content.frozen = false) :
    userPowerLevel p user s.powerLevels = (p.int (storedLevel s.powerLevels user)).getD 0 := by
  cases hlevels : s.powerLevels with
  | none => rfl
  | some content =>
      show (match (userEntry content user).bind p.int with
        | some n => n
        | none => (p.int (usersDefault content)).getD 0) = _
      rw [storedLevel]
      cases hentry : userEntry content user with
      | none => rfl
      | some value =>
          obtain ⟨n, hn⟩ := Option.isSome_iff_exists.1
            (readable_of_accepted (haccepted.2 content hlevels) (hplain content hlevels) hentry)
          simp [hn]

theorem powerFromContent_eq
    (hplain : ∀ content, s.powerLevels = some content → content.frozen = false) :
    powerFromContent s.powerLevels user = intOrZero (storedLevel s.powerLevels user) := by
  cases hlevels : s.powerLevels with
  | none => rfl
  | some content =>
      rw [powerFromContent, storedLevel]
      simp only [hplain content hlevels, Bool.false_eq_true, if_false]
      cases userEntry content user with
      | none => rfl
      | some value => rfl

/-- Where levels have to be integers, they are. -/
theorem integral_of_enforced (haccepted : s.Accepted p)
    (hplain : ∀ content, s.powerLevels = some content → content.frozen = false)
    (henforce : s.create.roomVersion.enforceIntPowerLevels = true) :
    Integral (storedLevel s.powerLevels user) := by
  have hint : ∀ w, isInt w = true → Integral w := by
    intro w hw
    cases w with
    | int n => trivial
    | _ => cases hw
  cases hlevels : s.powerLevels with
  | none => trivial
  | some content =>
      have hcheck := haccepted.2 content hlevels
      obtain ⟨users, husers, hentry⟩ :=
        users_cases user (hplain content hlevels) hcheck
      rw [checkPowerLevels, husers] at hcheck
      simp only [henforce, Bool.not_true, Bool.false_or, Bool.and_eq_true] at hcheck
      have hitems : ∀ e ∈ content.dict, intLevels e = true := List.all_eq_true.1 hcheck.2
      rw [storedLevel, hentry]
      cases hget : Dict.get? users user with
      | none =>
          show Integral (usersDefault content)
          rw [usersDefault]
          cases hdefault : Dict.get? content.dict "users_default" with
          | none => trivial
          | some value =>
              have hitem := hitems _ (Dict.mem_of_get? hdefault)
              simp only [intLevels, Bool.and_eq_true, decide_eq_true_eq] at hitem
              exact hint value (hitem.1.resolve_left (by decide))
      | some value =>
          have hdict : Dict.get? content.dict "users" = some (.obj users) := by
            cases hd : Dict.get? content.dict "users" with
            | none =>
                rw [hd] at husers
                obtain rfl : users = [] := by simpa using husers.symm
                cases hget
            | some w =>
                rw [hd] at husers
                exact congrArg some husers
          have hitem := hitems _ (Dict.mem_of_get? hdict)
          simp only [intLevels, Bool.and_eq_true, Bool.or_eq_true, decide_eq_true_eq] at hitem
          have hall := hitem.2.resolve_left (by decide)
          exact hint value (List.all_eq_true.1 hall _ (Dict.mem_of_get? hget))

/-- **The readers agree with the auth rules**, on plain dictionaries and on users who have no
level for being a creator: `user_power_level` whenever the auth rules come to a level, and
`power_from_content` when the level is stored as an integer (or `None`); it takes any other for
0.  Where a room version wants integers, all three agree. -/
theorem readers_agree (haccepted : s.Accepted p)
    (hplain : ∀ content, s.powerLevels = some content → content.frozen = false)
    (hcreator : ¬s.HasCreatorLevel user) :
    (∀ n, getUserPowerLevel p s.create s.powerLevels user = some n →
      userPowerLevel p user s.powerLevels = n) ∧
    (Integral (storedLevel s.powerLevels user) →
      getUserPowerLevel p s.create s.powerLevels user =
        some (powerFromContent s.powerLevels user)) ∧
    (¬Integral (storedLevel s.powerLevels user) → powerFromContent s.powerLevels user = 0) ∧
    (s.create.roomVersion.enforceIntPowerLevels = true →
      getUserPowerLevel p s.create s.powerLevels user =
        some (powerFromContent s.powerLevels user) ∧
      userPowerLevel p user s.powerLevels = powerFromContent s.powerLevels user) := by
  have hknock : ∀ n, getUserPowerLevel p s.create s.powerLevels user = some n →
      userPowerLevel p user s.powerLevels = n := by
    intro n hn
    rw [getUserPowerLevel_eq haccepted hplain hcreator] at hn
    rw [userPowerLevel_eq haccepted hplain]
    split at hn
    · rename_i hnull
      rw [hnull]
      exact Option.some.inj hn
    · rw [hn]
      rfl
  have haccess : Integral (storedLevel s.powerLevels user) →
      getUserPowerLevel p s.create s.powerLevels user =
        some (powerFromContent s.powerLevels user) := by
    intro hint
    rw [getUserPowerLevel_eq haccepted hplain hcreator, powerFromContent_eq hplain,
      read_of_integral hint]
  refine ⟨hknock, haccess, fun hint => ?_, fun henforce => ?_⟩
  · rw [powerFromContent_eq hplain, intOrZero_of_not_integral hint]
  · have hlevel := haccess (integral_of_enforced haccepted hplain henforce)
    exact ⟨hlevel, hknock _ hlevel⟩

/-! ### Where they differ -/

/-- A room version of which only the given flags are set. -/
def version (creatorPower enforceInt : Bool) : RoomVersion := ⟨creatorPower, creatorPower, enforceInt⟩

/-- A room that Alice has created. -/
def aliceRoom (version : RoomVersion) (powerLevels : Option Content) : RoomState :=
  ⟨⟨version, "@alice:liza.ru", [("creator", .str "@alice:liza.ru")]⟩, powerLevels⟩

/-- `int` of the text of a small number. -/
def intOfText : PyInt := ⟨fun t => if t = py "50" then some 50 else none, fun _ => none⟩

instance (p : PyInt) (s : RoomState) : Decidable (s.Accepted p) :=
  match hlevels : s.powerLevels with
  | none => decidable_of_iff (checkCreate s.create = true)
      ⟨fun h => ⟨h, fun _ hc => by rw [hlevels] at hc; cases hc⟩, fun h => h.1⟩
  | some content => decidable_of_iff
      (checkCreate s.create = true ∧ checkPowerLevels p s.create content = true)
      ⟨fun h => ⟨h.1, fun c hc => by rw [hlevels] at hc; exact Option.some.inj hc ▸ h.2⟩,
        fun h => ⟨h.1, h.2 content hlevels⟩⟩

/-- A room with a level for Bob and a default. -/
def bobRoom : RoomState :=
  aliceRoom (version false true)
    (some ⟨false, [("users", .obj [("@bob:liza.ru", .int 50)]), ("users_default", .int 10)]⟩)

theorem readers_agree_on_bob :
    getUserPowerLevel intOfText bobRoom.create bobRoom.powerLevels "@bob:liza.ru" = some 50 ∧
      powerFromContent bobRoom.powerLevels "@bob:liza.ru" = 50 ∧
      userPowerLevel intOfText "@bob:liza.ru" bobRoom.powerLevels = 50 := by
  have hplain : ∀ content, bobRoom.powerLevels = some content → content.frozen = false := by
    intro content hcontent
    rw [← Option.some.inj hcontent]
  have hcreator : ¬bobRoom.HasCreatorLevel "@bob:liza.ru" := by
    rintro (h | ⟨h, -⟩)
    · exact absurd h (by decide)
    · cases h
  have hpower : powerFromContent bobRoom.powerLevels "@bob:liza.ru" = 50 := by decide
  obtain ⟨-, -, -, hall⟩ := readers_agree (p := intOfText) (by decide) hplain hcreator
  have hlevels := hall rfl
  rw [hpower] at hlevels
  exact ⟨hlevels.1, hpower, hlevels.2⟩

/-- A room without power levels. -/
def bareRoom : RoomState := aliceRoom (version false true) none

/-- A room of a version where creators have power. -/
def creatorRoom : RoomState := aliceRoom (version true true) (some ⟨false, []⟩)

/-- A room of an old version, with a level written as a string. -/
def textRoom : RoomState :=
  aliceRoom (version false false)
    (some ⟨false, [("users", .obj [("@bob:liza.ru", .str "50")])]⟩)

/-- A creator has a level without power levels, and in newer room versions whatever they say;
older ones accept a level written as a string. -/
theorem readers_differ :
    (bareRoom.Accepted intOfText ∧
      getUserPowerLevel intOfText bareRoom.create bareRoom.powerLevels "@alice:liza.ru" =
        some 100 ∧
      powerFromContent bareRoom.powerLevels "@alice:liza.ru" = 0 ∧
      userPowerLevel intOfText "@alice:liza.ru" bareRoom.powerLevels = 0) ∧
    (creatorRoom.Accepted intOfText ∧
      getUserPowerLevel intOfText creatorRoom.create creatorRoom.powerLevels "@alice:liza.ru" =
        some (2 ^ 53) ∧
      powerFromContent creatorRoom.powerLevels "@alice:liza.ru" = 0 ∧
      userPowerLevel intOfText "@alice:liza.ru" creatorRoom.powerLevels = 0) ∧
    (textRoom.Accepted intOfText ∧
      getUserPowerLevel intOfText textRoom.create textRoom.powerLevels "@bob:liza.ru" = some 50 ∧
      powerFromContent textRoom.powerLevels "@bob:liza.ru" = 0) := by
  decide

end PowerLevels
end Liza
