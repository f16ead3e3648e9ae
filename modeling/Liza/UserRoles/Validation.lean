/-
# What the catalog accepts and what the table accepts

`RoleCatalog.is_valid_code` and `is_valid_color` try the same regular expressions as the `CHECK`
constraints of the Postgres table (`_catalog.py`), in another dialect: `$` of Python also matches
before a newline at the end of the text, and `$` of Postgres does not.  So the handlers take a code
or a colour with a newline behind it for valid (`valid_dropNewline`), `CatalogHandler.create` hands
it to `RoleCatalog.add`, and the table refuses the row.  Nothing else gets that far
(`only_checked_iff`).

`lower` of the constraint goes by the locale of the database, so it is a parameter; what matters is
that it leaves small letters, digits and underscores alone.
-/

import Liza.Lib.Lines
import Liza.Lib.Regex
import Liza.UserRoles.Specs

set_option autoImplicit false

namespace Liza
namespace UserRoles

open Lib
open Lib.Task (Only Obeys)

/-! ### The expressions -/

/-- `[a-z0-9_]` -/
def isCodeChar (c : CodePoint) : Bool :=
  (codePoint 'a' ≤ c ∧ c ≤ codePoint 'z') ∨ (codePoint '0' ≤ c ∧ c ≤ codePoint '9') ∨
    c = codePoint '_'

/-- `[0-9a-fA-F]` -/
def isHexChar (c : CodePoint) : Bool :=
  (codePoint '0' ≤ c ∧ c ≤ codePoint '9') ∨ (codePoint 'a' ≤ c ∧ c ≤ codePoint 'f') ∨
    (codePoint 'A' ≤ c ∧ c ≤ codePoint 'F')

/-- `^[a-z0-9_]{1,64}$`: `_CODE_RE`, and the expression of `user_roles_catalog_code_lowercase`. -/
def codeRe : Pattern CodePoint := [.start, .chars isCodeChar 1 64, .stop]

/-- `^#[0-9a-fA-F]{6}$`: `_COLOR_RE`, and the expression of `user_roles_catalog_color_hex`. -/
def colorRe : Pattern CodePoint :=
  [.start, .chars (fun c => c = codePoint '#') 1 1, .chars isHexChar 6 6, .stop]

/-- `re.match(s)`. -/
def reMatch (p : Pattern CodePoint) (s : PyStr) : Bool :=
  p.matchAt (Pattern.beforeNewline newline) s

/-- `s ~ p` of Postgres. -/
def similar (s : PyStr) (p : Pattern CodePoint) : Bool := p.search Pattern.atEnd s

section Constraints

variable (lower : PyStr → PyStr)

/-- `user_roles_catalog_code_lowercase`. -/
def codeLowercase (code : PyStr) : Bool := code = lower code && similar code codeRe

/-- `user_roles_catalog_color_hex`. -/
def colorHex : Option PyStr → Bool
  | none => true
  | some color => similar color colorRe

/-- The row meets the constraints of the table. -/
def Role.checked (role : Role) : Bool := codeLowercase lower role.code && colorHex role.color

end Constraints

/-! ### What they accept -/

section Languages

variable {s t : PyStr} {p : PyStr → Bool}

theorem isCode_iff : isCode s = true ↔ 1 ≤ s.length ∧ s.length ≤ 64 ∧ s.all isCodeChar = true := by
  simp only [isCode, decide_eq_true_eq]
  exact Iff.rfl

theorem isColor_iff : isColor s = true ↔
    ∃ digits, s = codePoint '#' :: digits ∧ digits.length = 6 ∧ digits.all isHexChar = true := by
  simp only [isColor, decide_eq_true_eq]
  cases s with
  | nil => simp
  | cons c s =>
      simp only [List.length_cons, List.head?_cons, List.tail_cons, Option.some.injEq,
        List.cons.injEq]
      constructor
      · rintro ⟨hlength, rfl, hall⟩
        exact ⟨s, ⟨rfl, rfl⟩, by omega, hall⟩
      · rintro ⟨digits, ⟨rfl, rfl⟩, hlength, hall⟩
        exact ⟨by omega, rfl, hall⟩

/-- A code in the sense of Postgres. -/
theorem similar_codeRe (s : PyStr) : similar s codeRe = isCode s := by
  rw [Bool.eq_iff_iff, similar, codeRe, Pattern.search_start, Pattern.matchAt, isCode_iff]
  exact Pattern.accepts_chars_stop

/-- A colour in the sense of Postgres. -/
theorem similar_colorRe (s : PyStr) : similar s colorRe = isColor s := by
  rw [Bool.eq_iff_iff, similar, colorRe, Pattern.search_start, Pattern.matchAt, isColor_iff]
  refine Pattern.accepts_chars.trans ?_
  constructor
  · rintro ⟨hash, digits, rfl, hleast, hmost, hall, hdigits⟩
    obtain ⟨c, rfl⟩ := List.length_eq_one_iff.1 (le_antisymm hmost hleast)
    obtain rfl : c = codePoint '#' := by simpa using hall
    obtain ⟨hleast, hmost, hall⟩ := Pattern.accepts_chars_stop.1 hdigits
    exact ⟨digits, rfl, le_antisymm hmost hleast, hall⟩
  · rintro ⟨digits, rfl, hlength, hall⟩
    exact ⟨[codePoint '#'], digits, rfl, le_rfl, le_rfl, by simp,
      Pattern.accepts_chars_stop.2 ⟨hlength.ge, hlength.le, hall⟩⟩

/-- What is tried without a newline at its end is valid with one, too. -/
theorem valid_dropNewline (hp : ∀ s, p s = true → s.getLast? ≠ some newline) :
    p (dropNewline s) = true ↔ p s = true ∨ ∃ t, p t = true ∧ s = t ++ [newline] := by
  unfold dropNewline
  split
  · rename_i hlast
    obtain ⟨t, rfl⟩ : ∃ t, s = t ++ [newline] := List.getLast?_eq_some_iff.1 hlast
    rw [List.dropLast_concat]
    constructor
    · exact fun h => .inr ⟨t, h, rfl⟩
    · rintro (h | ⟨u, hu, heq⟩)
      · exact absurd hlast (hp _ h)
      · rwa [(List.append_inj' heq rfl).1]
  · rename_i hlast
    refine ⟨.inl, ?_⟩
    rintro (h | ⟨t, -, rfl⟩)
    · exact h
    · exact absurd List.getLast?_concat hlast

theorem isCode_last (h : isCode s = true) : s.getLast? ≠ some newline := by
  intro hlast
  have hall := (isCode_iff.1 h).2.2
  have := List.all_eq_true.1 hall newline (List.mem_of_getLast? hlast)
  revert this
  decide

theorem isColor_last (h : isColor s = true) : s.getLast? ≠ some newline := by
  intro hlast
  obtain ⟨digits, rfl, -, hall⟩ := isColor_iff.1 h
  rcases List.mem_cons.1 (List.mem_of_getLast? hlast) with heq | hmem
  · revert heq
    decide
  · have := List.all_eq_true.1 hall newline hmem
    revert this
    decide

/-- **Python's match is Postgres's, newlines at the end put aside.** -/
theorem reMatch_eq {q : Pattern CodePoint} (hq : ∀ part ∈ Part.start :: q, part.isStop = false)
    (hsimilar : ∀ s, similar s (.start :: q ++ [.stop]) = p s)
    (hp : ∀ s, p s = true → s.getLast? ≠ some newline) (s : PyStr) :
    reMatch (.start :: q ++ [.stop]) s = p (dropNewline s) := by
  have hends : ∀ u, Pattern.accepts Pattern.atEnd (.start :: q ++ [.stop]) true u = p u :=
    fun u => Pattern.search_start.symm.trans (hsimilar u)
  have hdialect : reMatch (.start :: q ++ [.stop]) s = true ↔ _ :=
    Pattern.accepts_beforeNewline newline hq
  rw [Bool.eq_iff_iff, valid_dropNewline hp, hdialect, hends]
  refine or_congr Iff.rfl (exists_congr fun t => ?_)
  rw [hends]
  exact and_comm

/-- `is_valid_code` is the match of `_CODE_RE`. -/
theorem isValidCode_eq (s : PyStr) : isValidCode s = reMatch codeRe s :=
  (reMatch_eq (q := [.chars isCodeChar 1 64]) (by simp [Part.isStop]) similar_codeRe
    (fun _ => isCode_last) s).symm

/-- `is_valid_color` is the match of `_COLOR_RE`. -/
theorem isValidColor_eq (s : PyStr) : isValidColor (.str s) = reMatch colorRe s :=
  (reMatch_eq (q := [.chars (fun c => c = codePoint '#') 1 1, .chars isHexChar 6 6])
    (by simp [Part.isStop]) similar_colorRe (fun _ => isColor_last) s).symm

/-- Of two texts that are valid, with or without a newline, the one without it is in the language. -/
theorem valid_iff_last (hp : ∀ s, p s = true → s.getLast? ≠ some newline)
    (h : p (dropNewline s) = true) : p s = true ↔ s.getLast? ≠ some newline := by
  refine ⟨hp s, fun hlast => ?_⟩
  rcases (valid_dropNewline hp).1 h with h | ⟨t, -, rfl⟩
  · exact h
  · exact absurd List.getLast?_concat hlast

/-- Exactness fails where there is a newline behind a text of the language. -/
theorem exact_iff (hp : ∀ s, p s = true → s.getLast? ≠ some newline) (s : PyStr) :
    (p (dropNewline s) = true ↔ p s = true) ↔ ¬∃ t, p t = true ∧ s = t ++ [newline] := by
  rw [valid_dropNewline hp]
  constructor
  · rintro h ⟨t, ht, rfl⟩
    exact hp _ (h.1 (.inr ⟨t, ht, rfl⟩)) List.getLast?_concat
  · intro h
    exact or_iff_left h

end Languages

/-! ### What reaches the table -/

section Rows

variable {lower : PyStr → PyStr} {role : Role} {body : Dict}

/-- **The constraints are what the model of the table checks.** -/
theorem checked_eq (hlower : ∀ s : PyStr, s.all isCodeChar = true → lower s = s) (role : Role) :
    role.checked lower = role.wellFormed := by
  have hcolor : colorHex role.color = role.color.all isColor := by
    cases role.color with
    | none => rfl
    | some color => exact similar_colorRe color
  rw [Role.checked, Role.wellFormed, hcolor, codeLowercase, similar_codeRe]
  cases hcode : isCode role.code with
  | false => rw [Bool.and_false]
  | true =>
      rw [hlower _ (isCode_iff.1 hcode).2.2, decide_eq_true rfl, Bool.true_and]

/-- An operation hands no row to the table that its constraints refuse. -/
def Inserts (lower : PyStr → PyStr) : Op → Prop
  | .insertRole role => role.checked lower = true
  | _ => True

/-- The task hands no such row to the table, whatever the answers are. -/
abbrev OnlyChecked (lower : PyStr → PyStr) {α : Type} (t : Code α) : Prop :=
  Only (fun _ _ => True) (Inserts lower) t

theorem onlyChecked_reloadCache : OnlyChecked lower reloadCache :=
  (Only.call trivial).bind fun _ => Only.call trivial

theorem onlyChecked_enrich (code : PyStr) : OnlyChecked lower (enrich code) := by
  refine (Only.call trivial).bind fun row => ?_
  cases row with
  | some row => exact .ret _
  | none => exact onlyChecked_reloadCache.bind fun _ => (Only.call trivial).bind fun _ => .ret _

/-- A role is handed over as it is. -/
theorem onlyChecked_addRole : OnlyChecked lower (addRole role) ↔ role.checked lower = true := by
  constructor
  · intro h
    -- the cache answers that it has no such role
    exact ((h []).2 (some (some none)) trivial).1
  · intro h
    have hadd : OnlyChecked lower (add role) :=
      Only.bind (Only.call h) fun _ => onlyChecked_reloadCache
    refine (onlyChecked_enrich role.code).bind fun known => ?_
    cases known with
    | some _ => exact .ret _
    | none =>
        refine Only.bind (Only.orElse (hadd.bind fun _ => .ret _) (.ret _)) fun added => ?_
        cases added with
        | true => exact (onlyChecked_enrich role.code).bind fun _ => .ret _
        | false => exact .ret _

/-- A body that passes the checks, and the row it asks for. -/
inductive Asks (body : Dict) : Role → Prop
  | intro {code name : PyStr} {color : Option PyStr} (hcode : Dict.get body "code" = .str code)
      (hvalid : isValidCode code = true) (hname : Dict.get body "display_name" = .str name)
      (hblank : strip name ≠ [])
      (hcolor : Dict.get body "color" = (color.map Json.str).getD .null)
      (hvalidColor : isValidColor (Dict.get body "color") = true) :
      Asks body ⟨code, strip name, color⟩

/-- **`create` hands over the row that is asked for, and no other one.** -/
theorem onlyChecked_create :
    OnlyChecked lower (create (.obj body)) ↔ ∀ role, Asks body role → role.checked lower = true := by
  constructor
  · rintro h _ ⟨hcode, hvalid, hname, hblank, hcolor, hvalidColor⟩
    refine onlyChecked_addRole.1 ?_
    rename_i code name color
    simp only [create, hcode, hvalid, hname, hblank, hvalidColor, not_true_eq_false, if_false] at h
    rw [hcolor] at h
    cases color with
    | none => exact h
    | some color => exact h
  · intro h
    unfold create
    dsimp only
    split
    · rename_i code hcode
      split
      · exact .ret _
      rename_i hvalid
      split
      · rename_i name hname
        split
        · exact .ret _
        rename_i hblank
        split
        · exact .ret _
        rename_i hcolor
        have hasked : ∀ color : Option PyStr,
            Dict.get body "color" = (color.map Json.str).getD .null →
              OnlyChecked lower (addRole ⟨code, strip name, color⟩) := fun color hjson =>
          onlyChecked_addRole.2
            (h _ ⟨hcode, not_not.1 hvalid, hname, hblank, hjson, not_not.1 hcolor⟩)
        split
        · rename_i color hjson
          exact hasked (some color) hjson
        · rename_i hjson
          -- what is valid and no text is `None`
          have hnull : Dict.get body "color" = .null := by
            have hvalidColor := not_not.1 hcolor
            cases hv : Dict.get body "color" with
            | null => rfl
            | str color => exact absurd hv (hjson color)
            | _ =>
                rw [hv] at hvalidColor
                cases hvalidColor
          exact hasked none hnull
      · exact .ret _
    · exact .ret _

/-- The code or the colour of the row has a newline at its end. -/
def Role.endsInNewline (role : Role) : Bool :=
  role.code.getLast? = some newline || role.color.any fun color => color.getLast? = some newline

/-- A row that is asked for is refused when it has a newline at an end. -/
theorem checked_of_asks (hlower : ∀ s : PyStr, s.all isCodeChar = true → lower s = s)
    (h : Asks body role) : role.checked lower = true ↔ role.endsInNewline = false := by
  obtain ⟨hcode, hvalid, -, -, hcolor, hvalidColor⟩ := h
  rename_i code name color
  have hcodeLast := valid_iff_last (fun _ => isCode_last) hvalid
  have hcolorLast : color.all isColor = true ↔
      (color.any fun color => color.getLast? = some newline) = false := by
    cases color with
    | none => exact iff_of_true rfl rfl
    | some color =>
        rw [hcolor] at hvalidColor
        rw [Option.all_some, Option.any_some, decide_eq_false_iff_not]
        exact valid_iff_last (fun _ => isColor_last) hvalidColor
  rw [checked_eq hlower, Role.wellFormed, Role.endsInNewline, Bool.and_eq_true,
    Bool.or_eq_false_iff, decide_eq_false_iff_not, hcodeLast, hcolorLast]

/-- **Where validation is exact.**  `is_valid_code` accepts the texts of 1 to 64 of the characters
`a-z`, `0-9` and `_`, and `is_valid_color` those of a `#` and six hexadecimal digits, and each of
them such a text with one newline behind it; `create` hands over a row that the constraints refuse
for the bodies that pass the checks with such a newline. -/
theorem validation_exact_iff (lower : PyStr → PyStr)
    (hlower : ∀ s : PyStr, s.all isCodeChar = true → lower s = s) :
    (∀ code, (isValidCode code = true ↔ isCode code = true) ↔
      ¬∃ t, isCode t = true ∧ code = t ++ [newline]) ∧
    (∀ color, (isValidColor (.str color) = true ↔ isColor color = true) ↔
      ¬∃ t, isColor t = true ∧ color = t ++ [newline]) ∧
    ∀ body : Dict, OnlyChecked lower (create (.obj body)) ↔
      ¬∃ role, Asks body role ∧ role.endsInNewline = true := by
  refine ⟨exact_iff fun _ => isCode_last, exact_iff fun _ => isColor_last, fun body => ?_⟩
  rw [onlyChecked_create, not_exists]
  refine forall_congr' fun role => ?_
  rw [not_and, Bool.not_eq_true]
  exact forall_congr' fun hasks => checked_of_asks hlower hasks

/-- `lower` of the locale `C`. -/
def lowerAscii (s : PyStr) : PyStr :=
  s.map fun c => if 0x41 ≤ c.val ∧ c.val ≤ 0x5A then Fin.ofNat 0x110000 (c.val + 0x20) else c

theorem lowerAscii_eq (s : PyStr) (h : s.all isCodeChar = true) : lowerAscii s = s := by
  refine (List.map_congr_left fun c hc => ?_).trans (List.map_id s)
  refine if_neg fun hcapital => ?_
  have hchar := List.all_eq_true.1 h c hc
  simp only [isCodeChar, decide_eq_true_eq, Fin.le_def, Fin.ext_iff] at hchar
  have ha : (codePoint 'a').val = 97 := by decide
  have h9 : (codePoint '9').val = 57 := by decide
  have hu : (codePoint '_').val = 95 := by decide
  omega

/-- A role of the seed. -/
theorem validation_exact_ai :
    OnlyChecked lowerAscii
      (create (.obj [("code", .str "ai"), ("display_name", .str "AI"), ("color", .str "#4CAF50")])) :=
  ((validation_exact_iff lowerAscii lowerAscii_eq).2.2 _).2 fun ⟨_, hasks, hnewline⟩ => by
    cases hasks with
    | @intro code name color hcode hvalid hname hblank hcolor hvalidColor =>
        obtain rfl := Json.str.inj hcode
        obtain rfl := Json.str.inj hname
        cases color with
        | none => cases hcolor
        | some color =>
            obtain rfl := Json.str.inj hcolor
            revert hnewline
            decide

/-- With a newline behind them its texts are valid, and refused by the table. -/
theorem newline_not_exact :
    isValidCode "ai\n" = true ∧ isCode "ai\n" = false ∧
    isValidColor (.str "#4CAF50\n") = true ∧ isColor "#4CAF50\n" = false ∧
    ¬OnlyChecked lowerAscii
      (create (.obj [("code", .str "ai\n"), ("display_name", .str "AI")])) := by
  have hvalid : isValidCode "ai\n" = true := by decide
  have hblank : strip "AI" ≠ [] := by decide
  refine ⟨hvalid, by decide, by decide, by decide, fun h => ?_⟩
  have hchecked := onlyChecked_create.1 h ⟨"ai\n", strip "AI", none⟩
    (.intro rfl hvalid rfl hblank rfl rfl)
  revert hchecked
  decide

end Rows

end UserRoles
end Liza
