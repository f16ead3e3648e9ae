/-
# Phone numbers in E.164

`normalizeToE164` of `clients/flutter/lib/utils/phone_country.dart`: the digits that were typed,
with the national forms of a Russian number rewritten, and a check of their number and of the
country code.  What is typed without a plus may begin with `00` or be a Russian number without its
`7`; a trunk prefix `8` behind the `7` is taken out in any case.

No rule fires on the result of another one: a number that is accepted is normalised to itself, and
only the first character and the digits of the input matter (`normalizeToE164_canonical`).

The table `countryCodeToIsoCode` of `phone_numbers_parser` is a parameter, given by its keys.
-/

import Liza.Client.PhoneInput
import Mathlib.Data.List.DropRight

set_option autoImplicit false

namespace Liza
namespace Client
namespace PhoneNumber

open Formatting (Text units)
open PhoneInput (plus isDigit digitsOf whiteSpace kPhoneMaxDigits)

/-- `kPhoneMinDigits`. -/
def kPhoneMinDigits : ℕ := 10

/-- `raw.trim()`. -/
def trim (raw : Text) : Text := (raw.dropWhile (· ∈ whiteSpace)).rdropWhile (· ∈ whiteSpace)

/-- `_dialCodeOf`: a code of three digits before one of two, and one of two before one of one. -/
def dialCodeOf (codes : List Text) (digits : Text) : Option Text :=
  [3, 2, 1].findSome? fun length =>
    if digits.length ≤ length then none
    else if digits.take length ∈ codes then some (digits.take length) else none

/-- What is typed without a plus: `8` and ten digits, or ten digits from `9` on. -/
def nationalForm (digits : Text) : Text :=
  if digits.length = 11 ∧ digits.head? = some 0x38 then 0x37 :: digits.drop 1
  else if digits.length = 10 ∧ digits.head? = some 0x39 then 0x37 :: digits
  else digits

/-- The `8` behind the `7` of twelve digits is taken out. -/
def withoutTrunk (digits : Text) : Text :=
  if digits.length = 12 ∧ units "78" <+: digits then 0x37 :: digits.drop 2 else digits

/-- The digits of the number that is meant. -/
def dialled (hasPlus : Bool) (digits : Text) : Text :=
  withoutTrunk <|
    if hasPlus then digits
    else if units "00" <+: digits then digits.drop 2
    else nationalForm digits

/-- The checks of the number of digits and of the country code. -/
def checked (codes : List Text) (digits : Text) : Option Text :=
  if digits.length < kPhoneMinDigits ∨ kPhoneMaxDigits < digits.length then none
  else if (dialCodeOf codes digits).isNone then none
  else some (plus :: digits)

/-- `normalizeToE164`. -/
def normalizeToE164 (codes : List Text) (raw : Text) : Option Text :=
  let text := trim raw
  if text = [] then none
  else if digitsOf text = [] then none
  else checked codes (dialled ([plus].isPrefixOf text) (digitsOf text))

/-- What is relied on of the country codes: `7` is one, and none begins with `79`. -/
structure KnowsRussia (codes : List Text) : Prop where
  seven : units "7" ∈ codes
  mobile : ∀ code ∈ codes, ¬units "79" <+: code

/-- A plus, and 10 to 15 digits that begin with a country code. -/
def IsE164 (codes : List Text) (number : Text) : Prop :=
  ∃ digits, number = plus :: digits ∧ (∀ c ∈ digits, isDigit c = true) ∧ 10 ≤ digits.length ∧
    digits.length ≤ 15 ∧ ∃ code ∈ codes, code <+: digits

section Rules

variable {codes : List Text} {digits raw raw' text number : Text}

theorem whiteSpace_not_digit {c : UInt16} (h : c ∈ whiteSpace) : isDigit c = false := by
  have hall : whiteSpace.all (fun c => !isDigit c) = true := by decide
  have hc := List.all_eq_true.1 hall c h
  rwa [Bool.not_eq_true'] at hc

/-- White space has no digits. -/
theorem digitsOf_dropWhile (text : Text) :
    digitsOf (text.dropWhile (· ∈ whiteSpace)) = digitsOf text := by
  induction text with
  | nil => rfl
  | cons c text ih =>
      by_cases hc : c ∈ whiteSpace
      · rw [List.dropWhile_cons_of_pos (by simpa using hc), ih]
        exact (List.filter_cons_of_neg (by simp [whiteSpace_not_digit hc])).symm
      · rw [List.dropWhile_cons_of_neg (by simpa using hc)]

theorem digitsOf_reverse (text : Text) : digitsOf text.reverse = (digitsOf text).reverse :=
  List.filter_reverse ..

theorem digitsOf_trim (raw : Text) : digitsOf (trim raw) = digitsOf raw := by
  unfold trim List.rdropWhile
  rw [digitsOf_reverse, digitsOf_dropWhile, digitsOf_reverse, List.reverse_reverse,
    digitsOf_dropWhile]

/-- What has no white space is not trimmed. -/
theorem trim_eq_self (h : ∀ c ∈ text, c ∉ whiteSpace) : trim text = text := by
  have hfront : text.dropWhile (· ∈ whiteSpace) = text := by
    cases text with
    | nil => rfl
    | cons c text => exact List.dropWhile_cons_of_neg (by simpa using h c List.mem_cons_self)
  have hback : text.rdropWhile (· ∈ whiteSpace) = text := by
    rw [List.rdropWhile_eq_self_iff]
    exact fun hne => by simpa using h _ (List.getLast_mem hne)
  rw [trim, hfront, hback]

theorem not_whiteSpace_of_isDigit {c : UInt16} (h : isDigit c = true) : c ∉ whiteSpace :=
  fun hc => absurd (whiteSpace_not_digit hc) (by simp [h])

/-- A plus and digits. -/
theorem normalizeToE164_plus (hdigits : ∀ c ∈ digits, isDigit c = true) (hne : digits ≠ []) :
    normalizeToE164 codes (plus :: digits) = checked codes (withoutTrunk digits) := by
  have htrim : trim (plus :: digits) = plus :: digits := by
    refine trim_eq_self fun c hc => ?_
    rcases List.mem_cons.1 hc with rfl | hc
    · decide
    · exact not_whiteSpace_of_isDigit (hdigits c hc)
  have hof : digitsOf (plus :: digits) = digits :=
    (List.filter_cons_of_neg (by decide)).trans (PhoneInput.digitsOf_eq_self hdigits)
  unfold normalizeToE164
  dsimp only
  rw [htrim, hof, if_neg (List.cons_ne_nil _ _), if_neg hne]
  rfl

/-- Digits without a plus. -/
theorem normalizeToE164_digits (hdigits : ∀ c ∈ digits, isDigit c = true) (hne : digits ≠ []) :
    normalizeToE164 codes digits = checked codes (dialled false digits) := by
  have htrim : trim digits = digits :=
    trim_eq_self fun c hc => not_whiteSpace_of_isDigit (hdigits c hc)
  have hplus : [plus].isPrefixOf digits = false := by
    cases digits with
    | nil => exact absurd rfl hne
    | cons c digits =>
        have hc : plus ≠ c := by
          rintro rfl
          exact absurd (hdigits plus List.mem_cons_self) (by decide)
        simp [List.isPrefixOf, hc]
  unfold normalizeToE164
  dsimp only
  rw [htrim, PhoneInput.digitsOf_eq_self hdigits, if_neg hne, if_neg hne, hplus]

/-! ### What the rules leave -/

theorem withoutTrunk_idem (digits : Text) :
    withoutTrunk (withoutTrunk digits) = withoutTrunk digits := by
  by_cases h : digits.length = 12 ∧ units "78" <+: digits
  · have heq : withoutTrunk digits = 0x37 :: digits.drop 2 := if_pos h
    have hlen : (withoutTrunk digits).length = 11 := by
      rw [heq, List.length_cons, List.length_drop, h.1]
    exact if_neg fun hagain => by omega
  · have heq : withoutTrunk digits = digits := if_neg h
    rw [heq, heq]

theorem isDigit_withoutTrunk (h : ∀ c ∈ digits, isDigit c = true) :
    ∀ c ∈ withoutTrunk digits, isDigit c = true := by
  intro c hc
  unfold withoutTrunk at hc
  split at hc
  · rcases List.mem_cons.1 hc with rfl | hc
    · decide
    · exact h c (List.mem_of_mem_drop hc)
  · exact h c hc

theorem isDigit_nationalForm (h : ∀ c ∈ digits, isDigit c = true) :
    ∀ c ∈ nationalForm digits, isDigit c = true := by
  intro c hc
  unfold nationalForm at hc
  split at hc
  · rcases List.mem_cons.1 hc with rfl | hc
    · decide
    · exact h c (List.mem_of_mem_drop hc)
  split at hc
  · rcases List.mem_cons.1 hc with rfl | hc
    · decide
    · exact h c hc
  · exact h c hc

theorem isDigit_dialled (hasPlus : Bool) (h : ∀ c ∈ digits, isDigit c = true) :
    ∀ c ∈ dialled hasPlus digits, isDigit c = true := by
  refine isDigit_withoutTrunk ?_
  split
  · exact h
  split
  · exact fun c hc => h c (List.mem_of_mem_drop hc)
  · exact isDigit_nationalForm h

/-- A country code that is found is a known one, and the number begins with it. -/
theorem dialCodeOf_spec {code : Text} (h : dialCodeOf codes digits = some code) :
    code ∈ codes ∧ code <+: digits := by
  obtain ⟨length, -, hcode⟩ := List.exists_of_findSome?_eq_some h
  split at hcode
  · cases hcode
  split at hcode
  · rename_i hmem
    obtain rfl := Option.some.inj hcode
    exact ⟨hmem, List.take_prefix _ _⟩
  · cases hcode

theorem checked_eq_some (h : checked codes digits = some number) :
    number = plus :: digits ∧ 10 ≤ digits.length ∧ digits.length ≤ 15 ∧
      ∃ code ∈ codes, code <+: digits := by
  unfold checked at h
  split at h
  · cases h
  rename_i hlen
  split at h
  · cases h
  rename_i hcode
  obtain ⟨code, hcode⟩ : ∃ code, dialCodeOf codes digits = some code :=
    Option.ne_none_iff_exists'.1 (by simpa using hcode)
  unfold kPhoneMinDigits kPhoneMaxDigits at hlen
  exact ⟨(Option.some.inj h).symm, by omega, by omega, code, dialCodeOf_spec hcode⟩

/-- **What a result is made of.** -/
theorem normalizeToE164_eq_some (h : normalizeToE164 codes raw = some number) :
    ∃ digits, (∀ c ∈ digits, isDigit c = true) ∧ withoutTrunk digits = digits ∧
      checked codes digits = some number := by
  unfold normalizeToE164 at h
  dsimp only at h
  split at h
  · cases h
  split at h
  · cases h
  · exact ⟨_, isDigit_dialled _ fun c hc => PhoneInput.isDigit_of_mem hc, withoutTrunk_idem _, h⟩

theorem isE164_of_normalize (h : normalizeToE164 codes raw = some number) :
    IsE164 codes number := by
  obtain ⟨digits, hdigits, -, hchecked⟩ := normalizeToE164_eq_some h
  obtain ⟨rfl, hmin, hmax, hcode⟩ := checked_eq_some hchecked
  exact ⟨digits, rfl, hdigits, hmin, hmax, hcode⟩

/-- A number that was accepted is normalised to itself. -/
theorem normalize_idem (h : normalizeToE164 codes raw = some number) :
    normalizeToE164 codes number = some number := by
  obtain ⟨digits, hdigits, htrunk, hchecked⟩ := normalizeToE164_eq_some h
  obtain ⟨rfl, hmin, -⟩ := checked_eq_some hchecked
  rw [normalizeToE164_plus hdigits (List.ne_nil_of_length_pos (by omega)), htrunk, hchecked]

/-- Only the first character and the digits matter. -/
theorem normalize_congr (hfirst : (trim raw).head? = (trim raw').head?)
    (hdigits : digitsOf raw = digitsOf raw') :
    normalizeToE164 codes raw = normalizeToE164 codes raw' := by
  have hof : digitsOf (trim raw) = digitsOf (trim raw') := by
    rw [digitsOf_trim, digitsOf_trim, hdigits]
  unfold normalizeToE164
  dsimp only
  cases hraw : trim raw with
  | nil =>
      rw [hraw, List.head?_nil, eq_comm, List.head?_eq_none_iff] at hfirst
      rw [hfirst]
  | cons c text =>
      cases hraw' : trim raw' with
      | nil =>
          rw [hraw, hraw'] at hfirst
          cases hfirst
      | cons c' text' =>
          rw [hraw, hraw'] at hfirst hof
          obtain rfl := Option.some.inj hfirst
          simp only [hof, List.isPrefixOf, reduceCtorEq, if_false]

/-! ### The spellings of a Russian number -/

/-- A Russian mobile number with its country code passes the checks. -/
theorem checked_russian {n : Text} (hcodes : KnowsRussia codes) (hlen : n.length = 10)
    (hfirst : n.head? = some 0x39) : checked codes (0x37 :: n) = some (plus :: 0x37 :: n) := by
  obtain ⟨m, rfl⟩ : ∃ m, n = 0x39 :: m := by
    cases n with
    | nil => cases hfirst
    | cons c m => exact ⟨m, by rw [Option.some.inj hfirst]⟩
  have hlong : ∀ k, (0x37 :: 0x39 :: m).take (k + 2) ∉ codes := by
    intro k hmem
    exact hcodes.mobile _ hmem ⟨m.take k, rfl⟩
  have hcode : dialCodeOf codes (0x37 :: 0x39 :: m) = some [0x37] := by
    have hlength : (0x37 :: 0x39 :: m : Text).length = 11 := by rw [List.length_cons, hlen]
    unfold dialCodeOf
    simp only [List.findSome?_cons, hlength, hlong 1, hlong 0]
    have hseven : [0x37] ∈ codes := hcodes.seven
    simp [hseven]
  unfold checked
  rw [hcode, if_neg, if_neg (by simp)]
  rw [List.length_cons, hlen]
  decide

/-- The spellings of a Russian number, given by its ten national digits. -/
def spellings (n : Text) : List Text :=
  [n, units "8" ++ n, units "7" ++ n, units "+7" ++ n, units "007" ++ n, units "+78" ++ n,
    units "0078" ++ n]

/-- **All spellings give the number with its country code.** -/
theorem normalize_spelling {n : Text} (hcodes : KnowsRussia codes)
    (hdigits : ∀ c ∈ n, isDigit c = true) (hlen : n.length = 10) (hfirst : n.head? = some 0x39) :
    ∀ raw ∈ spellings n, normalizeToE164 codes raw = some (units "+7" ++ n) := by
  have hresult := checked_russian hcodes hlen hfirst
  obtain ⟨m, rfl⟩ : ∃ m, n = 0x39 :: m := by
    cases n with
    | nil => cases hfirst
    | cons c m => exact ⟨m, by rw [Option.some.inj hfirst]⟩
  have hm : m.length = 9 := by simpa using hlen
  have hall : ∀ s : Text, s.all isDigit = true → ∀ c ∈ s ++ 0x39 :: m, isDigit c = true :=
    fun s hs c hc => (List.mem_append.1 hc).elim (List.all_eq_true.1 hs c) (hdigits c)
  have h00 : ∀ (c : UInt16) (rest : Text), c ≠ 0x30 → ¬units "00" <+: c :: rest :=
    fun c rest hc h => hc (List.cons_prefix_cons.1 h).1.symm
  have hseven : withoutTrunk (0x37 :: 0x39 :: m) = 0x37 :: 0x39 :: m := if_neg fun h => by
    simp [hm] at h
  have htrunk : withoutTrunk (0x37 :: 0x38 :: 0x39 :: m) = 0x37 :: 0x39 :: m :=
    if_pos ⟨by simp [hm], ⟨0x39 :: m, rfl⟩⟩
  -- without a plus and `00`, the national rules apply
  have hnational : ∀ (c : UInt16) (rest : Text), c ≠ 0x30 →
      dialled false (c :: rest) = withoutTrunk (nationalForm (c :: rest)) := by
    intro c rest hc
    rw [dialled, if_neg Bool.false_ne_true, if_neg (h00 c rest hc)]
  have hinternational : ∀ rest : Text,
      dialled false (0x30 :: 0x30 :: rest) = withoutTrunk rest := by
    intro rest
    rw [dialled, if_neg Bool.false_ne_true, if_pos ⟨rest, rfl⟩]
    rfl
  intro raw hraw
  simp only [spellings, List.mem_cons, List.not_mem_nil, or_false] at hraw
  rcases hraw with rfl | rfl | rfl | rfl | rfl | rfl | rfl
  · have hform : nationalForm (0x39 :: m) = 0x37 :: 0x39 :: m := by
      rw [nationalForm, if_neg (by simp [hm]), if_pos ⟨by simp [hm], rfl⟩]
    rw [normalizeToE164_digits hdigits (List.cons_ne_nil _ _), hnational _ _ (by decide), hform,
      hseven]
    exact hresult
  · have hform : nationalForm (0x38 :: 0x39 :: m) = 0x37 :: 0x39 :: m :=
      if_pos ⟨by simp [hm], rfl⟩
    have hdigits' := hall (units "8") (by decide)
    rw [normalizeToE164_digits hdigits' (List.cons_ne_nil _ _)]
    change checked codes (dialled false (0x38 :: 0x39 :: m)) = _
    rw [hnational _ _ (by decide), hform, hseven]
    exact hresult
  · have hform : nationalForm (0x37 :: 0x39 :: m) = 0x37 :: 0x39 :: m := by
      rw [nationalForm, if_neg (by simp), if_neg (by simp)]
    have hdigits' := hall (units "7") (by decide)
    rw [normalizeToE164_digits hdigits' (List.cons_ne_nil _ _)]
    change checked codes (dialled false (0x37 :: 0x39 :: m)) = _
    rw [hnational _ _ (by decide), hform, hseven]
    exact hresult
  · refine (normalizeToE164_plus (hall (units "7") (by decide)) (List.cons_ne_nil _ _)).trans ?_
    change checked codes (withoutTrunk (0x37 :: 0x39 :: m)) = _
    rw [hseven]
    exact hresult
  · have hdigits' := hall (units "007") (by decide)
    rw [normalizeToE164_digits hdigits' (List.cons_ne_nil _ _)]
    change checked codes (dialled false (0x30 :: 0x30 :: 0x37 :: 0x39 :: m)) = _
    rw [hinternational, hseven]
    exact hresult
  · refine (normalizeToE164_plus (hall (units "78") (by decide)) (List.cons_ne_nil _ _)).trans ?_
    change checked codes (withoutTrunk (0x37 :: 0x38 :: 0x39 :: m)) = _
    rw [htrunk]
    exact hresult
  · have hdigits' := hall (units "0078") (by decide)
    rw [normalizeToE164_digits hdigits' (List.cons_ne_nil _ _)]
    change checked codes (dialled false (0x30 :: 0x30 :: 0x37 :: 0x38 :: 0x39 :: m)) = _
    rw [hinternational, htrunk]
    exact hresult

end Rules

/-- **Normalisation is canonical.**  A result is a plus with 10 to 15 digits that begin with a
country code, and normalising it again gives the same; two inputs with the same first character
and the same digits, behind the white space, have the same result; and all spellings of a Russian
number give its `+7` form. -/
theorem normalizeToE164_canonical (codes : List Text) (hcodes : KnowsRussia codes) :
    (∀ raw number, normalizeToE164 codes raw = some number →
      IsE164 codes number ∧ normalizeToE164 codes number = some number) ∧
    (∀ raw raw', (trim raw).head? = (trim raw').head? → digitsOf raw = digitsOf raw' →
      normalizeToE164 codes raw = normalizeToE164 codes raw') ∧
    ∀ n : Text, n.length = 10 → (∀ c ∈ n, isDigit c = true) → n.head? = some 0x39 →
      ∀ raw ∈ spellings n, normalizeToE164 codes raw = some (units "+7" ++ n) :=
  ⟨fun _ _ h => ⟨isE164_of_normalize h, normalize_idem h⟩, fun _ _ => normalize_congr,
    fun _ hlen hdigits hfirst => normalize_spelling hcodes hdigits hlen hfirst⟩

/-- With the codes of the countries of the app, a number that is typed over the `+7` of the field.
-/
theorem normalizeToE164_canonical_typed :
    normalizeToE164 (PhoneInput.kPhoneCountries.map PhoneInput.PhoneCountry.dialCode)
      (units "+789151234567") = some (units "+79151234567") :=
  (normalizeToE164_canonical _ ⟨by decide, by decide⟩).2.2
    (units "9151234567") (by decide) (List.all_eq_true.1 (by decide)) (by decide) _ (by decide)

end PhoneNumber
end Client
end Liza
