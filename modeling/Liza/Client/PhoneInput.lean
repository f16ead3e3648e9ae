/-
# Editing a phone number

`PhoneInputFormatter` of `clients/flutter/lib/utils/phone_input_formatter.dart`, with the list of
countries of `phone_country.dart`.  After each edit the formatter takes the digits of the new value,
lays them out again by the country they begin with, and puts the caret behind as many digits as
there were in front of it.

Where a separator is deleted, the digits are the same as before, so the formatter takes out the
digit in front of the caret itself.  It then counts the digits in front of the caret in the text
without the separator, where this digit still stands: with digits on both sides the caret comes to
stand one digit too far to the right.  Every other edit keeps the digits behind the caret behind
it (`digits_kept_iff`).

`PhoneNumberFormatter.formatNsn` is a parameter; it is relied on that it only puts characters that
are no digits between those of a number.
-/

import Liza.Client.FormattedHtml

set_option autoImplicit false

namespace Liza
namespace Client
namespace PhoneInput

open Formatting (Text TextSelection units)

/-- `PhoneCountry`. -/
structure PhoneCountry where
  isoCode : Text
  dialCode : Text

/-- `kPhoneCountries`; the first one is `kDefaultPhoneCountry`. -/
def kPhoneCountries : List PhoneCountry :=
  [("RU", "7"), ("KZ", "7"), ("BY", "375"), ("UA", "380"), ("UZ", "998"), ("KG", "996"),
    ("AM", "374"), ("GE", "995"), ("AZ", "994"), ("MD", "373"), ("TJ", "992"), ("TM", "993"),
    ("TR", "90"), ("AE", "971"), ("IL", "972"), ("RS", "381"), ("ME", "382"), ("CY", "357"),
    ("DE", "49"), ("FR", "33"), ("ES", "34"), ("IT", "39"), ("PL", "48"), ("CZ", "420"),
    ("NL", "31"), ("PT", "351"), ("GB", "44"), ("US", "1"), ("CA", "1"), ("TH", "66"),
    ("VN", "84"), ("IN", "91"), ("CN", "86")].map fun e => ⟨units e.1, units e.2⟩

/-- `kPhoneMaxDigits`. -/
def kPhoneMaxDigits : ℕ := 15

/-- `+`. -/
def plus : UInt16 := 43

/-- `_isDigit`. -/
def isDigit (c : UInt16) : Bool := 0x30 ≤ c ∧ c ≤ 0x39

/-- `_digitsOf`. -/
def digitsOf (raw : Text) : Text := raw.filter isDigit

/-- The loop of `phoneCountryByDialPrefix`: the longest code so far. -/
def better (digits : Text) (best : Option PhoneCountry) (country : PhoneCountry) :
    Option PhoneCountry :=
  if ¬country.dialCode <+: digits then best
  else match best with
    | none => some country
    | some b => if country.dialCode.length > b.dialCode.length then some country else best

/-- `phoneCountryByDialPrefix`. -/
def phoneCountryByDialPrefix (raw : Text) : Option PhoneCountry :=
  if digitsOf raw = [] then none else kPhoneCountries.foldl (better (digitsOf raw)) none

/-- What is used of `phone_numbers_parser`: the names of `IsoCode.values`, and `formatNsn`. -/
structure Parser where
  isoNames : List Text
  formatNsn : Text → Text → Text

/-- `formatNsn` only inserts characters that are no digits. -/
def Parser.InsertsSeparators (p : Parser) : Prop :=
  ∀ nsn iso, (∀ c ∈ nsn, isDigit c = true) → digitsOf (p.formatNsn nsn iso) = nsn

/-! ### Laying out the digits -/

section Format

variable (p : Parser) (country : PhoneCountry)

/-- `_dialCodeOf`. -/
def dialCodeOf (digits : Text) : Option PhoneCountry :=
  if country.dialCode <+: digits then some country else phoneCountryByDialPrefix digits

/-- `_isoCodeOf`. -/
def isoCodeOf (dial : PhoneCountry) : Option Text :=
  p.isoNames.find? fun name => name = dial.isoCode

/-- `_groupBy3`. -/
def groupBy3 : Text → Text
  | a :: b :: c :: d :: rest => a :: b :: c :: 0x20 :: groupBy3 (d :: rest)
  | digits => digits

/-- `_formatNsn`. -/
def formatNsn (nsn iso : Text) : Text :=
  let formatted := p.formatNsn nsn iso
  if formatted ≠ nsn then formatted else groupBy3 nsn

/-- `hasPlus ? '+' : ''`. -/
def plusSign (hasPlus : Bool) : Text := if hasPlus then [plus] else []

/-- `_format`. -/
def format (digits : Text) (hasPlus : Bool) : Text :=
  if digits = [] then plusSign hasPlus
  else match dialCodeOf country digits with
    | none => plusSign hasPlus ++ digits
    | some dial =>
        let nsn := digits.drop dial.dialCode.length
        if nsn = [] then plusSign hasPlus ++ dial.dialCode
        else
          let body := match isoCodeOf p dial with
            | none => nsn
            | some iso => formatNsn p nsn iso
          plusSign hasPlus ++ dial.dialCode ++ 0x20 :: body

end Format

/-- The loop of `_offsetAfterDigits`: the place behind the digit with this number. -/
def placeAfter : ℕ → Text → ℕ
  | _, [] => 0
  | count, c :: text =>
      if isDigit c then if count = 1 then 1 else 1 + placeAfter (count - 1) text
      else 1 + placeAfter count text

/-- `_offsetAfterDigits`. -/
def offsetAfterDigits (formatted : Text) (count : ℕ) : ℕ :=
  if count = 0 then if [plus] <+: formatted then 1 else 0 else placeAfter count formatted

/-! ### An edit -/

/-- `TextEditingValue`. -/
structure TextEditingValue where
  text : Text
  selection : TextSelection
deriving DecidableEq

/-- `TextSelection.collapsed`. -/
def collapsed (offset : ℕ) : TextSelection := ⟨offset, offset⟩

/-- `i.clamp(lo, hi)`, for an index. -/
def clamp (i : ℤ) (lo hi : ℕ) : ℕ := (min (max i lo) hi).toNat

/-- The white space that `trimLeft` removes. -/
def whiteSpace : List UInt16 :=
  [0x9, 0xa, 0xb, 0xc, 0xd, 0x20, 0x85, 0xa0, 0x1680, 0x2000, 0x2001, 0x2002, 0x2003, 0x2004,
    0x2005, 0x2006, 0x2007, 0x2008, 0x2009, 0x200a, 0x2028, 0x2029, 0x202f, 0x205f, 0x3000, 0xfeff]

/-- `text.trimLeft().startsWith('+')`. -/
def startsWithPlus (text : Text) : Bool := [plus] <+: text.dropWhile (· ∈ whiteSpace)

/-- `_replacingAutoPrefix`. -/
def replacingAutoPrefix (oldValue newValue : TextEditingValue) (oldDigits : Text) :
    Option TextEditingValue :=
  let old := oldValue.text
  if !startsWithPlus old || oldDigits = [] then none
  else if (phoneCountryByDialPrefix oldDigits).map PhoneCountry.dialCode ≠ some oldDigits then none
  else if !oldValue.selection.isValid then none
  else
    let start := clamp oldValue.selection.start 0 old.length
    let stop := clamp oldValue.selection.stop start old.length
    let before := old.take start
    let after := old.drop stop
    let text := newValue.text
    if text.length < before.length + after.length || !before.isPrefixOf text ||
        !after.isSuffixOf text then none
    else
      let fragment := (text.take (text.length - after.length)).drop before.length
      let pasted := fragment.dropWhile (· ≠ plus)
      if pasted = [] || digitsOf pasted = [] then none
      else some ⟨pasted, collapsed pasted.length⟩

section Update

variable (oldValue newValue : TextEditingValue)

/-- `replacement`. -/
def replacement : Option TextEditingValue :=
  replacingAutoPrefix oldValue newValue (digitsOf oldValue.text)

/-- `newValue`, where it may be replaced. -/
def replaced : TextEditingValue := (replacement oldValue newValue).getD newValue

/-- The digits in front of the caret. -/
def digitsBefore (value : TextEditingValue) : Text :=
  digitsOf (value.text.take (clamp value.selection.baseOffset 0 value.text.length))

/-- `digits`, with the one in front of the caret taken out where only a separator was deleted. -/
def editedDigits : Text :=
  let digits := digitsOf (replaced oldValue newValue).text
  if (replacement oldValue newValue).isNone && newValue.text.length < oldValue.text.length &&
      digits.length = (digitsOf oldValue.text).length && digits ≠ [] then
    let before := (digitsBefore (replaced oldValue newValue)).length
    if before > 0 then digits.take (before - 1) ++ digits.drop before else digits
  else digits

/-- `hasPlus`. -/
def hasPlus : Bool :=
  let text := (replaced oldValue newValue).text
  startsWithPlus text || text = [] && [plus].isPrefixOf oldValue.text

/-- The edit is rejected for the number of digits. -/
def rejected : Bool :=
  let digits := editedDigits oldValue newValue
  let cap := kPhoneMaxDigits +
    if !hasPlus oldValue newValue && (units "00").isPrefixOf digits then 2 else 0
  digits.length > cap && digits.length ≥ (digitsOf oldValue.text).length

/-- `formatEditUpdate`. -/
def formatEditUpdate (p : Parser) (country : PhoneCountry) : TextEditingValue :=
  if rejected oldValue newValue then oldValue
  else
    let digits := editedDigits oldValue newValue
    let value := replaced oldValue newValue
    let digitsBeforeCaret :=
      if value.selection.baseOffset < 0 then digits.length
      else min (digitsBefore value).length digits.length
    let formatted := format p country digits (hasPlus oldValue newValue)
    ⟨formatted, collapsed (offsetAfterDigits formatted digitsBeforeCaret)⟩

end Update

/-! ### The digits of a text -/

section Digits

variable {p : Parser} {country dial : PhoneCountry} {digits text : Text} {count : ℕ}

theorem digitsOf_append (a b : Text) : digitsOf (a ++ b) = digitsOf a ++ digitsOf b :=
  List.filter_append a b

theorem digitsOf_eq_self (h : ∀ c ∈ digits, isDigit c = true) : digitsOf digits = digits :=
  List.filter_eq_self.2 h

theorem isDigit_of_mem {c : UInt16} (h : c ∈ digitsOf text) : isDigit c = true :=
  (List.mem_filter.1 h).2

@[simp]
theorem digitsOf_plusSign (hasPlus : Bool) : digitsOf (plusSign hasPlus) = [] := by
  cases hasPlus <;> rfl

theorem digitsOf_groupBy3 (text : Text) : digitsOf (groupBy3 text) = digitsOf text := by
  induction text using groupBy3.induct with
  | case1 a b c d rest ih =>
      have hspace : isDigit 0x20 = false := by decide
      rw [groupBy3]
      simp only [digitsOf, List.filter_cons, hspace] at ih ⊢
      simp only [Bool.false_eq_true, if_false, ih]
  | case2 digits h =>
      rw [groupBy3]
      exact h

theorem digitsOf_formatNsn (hp : p.InsertsSeparators) (iso : Text)
    (h : ∀ c ∈ digits, isDigit c = true) : digitsOf (formatNsn p digits iso) = digits := by
  unfold formatNsn
  dsimp only
  split
  · exact hp digits iso h
  · rw [digitsOf_groupBy3, digitsOf_eq_self h]

theorem prefix_of_better {best : Option PhoneCountry}
    (hbest : ∀ b, best = some b → b.dialCode <+: digits)
    (h : better digits best country = some dial) : dial.dialCode <+: digits := by
  unfold better at h
  split at h
  · exact hbest dial h
  · rename_i hprefix
    have hcountry : country.dialCode <+: digits := Decidable.not_not.1 hprefix
    split at h
    · exact Option.some.inj h ▸ hcountry
    · split at h
      · exact Option.some.inj h ▸ hcountry
      · exact hbest dial h

/-- A country that is found has a code with which the number begins. -/
theorem prefix_of_dialPrefix (h : phoneCountryByDialPrefix digits = some dial) :
    dial.dialCode <+: digitsOf digits := by
  have hfold : ∀ (l : List PhoneCountry) (best : Option PhoneCountry),
      (∀ b, best = some b → b.dialCode <+: digitsOf digits) →
      ∀ b, l.foldl (better (digitsOf digits)) best = some b → b.dialCode <+: digitsOf digits := by
    intro l
    induction l with
    | nil => exact fun _ h => h
    | cons country l ih => exact fun best hbest => ih _ fun b hb => prefix_of_better hbest hb
  unfold phoneCountryByDialPrefix at h
  split at h
  · cases h
  · exact hfold _ none nofun _ h

theorem prefix_of_dialCodeOf (hdigits : ∀ c ∈ digits, isDigit c = true)
    (h : dialCodeOf country digits = some dial) : dial.dialCode <+: digits := by
  unfold dialCodeOf at h
  split at h
  · rename_i hprefix
    exact Option.some.inj h ▸ hprefix
  · exact digitsOf_eq_self hdigits ▸ prefix_of_dialPrefix h

/-- **Laying out keeps the digits.** -/
theorem digitsOf_format (hp : p.InsertsSeparators) (hasPlus : Bool)
    (h : ∀ c ∈ digits, isDigit c = true) : digitsOf (format p country digits hasPlus) = digits := by
  unfold format
  split
  · rename_i hempty
    rw [digitsOf_plusSign, hempty]
  · split
    · rw [digitsOf_append, digitsOf_plusSign, digitsOf_eq_self h, List.nil_append]
    · rename_i dial hdial
      obtain ⟨nsn, rfl⟩ := prefix_of_dialCodeOf h hdial
      have hcode : digitsOf dial.dialCode = dial.dialCode :=
        digitsOf_eq_self fun c hc => h c (List.mem_append_left _ hc)
      have hnsn : ∀ c ∈ nsn, isDigit c = true := fun c hc => h c (List.mem_append_right _ hc)
      rw [List.drop_left]
      dsimp only
      split
      · rename_i hempty
        rw [digitsOf_append, digitsOf_plusSign, hcode, hempty, List.append_nil, List.nil_append]
      · have hspace : ∀ body, digitsOf (0x20 :: body) = digitsOf body := fun body =>
          List.filter_cons_of_neg (by decide)
        rw [digitsOf_append, digitsOf_append, digitsOf_plusSign, hcode, hspace, List.nil_append]
        congr 1
        split
        · exact digitsOf_eq_self hnsn
        · exact digitsOf_formatNsn hp _ hnsn

/-- **Behind the place after some digits are the others.** -/
theorem digitsOf_drop_placeAfter (hcount : 0 < count) :
    digitsOf (text.drop (placeAfter count text)) = (digitsOf text).drop count := by
  induction text generalizing count with
  | nil => simp [digitsOf]
  | cons c text ih =>
      rw [placeAfter]
      by_cases hc : isDigit c = true
      · have hcons : digitsOf (c :: text) = c :: digitsOf text := List.filter_cons_of_pos hc
        rw [if_pos hc, hcons]
        obtain ⟨count, rfl⟩ := Nat.exists_eq_succ_of_ne_zero (Nat.pos_iff_ne_zero.1 hcount)
        rw [List.drop_succ_cons]
        by_cases hone : count = 0
        · subst hone
          rfl
        · rw [if_neg (by omega), Nat.add_comm 1, List.drop_succ_cons]
          exact ih (Nat.pos_iff_ne_zero.2 hone)
      · have hcons : digitsOf (c :: text) = digitsOf text := List.filter_cons_of_neg hc
        rw [if_neg hc, Nat.add_comm 1, List.drop_succ_cons, ih hcount, hcons]

theorem digitsOf_drop_offset (text : Text) (count : ℕ) :
    digitsOf (text.drop (offsetAfterDigits text count)) = (digitsOf text).drop count := by
  unfold offsetAfterDigits
  split
  · rename_i hzero
    rw [hzero, List.drop_zero]
    split
    · rename_i hplus
      obtain ⟨rest, rfl⟩ := hplus
      rfl
    · rw [List.drop_zero]
  · rename_i hpos
    exact digitsOf_drop_placeAfter (Nat.pos_iff_ne_zero.2 hpos)

end Digits

/-! ### Edits at the caret -/

/-- An edit at a caret without a selection: a text is put there, or the character in front of it is
deleted. -/
inductive Edit where
  | insert (text : Text)
  | backspace

/-- The caret after the edit. -/
def Edit.caret (caret : ℕ) : Edit → ℕ
  | insert text => caret + text.length
  | backspace => caret - 1

/-- The value after the edit, as the formatter gets it. -/
def Edit.value (text : Text) (caret : ℕ) : Edit → TextEditingValue
  | insert inserted =>
      ⟨text.take caret ++ inserted ++ text.drop caret, collapsed (caret + inserted.length)⟩
  | backspace => ⟨text.take (caret - 1) ++ text.drop caret, collapsed (caret - 1)⟩

/-- The digits in front of the caret after the edit. -/
def Edit.left (text : Text) (caret : ℕ) (e : Edit) : Text :=
  digitsOf ((e.value text caret).text.take (e.caret caret))

/-- The edit deletes a character that is no digit. -/
def Edit.erasesSeparator (text : Text) (caret : ℕ) : Edit → Bool
  | insert _ => false
  | backspace => (text.take caret).getLast?.any fun c => !isDigit c

/-- What an edit is to do with the digits: those in front of the caret are the ones that are there
after the edit, but for one where only a separator was deleted, and those behind the caret are the
ones that were there before. -/
def DigitsKept (p : Parser) (country : PhoneCountry) (text : Text) (caret : ℕ) (e : Edit) : Prop :=
  let result := formatEditUpdate ⟨text, collapsed caret⟩ (e.value text caret) p country
  let left := e.left text caret
  let right := digitsOf (text.drop caret)
  digitsOf result.text = (if e.erasesSeparator text caret then left.dropLast else left) ++ right ∧
    digitsOf (result.text.drop result.selection.baseOffset.toNat) = right

section Edits

variable {text : Text} {caret : ℕ} {e : Edit}

/-- The edit changes nothing behind the caret. -/
theorem value_eq (hcaret : caret ≤ text.length) (e : Edit) :
    ∃ before, (e.value text caret).text = before ++ text.drop caret ∧
      before.length = e.caret caret ∧
        (e.value text caret).selection = collapsed (e.caret caret) := by
  cases e with
  | insert inserted =>
      refine ⟨text.take caret ++ inserted, rfl, ?_, rfl⟩
      rw [List.length_append, List.length_take_of_le hcaret]
      rfl
  | backspace =>
      refine ⟨text.take (caret - 1), rfl, ?_, rfl⟩
      rw [List.length_take_of_le (by omega)]
      rfl

/-- The digits after the edit. -/
theorem digitsOf_value (hcaret : caret ≤ text.length) (e : Edit) :
    digitsOf (e.value text caret).text = e.left text caret ++ digitsOf (text.drop caret) := by
  obtain ⟨before, hvalue, hlength, -⟩ := value_eq hcaret e
  unfold Edit.left
  rw [hvalue, digitsOf_append, ← hlength, List.take_left]

theorem digitsBefore_value (hcaret : caret ≤ text.length) (e : Edit) :
    digitsBefore (e.value text caret) = e.left text caret := by
  obtain ⟨before, hvalue, hlength, hselection⟩ := value_eq hcaret e
  have hclamp : clamp (e.value text caret).selection.baseOffset 0 (e.value text caret).text.length =
      e.caret caret := by
    rw [hselection, hvalue, List.length_append, ← hlength, clamp, collapsed]
    dsimp only
    omega
  rw [digitsBefore, hclamp, Edit.left]

/-- The text in front of the caret without its last character. -/
theorem take_pred (hcaret : caret ≤ text.length) :
    text.take (caret - 1) = (text.take caret).dropLast := by
  rw [List.dropLast_eq_take, List.length_take_of_le hcaret, List.take_take]
  congr 1
  omega

/-- What a deletion does to the digits in front of the caret. -/
theorem left_backspace (hcaret : caret ≤ text.length) (hpos : 0 < caret) :
    ∃ c, digitsOf (text.take caret) = Edit.left text caret .backspace ++ digitsOf [c] ∧
      Edit.erasesSeparator text caret .backspace = !isDigit c := by
  have hleft : Edit.left text caret .backspace = digitsOf (text.take caret).dropLast := by
    rw [← take_pred hcaret, Edit.left]
    congr 1
    exact List.take_left' (List.length_take_of_le (by omega))
  have hne : text.take caret ≠ [] := by
    intro hnil
    have hlength := List.length_take_of_le hcaret
    rw [hnil, List.length_nil] at hlength
    omega
  refine ⟨(text.take caret).getLast hne, ?_, ?_⟩
  · rw [hleft, ← digitsOf_append, List.dropLast_append_getLast]
  · rw [Edit.erasesSeparator, List.getLast?_eq_some_getLast hne]
    rfl

theorem length_backspace (hcaret : caret ≤ text.length) (hpos : 0 < caret) :
    (Edit.value text caret .backspace).text.length < text.length := by
  rw [Edit.value, List.length_append, List.length_take_of_le (by omega), List.length_drop]
  omega

/-- **The digits that are laid out**, where the code of the country is not replaced. -/
theorem editedDigits_eq (hcaret : caret ≤ text.length)
    (hreplacement : replacement ⟨text, collapsed caret⟩ (e.value text caret) = none) :
    editedDigits ⟨text, collapsed caret⟩ (e.value text caret) =
      (if e.erasesSeparator text caret then (e.left text caret).dropLast
        else e.left text caret) ++ digitsOf (text.drop caret) := by
  have hreplaced : replaced ⟨text, collapsed caret⟩ (e.value text caret) = e.value text caret := by
    rw [replaced, hreplacement]
    rfl
  have hold : digitsOf text = digitsOf (text.take caret) ++ digitsOf (text.drop caret) := by
    rw [← digitsOf_append, List.take_append_drop]
  unfold editedDigits
  rw [hreplaced, hreplacement, digitsBefore_value hcaret, digitsOf_value hcaret]
  dsimp only
  by_cases herases : e.erasesSeparator text caret = true
  · rw [if_pos herases]
    cases e with
    | insert inserted => cases herases
    | backspace =>
        have hpos : 0 < caret := by
          by_contra hzero
          obtain rfl : caret = 0 := by omega
          simp [Edit.erasesSeparator] at herases
        obtain ⟨c, hdigits, hc⟩ := left_backspace hcaret hpos
        have hnone : digitsOf [c] = [] := List.filter_cons_of_neg (by simpa [hc] using herases)
        rw [hnone, List.append_nil] at hdigits
        rw [hold, hdigits]
        generalize Edit.left text caret .backspace = left
        by_cases hempty : left ++ digitsOf (text.drop caret) = []
        · rw [if_neg (by simp [hempty])]
          obtain ⟨rfl, -⟩ := List.append_eq_nil_iff.1 hempty
          rfl
        · have hlt := length_backspace hcaret hpos
          rw [if_pos (by simp [hlt, hempty])]
          split
          · rename_i hleft
            rw [List.drop_left, List.take_append_of_le_length (by omega), ← List.dropLast_eq_take]
          · rename_i hleft
            obtain rfl : left = [] := List.length_eq_zero_iff.1 (by omega)
            rfl
  · rw [if_neg herases, if_neg]
    intro hcond
    simp only [Option.isNone_none, Bool.true_and, Bool.and_eq_true, decide_eq_true_eq] at hcond
    obtain ⟨⟨hshorter, hsame⟩, -⟩ := hcond
    cases e with
    | insert inserted =>
        rw [Edit.value, List.length_append, List.length_append, List.length_take_of_le hcaret,
          List.length_drop] at hshorter
        omega
    | backspace =>
        have hpos : 0 < caret := by
          by_contra hzero
          obtain rfl : caret = 0 := by omega
          exact absurd hshorter (by simp [Edit.value])
        obtain ⟨c, hdigits, hc⟩ := left_backspace hcaret hpos
        have hone : digitsOf [c] = [c] := List.filter_cons_of_pos (by simpa [hc] using herases)
        rw [hold, hdigits, hone, List.length_append, List.length_append, List.length_append,
          List.length_singleton] at hsame
        omega

end Edits

/-- **When an edit keeps the digits around the caret.**  For every text and caret, and every text
that is inserted there or character that is deleted in front of it, where the edit is not rejected
for the number of digits and does not replace the code of the country: the digits of the result are
those in front of the caret after the edit (one fewer where a separator was deleted) and those that
were behind it, and the new caret has these behind it, exactly when the edit does not delete a
separator with digits on both sides. -/
theorem digits_kept_iff (p : Parser) (hp : p.InsertsSeparators) (country : PhoneCountry)
    (text : Text) (caret : ℕ) (hcaret : caret ≤ text.length) (e : Edit)
    (hreplacement : replacement ⟨text, collapsed caret⟩ (e.value text caret) = none)
    (hrejected : rejected ⟨text, collapsed caret⟩ (e.value text caret) = false) :
    DigitsKept p country text caret e ↔
      ¬(e.erasesSeparator text caret = true ∧ e.left text caret ≠ [] ∧
        digitsOf (text.drop caret) ≠ []) := by
  have hedited := editedDigits_eq hcaret hreplacement
  have hreplaced : replaced ⟨text, collapsed caret⟩ (e.value text caret) = e.value text caret := by
    rw [replaced, hreplacement]
    rfl
  have hoffset : ¬(e.value text caret).selection.baseOffset < 0 := by
    obtain ⟨-, -, -, hselection⟩ := value_eq hcaret e
    rw [hselection, collapsed]
    dsimp only
    omega
  have hdigits : ∀ c ∈ (if e.erasesSeparator text caret then (e.left text caret).dropLast
      else e.left text caret) ++ digitsOf (text.drop caret), isDigit c = true := by
    intro c hc
    rcases List.mem_append.1 hc with hc | hc
    · split at hc
      · exact isDigit_of_mem (List.dropLast_subset _ hc)
      · exact isDigit_of_mem hc
    · exact isDigit_of_mem hc
  unfold DigitsKept formatEditUpdate
  rw [if_neg (by simp [hrejected])]
  dsimp only
  rw [hreplaced, hedited, if_neg hoffset, digitsBefore_value hcaret]
  generalize hasPlus ⟨text, collapsed caret⟩ (e.value text caret) = hasPlus
  simp only [collapsed, Int.toNat_natCast]
  rw [digitsOf_drop_offset, digitsOf_format hp hasPlus hdigits, eq_self, true_and]
  generalize e.left text caret = left
  generalize digitsOf (text.drop caret) = right
  split
  · rename_i herases
    rw [List.length_append, List.length_dropLast]
    by_cases hleft : left = []
    · subst hleft
      simp
    · have hpos : 0 < left.length := List.length_pos_iff.2 hleft
      by_cases hright : right = []
      · subst hright
        simp [hleft]
      · -- the digit that was taken out is counted in front of the caret
        have hrpos : 0 < right.length := List.length_pos_iff.2 hright
        refine iff_of_false (fun heq => ?_) fun h => h ⟨herases, hleft, hright⟩
        have hlength := congrArg List.length heq
        rw [List.length_drop, List.length_append, List.length_dropLast] at hlength
        omega
  · rename_i hkeeps
    rw [List.length_append, Nat.min_eq_left (Nat.le_add_right _ _), List.drop_left]
    simp [hkeeps]

/-- Russian numbers of up to ten digits: `915 123-45-67`. -/
def russianNsn (nsn : Text) : Text :=
  let group := fun (separator : UInt16) (digits : Text) =>
    if digits = [] then [] else separator :: digits
  nsn.take 3 ++ group 0x20 ((nsn.drop 3).take 3) ++ group 0x2d ((nsn.drop 6).take 2) ++
    group 0x2d (nsn.drop 8)

/-- The formatter for Russian numbers. -/
def russian : Parser := ⟨[units "RU"], fun nsn _ => russianNsn nsn⟩

theorem russian_insertsSeparators : russian.InsertsSeparators := by
  intro nsn iso h
  have hgroup : ∀ (separator : UInt16) (digits : Text), isDigit separator = false →
      digitsOf (if digits = [] then [] else separator :: digits) = digitsOf digits := by
    intro separator digits hseparator
    split
    · rename_i hempty
      rw [hempty]
    · exact List.filter_cons_of_neg (by simpa using hseparator)
  change digitsOf (russianNsn nsn) = nsn
  unfold russianNsn
  dsimp only
  rw [digitsOf_append, digitsOf_append, digitsOf_append, hgroup _ _ (by decide),
    hgroup _ _ (by decide), hgroup _ _ (by decide), ← digitsOf_append, ← digitsOf_append,
    ← digitsOf_append]
  have hsplit : nsn.take 3 ++ (nsn.drop 3).take 3 ++ (nsn.drop 6).take 2 ++ nsn.drop 8 = nsn := by
    have hlast : (nsn.drop 6).take 2 ++ nsn.drop 8 = nsn.drop 6 := by
      rw [show nsn.drop 8 = (nsn.drop 6).drop 2 by rw [List.drop_drop], List.take_append_drop]
    have hmiddle : (nsn.drop 3).take 3 ++ nsn.drop 6 = nsn.drop 3 := by
      rw [show nsn.drop 6 = (nsn.drop 3).drop 3 by rw [List.drop_drop], List.take_append_drop]
    rw [List.append_assoc, hlast, List.append_assoc, hmiddle, List.take_append_drop]
  rw [hsplit, digitsOf_eq_self h]

/-- The last digit of a number is typed. -/
theorem digits_kept_typed : DigitsKept russian ⟨units "RU", units "7"⟩ (units "+7 915 123-45-6") 15
    (.insert (units "7")) :=
  (digits_kept_iff russian russian_insertsSeparators ⟨units "RU", units "7"⟩
    (units "+7 915 123-45-6") 15 (by decide) (.insert (units "7")) (by decide) (by decide)).2
      fun h => absurd h.1 (by decide)

/-- The hyphen behind the `3` is deleted: the `3` goes, as it should, but the caret is then behind
the `4`. -/
theorem separator_deleted :
    let text := units "+7 915 123-45-67"
    let ru : PhoneCountry := ⟨units "RU", units "7"⟩
    let value := Edit.value text 11 .backspace
    format russian ru (units "79151234567") true = text ∧
      replacement ⟨text, collapsed 11⟩ value = none ∧
      rejected ⟨text, collapsed 11⟩ value = false ∧
      formatEditUpdate ⟨text, collapsed 11⟩ value russian ru =
        ⟨units "+7 915 124-56-7", collapsed 10⟩ ∧
      ¬DigitsKept russian ru text 11 .backspace := by
  refine ⟨by decide, by decide, by decide, by decide, fun h => ?_⟩
  exact absurd h.2 (by decide)

end PhoneInput
end Client
end Liza
