/-
# The text of a JSON value

`json.JSONEncoder(separators=(",", ":"))`, the encoder Synapse stores account data with:
no blanks, and everything but the printable ASCII characters escaped.  A text column is
searched by `LIKE`, so what matters of a text is which parts it has: an item of a
dictionary stands in the text of the dictionary (`item_infix_compact`).

`json.dumps(v, ensure_ascii=False)` writes blanks after its separators and escapes only what
JSON itself forbids inside quotes.  The text of a dictionary of strings is one line
(`newline_notMem_dumps`).
-/

import Liza.Lib.Json
import Liza.Lib.Lines
import Mathlib.Data.List.Infix

set_option autoImplicit false

namespace Liza
namespace Lib

/-- A hexadecimal digit, in lower case. -/
def hexDigit (n : ℕ) : CodePoint :=
  Fin.ofNat 0x110000 (if n < 10 then 0x30 + n else 0x57 + n)

/-- `\uXXXX`. -/
def unicodeEscape (n : ℕ) : PyStr :=
  py "\\u" ++ [hexDigit (n / 4096 % 16), hexDigit (n / 256 % 16), hexDigit (n / 16 % 16),
    hexDigit (n % 16)]

/-- A printable ASCII character that stands for itself inside quotes. -/
def isPlain (c : CodePoint) : Bool :=
  0x20 ≤ c.val ∧ c.val ≤ 0x7E ∧ c ≠ codePoint '"' ∧ c ≠ codePoint '\\'

/-- A character inside quotes. -/
def escapeChar (c : CodePoint) : PyStr :=
  if isPlain c then [c]
  else if c = codePoint '"' then py "\\\""
  else if c = codePoint '\\' then py "\\\\"
  else if c.val = 8 then py "\\b"
  else if c.val = 9 then py "\\t"
  else if c.val = 10 then py "\\n"
  else if c.val = 12 then py "\\f"
  else if c.val = 13 then py "\\r"
  else if c.val < 0x10000 then unicodeEscape c.val
  else unicodeEscape (0xD800 + (c.val - 0x10000) / 1024) ++
    unicodeEscape (0xDC00 + (c.val - 0x10000) % 1024)

/-- A string with its quotes. -/
def quote (s : PyStr) : PyStr := py "\"" ++ s.flatMap escapeChar ++ py "\""

mutual

/-- The text of a value. -/
def Json.compact : Json → PyStr
  | .null => "null"
  | .bool b => if b then "true" else "false"
  | .int n => py (toString n)
  | .float repr => repr
  | .str s => quote s
  | .arr l => py "[" ++ Json.compactList l ++ py "]"
  | .obj d => py "\x7b" ++ Json.compactDict d ++ py "\x7d"

/-- The elements of a list, with commas between them. -/
def Json.compactList : List Json → PyStr
  | [] => []
  | [v] => Json.compact v
  | v :: w :: l => Json.compact v ++ py "," ++ Json.compactList (w :: l)

/-- The items of a dictionary, with commas between them. -/
def Json.compactDict : List (PyStr × Json) → PyStr
  | [] => []
  | [(k, v)] => quote k ++ py ":" ++ Json.compact v
  | (k, v) :: e :: d => quote k ++ py ":" ++ Json.compact v ++ py "," ++ Json.compactDict (e :: d)

end

/-- The text of an item. -/
def itemText (k : PyStr) (v : Json) : PyStr := quote k ++ py ":" ++ v.compact

example : itemText "role" (.str "a\"ж") = py "\"role\":\"a\\\"\\u0436\"" := by decide

/-- A string of plain characters stands for itself. -/
theorem quote_of_plain {s : PyStr} (h : s.all isPlain = true) : quote s = py "\"" ++ s ++ py "\"" := by
  have hflat : s.flatMap escapeChar = s := by
    induction s with
    | nil => rfl
    | cons c s ih =>
        simp only [List.all_cons, Bool.and_eq_true] at h
        rw [List.flatMap_cons, ih h.2, escapeChar, if_pos h.1]
        rfl
  rw [quote, hflat]

theorem item_infix_compactDict {d : Dict} {k : PyStr} {v : Json} (h : d.get? k = some v) :
    itemText k v <:+: Json.compactDict d := by
  induction d with
  | nil => simp at h
  | cons e rest ih =>
      obtain ⟨l, w⟩ := e
      -- The item is the first one, or it stands in the text of the rest.
      have hfirst : l = k → itemText k v = itemText l w := by
        rintro rfl
        rw [Dict.get?_cons, if_pos rfl] at h
        rw [Option.some.inj h]
      cases rest with
      | nil =>
          by_cases hl : l = k
          · rw [hfirst hl]
            exact List.infix_refl _
          · simp [Dict.get?_cons, hl] at h
      | cons e rest =>
          rw [Json.compactDict]
          by_cases hl : l = k
          · rw [hfirst hl, itemText, List.append_assoc _ (py ",")]
            exact (List.prefix_append _ _).isInfix
          · rw [Dict.get?_cons, if_neg hl] at h
            exact (ih h).trans (List.suffix_append _ _).isInfix

/-- **An item of a dictionary stands in its text.** -/
theorem item_infix_compact {d : Dict} {k : PyStr} {v : Json} (h : d.get? k = some v) :
    itemText k v <:+: (Json.obj d).compact := by
  rw [Json.compact]
  exact (item_infix_compactDict h).trans
    ((List.suffix_append _ _).isInfix.trans (List.prefix_append _ _).isInfix)

/-! ### `json.dumps(v, ensure_ascii=False)` -/

/-- A character inside the quotes of a text that keeps what is not ASCII. -/
def escapeControl (c : CodePoint) : PyStr :=
  if c = codePoint '"' then py "\\\""
  else if c = codePoint '\\' then py "\\\\"
  else if c.val = 8 then py "\\b"
  else if c.val = 9 then py "\\t"
  else if c.val = 10 then py "\\n"
  else if c.val = 12 then py "\\f"
  else if c.val = 13 then py "\\r"
  else if c.val < 0x20 then unicodeEscape c.val
  else [c]

/-- A string with its quotes. -/
def quoteText (s : PyStr) : PyStr := py "\"" ++ s.flatMap escapeControl ++ py "\""

mutual

/-- `json.dumps(v, ensure_ascii=False)`. -/
def Json.dumps : Json → PyStr
  | .null => "null"
  | .bool b => if b then "true" else "false"
  | .int n => py (toString n)
  | .float repr => if repr = py "inf" then "Infinity" else if repr = py "-inf" then "-Infinity"
      else if repr = py "nan" then "NaN" else repr
  | .str s => quoteText s
  | .arr l => py "[" ++ Json.dumpsList l ++ py "]"
  | .obj d => py "\x7b" ++ Json.dumpsDict d ++ py "\x7d"

/-- The elements of a list. -/
def Json.dumpsList : List Json → PyStr
  | [] => []
  | [v] => Json.dumps v
  | v :: w :: l => Json.dumps v ++ py ", " ++ Json.dumpsList (w :: l)

/-- The items of a dictionary. -/
def Json.dumpsDict : List (PyStr × Json) → PyStr
  | [] => []
  | [(k, v)] => quoteText k ++ py ": " ++ Json.dumps v
  | (k, v) :: e :: d => quoteText k ++ py ": " ++ Json.dumps v ++ py ", " ++ Json.dumpsDict (e :: d)

end

example : (Json.obj [("id", .str "ж\n"), ("n", .int 5)]).dumps =
    py "\x7b\"id\": \"ж\\n\", \"n\": 5\x7d" := by decide

theorem newline_notMem_unicodeEscape (n : ℕ) : newline ∉ unicodeEscape n := by
  have hdigit : ∀ m, newline ≠ hexDigit (m % 16) := by
    intro m
    have hm : m % 16 < 16 := Nat.mod_lt _ (by decide)
    generalize m % 16 = k at hm
    revert k
    decide
  have hstart : newline ∉ py "\\u" := by decide
  simp only [unicodeEscape, List.mem_append, List.mem_cons, List.not_mem_nil, or_false, not_or]
  exact ⟨hstart, hdigit _, hdigit _, hdigit _, hdigit _⟩

theorem newline_notMem_escapeControl (c : CodePoint) : newline ∉ escapeControl c := by
  unfold escapeControl
  repeat' split
  any_goals decide
  · exact newline_notMem_unicodeEscape _
  · rename_i h _ _ _
    intro hc
    have hval : newline.val = c.val := congrArg Fin.val (List.mem_singleton.1 hc)
    exact h (hval.symm.trans (by decide))

theorem newline_notMem_quoteText (s : PyStr) : newline ∉ quoteText s := by
  have hquote : newline ∉ py "\"" := by decide
  simp only [quoteText, List.mem_append, List.mem_flatMap, not_or, not_exists, not_and]
  exact ⟨⟨hquote, fun c _ => newline_notMem_escapeControl c⟩, hquote⟩

/-- **The text of a dictionary of strings is one line.** -/
theorem newline_notMem_dumps (d : List (PyStr × PyStr)) :
    newline ∉ (Json.obj (d.map fun e => (e.1, .str e.2))).dumps := by
  have hitems : newline ∉ Json.dumpsDict (d.map fun e => (e.1, .str e.2)) := by
    induction d with
    | nil => simp [Json.dumpsDict]
    | cons e d ih =>
        have hcolon : newline ∉ py ": " := by decide
        have hcomma : newline ∉ py ", " := by decide
        cases d with
        | nil =>
            simp [Json.dumpsDict, Json.dumps, newline_notMem_quoteText, hcolon]
        | cons e' d =>
            simp only [List.map_cons, Json.dumpsDict, Json.dumps] at ih ⊢
            simp [newline_notMem_quoteText, hcolon, hcomma, ih]
  have hopen : newline ∉ py "\x7b" := by decide
  have hclose : newline ∉ py "\x7d" := by decide
  simp only [Json.dumps, List.mem_append, not_or]
  exact ⟨⟨hopen, hitems⟩, hclose⟩

end Lib
end Liza
