/-
# Python strings

A Python `str` is a finite sequence of code points, and the surrogates
`U+D800 … U+DFFF` are code points like any other: `json.loads` builds a lone
one from `"\ud800"`, and only `str.encode` refuses it.  Lean's `Char` leaves
them out, so a `str` is modelled by a list of code points, and a literal of the
source by `py`, which is injective (`py_inj`).
-/

import Mathlib.Algebra.Ring.Nat
import Mathlib.Data.List.Basic
import Mathlib.Logic.Function.Basic

set_option autoImplicit false

namespace Liza
namespace Lib

/-- A Unicode code point, surrogates included. -/
abbrev CodePoint := Fin 0x110000

/-- A Python `str`. -/
abbrev PyStr := List CodePoint

instance neZero_codePoints : NeZero 0x110000 := ⟨by decide⟩

instance lawfulBEq_codePoint : LawfulBEq CodePoint := instLawfulBEq

instance : LawfulBEq PyStr := List.instLawfulBEq

/-- The code point of a character. -/
def codePoint (c : Char) : CodePoint := Fin.ofNat 0x110000 c.toNat

/-- The `str` written by a literal of the source. -/
def py (s : String) : PyStr := s.toList.map codePoint

instance : Coe String PyStr := ⟨py⟩

theorem codePoint_val (c : Char) : (codePoint c).val = c.toNat := by
  have hc : c.toNat < 0x110000 := by
    have := c.valid
    simp only [UInt32.isValidChar, Nat.isValidChar] at this
    change c.val.toNat < 0x110000
    omega
  exact Nat.mod_eq_of_lt hc

theorem codePoint_injective : Function.Injective codePoint := by
  intro c d h
  have : c.toNat = d.toNat := by rw [← codePoint_val, ← codePoint_val, h]
  exact Char.toNat_inj.1 this

theorem py_injective : Function.Injective py := by
  intro s t h
  exact String.toList_inj.1 (List.map_injective_iff.2 codePoint_injective h)

/-- `s.split(c, 1)`: what stands before the first `c`, and what stands after it
(`none` where there is no `c`). -/
def split1 (c : CodePoint) : PyStr → PyStr × Option PyStr
  | [] => ([], none)
  | d :: s => if d = c then ([], some s) else ((d :: (split1 c s).1), (split1 c s).2)

/-- `s.lstrip(c)` for a single character `c`. -/
def lstrip (c : CodePoint) (s : PyStr) : PyStr := s.dropWhile (· = c)

/-- Two literals are the same `str` exactly when they are the same text. -/
@[simp]
theorem py_inj {s t : String} : py s = py t ↔ s = t :=
  py_injective.eq_iff

example : py "m.text" ≠ py "m.emote" := by decide

end Lib
end Liza
