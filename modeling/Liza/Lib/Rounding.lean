/-
# Rounding

An operation on doubles gives the exact result, rounded.  What is used of it here is that rounding
does not change an order and that 0 and 1 are their own rounding (`Rounding`), so every result about
it holds of doubles as it does of exact numbers (`Rounding.none`).

Between two powers of two the doubles are the multiples of one number, and rounding goes to the
nearest of them (`Rounding.grid`).
-/

import Mathlib.Data.Rat.Floor
import Mathlib.Algebra.Order.Ring.Rat
import Mathlib.Tactic.Linarith
import Mathlib.Tactic.Positivity

set_option autoImplicit false

namespace Liza
namespace Lib

/-- How the result of an operation is rounded. -/
structure Rounding where
  round : ℚ → ℚ
  monotone : Monotone round
  zero : round 0 = 0
  one : round 1 = 1

namespace Rounding

variable {R : Rounding} {q : ℚ}

/-- Every number is its own rounding. -/
def none : Rounding := ⟨id, monotone_id, rfl, rfl⟩

/-- To the nearest multiple of `2 ^ -n`; from the middle between two of them, to the greater. -/
def grid (n : ℕ) : Rounding where
  round q := ⌊q * 2 ^ n + 1 / 2⌋ / 2 ^ n
  monotone := fun a b h => by
    have hfloor : ⌊a * 2 ^ n + 1 / 2⌋ ≤ ⌊b * 2 ^ n + 1 / 2⌋ := by
      refine Int.floor_mono ?_
      have := mul_le_mul_of_nonneg_right h (by positivity : (0 : ℚ) ≤ 2 ^ n)
      linarith
    exact div_le_div_of_nonneg_right (by exact_mod_cast hfloor) (by positivity)
  zero := by norm_num
  one := by
    have hfloor : ⌊(2 : ℚ) ^ n + 1 / 2⌋ = 2 ^ n := by
      rw [show (2 : ℚ) ^ n = ((2 ^ n : ℤ) : ℚ) by push_cast; rfl, Int.floor_intCast_add]
      norm_num
    rw [one_mul, hfloor, div_eq_one_iff_eq (by positivity)]
    push_cast
    rfl

theorem grid_round (n : ℕ) (q : ℚ) : (grid n).round q = ⌊q * 2 ^ n + 1 / 2⌋ / 2 ^ n := rfl

theorem round_nonneg (h : 0 ≤ q) : 0 ≤ R.round q := R.zero ▸ R.monotone h

theorem round_le_one (h : q ≤ 1) : R.round q ≤ 1 := R.one ▸ R.monotone h

end Rounding

end Lib
end Liza
