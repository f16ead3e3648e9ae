/-
# Big-endian numbers in a buffer

`readBE b p w` is the number in the `w` bytes of the buffer `b` from byte `p` on, most
significant byte first, or `none` where they reach beyond the end of the buffer; `writeBE`
writes it.  A number is read back where it was written (`readBE_writeBE`), the bytes elsewhere
stay (`getElem?_writeBE_of_outside`), and the same bytes are the same number (`readBE_congr`).
-/

import Mathlib.Data.List.Basic
import Mathlib.Algebra.Order.Ring.Nat
import Mathlib.Tactic.Ring

set_option autoImplicit false

namespace Liza
namespace Lib

/-- The number in `w` bytes of a buffer, from byte `p` on. -/
def readBE (b : List UInt8) (p : ℕ) : ℕ → Option ℕ
  | 0 => some 0
  | w + 1 => do
      let high ← readBE b p w
      let low ← b[p + w]?
      some (high * 256 + low.toNat)

/-- The buffer with a number written into `w` bytes, from byte `p` on. -/
def writeBE (b : List UInt8) (p : ℕ) : ℕ → ℕ → List UInt8
  | 0, _ => b
  | w + 1, v => (writeBE b p w (v / 256)).set (p + w) (UInt8.ofNat (v % 256))

example : readBE [0, 0, 1, 2] 0 4 = some 258 := by decide
example : writeBE [9, 0, 0, 0, 9] 1 3 258 = [9, 0, 1, 2, 9] := by decide

variable {b b' : List UInt8} {p w v i : ℕ}

@[simp]
theorem length_writeBE (b : List UInt8) (p w v : ℕ) : (writeBE b p w v).length = b.length := by
  induction w generalizing v with
  | zero => rfl
  | succ w ih => rw [writeBE, List.length_set, ih]

/-- The same bytes, in one place or in another one, are the same number. -/
theorem readBE_congr {q : ℕ} (h : ∀ i < w, b[p + i]? = b'[q + i]?) :
    readBE b p w = readBE b' q w := by
  induction w with
  | zero => rfl
  | succ w ih =>
      rw [readBE, readBE, ih fun i hi => h i (by omega), h w (by omega)]

/-- The other bytes of the buffer stay. -/
theorem getElem?_writeBE_of_outside (h : i < p ∨ p + w ≤ i) : (writeBE b p w v)[i]? = b[i]? := by
  induction w generalizing v with
  | zero => rfl
  | succ w ih => rw [writeBE, List.getElem?_set_ne (by omega), ih (by omega)]

/-- **A number is read back where it was written.** -/
theorem readBE_writeBE (hv : v < 256 ^ w) (hp : p + w ≤ b.length) :
    readBE (writeBE b p w v) p w = some v := by
  induction w generalizing v with
  | zero =>
      have hv0 : v = 0 := by simpa using hv
      rw [readBE, hv0]
  | succ w ih =>
      have hhigh : v / 256 < 256 ^ w := by
        rw [pow_succ] at hv
        exact Nat.div_lt_of_lt_mul (by rwa [Nat.mul_comm])
      have hread : readBE (writeBE b p (w + 1) v) p w = some (v / 256) := by
        rw [← ih hhigh (by omega)]
        refine readBE_congr fun i hi => ?_
        rw [writeBE, List.getElem?_set_ne (by omega)]
      have hbyte : (writeBE b p (w + 1) v)[p + w]? = some (UInt8.ofNat (v % 256)) := by
        rw [writeBE, List.getElem?_set_self (by rw [length_writeBE]; omega)]
      have hlow : (UInt8.ofNat (v % 256)).toNat = v % 256 := by
        rw [UInt8.toNat_ofNat']
        omega
      rw [readBE, hread, hbyte]
      show some (v / 256 * 256 + (UInt8.ofNat (v % 256)).toNat) = some v
      rw [hlow, Nat.div_add_mod' v 256]

end Lib
end Liza
