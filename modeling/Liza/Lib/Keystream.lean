/-
# Masking a text with a keystream

A stream cipher combines byte `n` of a text with byte `n` of a keystream.  `mask ks n d`
does it for a part `d` of a text that starts at byte `n`.  A text may be cut anywhere: its
parts are masked on their own (`mask_append`), what is dropped before is dropped after
(`drop_mask`), and a keystream that starts later masks the later part (`mask_shift`).
-/

import Mathlib.Data.List.Basic

set_option autoImplicit false

namespace Liza
namespace Lib

section Keystream

variable {α β : Type*} (op : α → β → α)

/-- The part of a text from byte `n` on, combined with the keystream. -/
def mask (ks : ℕ → β) : ℕ → List α → List α
  | _, [] => []
  | n, x :: d => op x (ks n) :: mask ks (n + 1) d

variable {op} {ks ks' : ℕ → β}

@[simp]
theorem length_mask (n : ℕ) (d : List α) : (mask op ks n d).length = d.length := by
  induction d generalizing n with
  | nil => rfl
  | cons x d ih => simp [mask, ih]

/-- The parts of a text are masked on their own. -/
theorem mask_append (n : ℕ) (d e : List α) :
    mask op ks n (d ++ e) = mask op ks n d ++ mask op ks (n + d.length) e := by
  induction d generalizing n with
  | nil => simp [mask]
  | cons x d ih =>
      have hn : n + 1 + d.length = n + (d.length + 1) := by omega
      simp [mask, ih, hn]

/-- Dropping the start of a masked text. -/
theorem drop_mask (n k : ℕ) (d : List α) :
    (mask op ks n d).drop k = mask op ks (n + k) (d.drop k) := by
  induction k generalizing n d with
  | zero => rfl
  | succ k ih =>
      cases d with
      | nil => simp [mask]
      | cons x d =>
          have hn : n + 1 + k = n + (k + 1) := by omega
          simp [mask, ih, hn]

/-- A keystream that is a later part of another one. -/
theorem mask_shift {k : ℕ} (h : ∀ i, ks' i = ks (k + i)) (n : ℕ) (d : List α) :
    mask op ks' n d = mask op ks (k + n) d := by
  induction d generalizing n with
  | nil => rfl
  | cons x d ih =>
      have hn : k + (n + 1) = k + n + 1 := by omega
      simp [mask, h, ih, hn]

end Keystream

end Lib
end Liza
