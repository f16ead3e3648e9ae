/-
# What has not been spoiled since

A history is a list with its latest entry first.  Entries of `p` establish something,
entries of `q` may spoil it: `Unspoiled p q l` says that no entry of `q` has come since
the latest entry of `p`.  What `p` establishes and only `q` spoils then still holds,
which is proved an entry at a time (`unspoiled_cons_cases`).
-/

import Mathlib.Data.List.Basic

set_option autoImplicit false

namespace Liza
namespace Lib

variable {α : Type*} {p q : α → Bool}

/-- No entry of `q` has come since the latest entry of `p`. -/
def Unspoiled (p q : α → Bool) : List α → Bool
  | [] => true
  | e :: l => p e || (!q e && Unspoiled p q l)

/-- **The latest entry establishes, or it does not spoil and the rest counts.**  The
history has an entry of one of the two kinds. -/
theorem unspoiled_cons_cases {e : α} {l : List α} (h : Unspoiled p q (e :: l) = true)
    (hex : ∃ x ∈ e :: l, p x = true ∨ q x = true) :
    p e = true ∨ q e = false ∧ Unspoiled p q l = true ∧ ∃ x ∈ l, p x = true ∨ q x = true := by
  by_cases hp : p e = true
  · exact .inl hp
  · simp only [Unspoiled, hp, Bool.false_or, Bool.and_eq_true, Bool.not_eq_true'] at h
    obtain ⟨x, hx, hpq⟩ := hex
    rcases List.mem_cons.1 hx with rfl | hx
    · rcases hpq with hpx | hqx
      · exact absurd hpx hp
      · rw [h.1] at hqx
        cases hqx
    · exact .inr ⟨h.1, h.2, x, hx, hpq⟩

end Lib
end Liza
