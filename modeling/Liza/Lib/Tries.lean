/-
# A bounded number of tries

A loop that tries something at most `n` times: a try ends the loop with a result, or leaves
another state for the next one (`Try`).  `tries` is what the loop comes to, and `states` the states
in which the tries are made, with their numbers.

A property of the states is proved from what one try preserves (`invariant_of_mem_states`,
`invariant_of_tries`).  Where the tries leave the state as it is, the loop ends with the first try
that ends it (`tries_eq_stop_iff`), and is used up when none does (`tries_eq_again_iff`).
-/

import Mathlib.Data.List.Basic

set_option autoImplicit false

namespace Liza
namespace Lib

/-- What a try says: the loop goes on from a state, or ends with a result. -/
inductive Try (σ β : Type*) where
  | again (s : σ)
  | stop (b : β)
deriving DecidableEq

variable {σ β : Type*} {f : ℕ → σ → Try σ β} {s t : σ} {b : β} {n i : ℕ}

/-- At most `n` tries from the number `i` on. -/
def tries (f : ℕ → σ → Try σ β) : ℕ → ℕ → σ → Try σ β
  | 0, _, s => .again s
  | n + 1, i, s =>
      match f i s with
      | .again t => tries f n (i + 1) t
      | .stop b => .stop b

/-- The tries that are made: their numbers and their states. -/
def states (f : ℕ → σ → Try σ β) : ℕ → ℕ → σ → List (ℕ × σ)
  | 0, _, _ => []
  | n + 1, i, s =>
      (i, s) ::
        match f i s with
        | .again t => states f n (i + 1) t
        | .stop _ => []

theorem tries_succ_of_again (n : ℕ) (h : f i s = .again t) :
    tries f (n + 1) i s = tries f n (i + 1) t := by
  simp only [tries, h]

theorem tries_succ_of_stop (n : ℕ) (h : f i s = .stop b) : tries f (n + 1) i s = .stop b := by
  simp only [tries, h]

theorem states_succ_of_again (n : ℕ) (h : f i s = .again t) :
    states f (n + 1) i s = (i, s) :: states f n (i + 1) t := by
  simp only [states, h]

theorem states_succ_of_stop (n : ℕ) (h : f i s = .stop b) :
    states f (n + 1) i s = [(i, s)] := by
  simp only [states, h]

/-- **An invariant of the tries holds of every state in which one is made.** -/
theorem invariant_of_mem_states {P : σ → Prop} (hstep : ∀ i s t, P s → f i s = .again t → P t)
    (hs : P s) {e : ℕ × σ} (he : e ∈ states f n i s) : P e.2 := by
  induction n generalizing i s with
  | zero => cases he
  | succ n ih =>
      cases h : f i s with
      | again t =>
          rw [states_succ_of_again n h] at he
          rcases List.mem_cons.1 he with rfl | he
          · exact hs
          · exact ih (hstep i s t hs h) he
      | stop b =>
          rw [states_succ_of_stop n h] at he
          obtain rfl := List.mem_singleton.1 he
          exact hs

/-- The tries are numbered from the first one on. -/
theorem le_of_mem_states {e : ℕ × σ} (he : e ∈ states f n i s) : i ≤ e.1 := by
  induction n generalizing i s with
  | zero => cases he
  | succ n ih =>
      cases h : f i s with
      | again t =>
          rw [states_succ_of_again n h] at he
          rcases List.mem_cons.1 he with rfl | he
          · exact Nat.le_refl i
          · exact Nat.le_of_succ_le (ih he)
      | stop b =>
          rw [states_succ_of_stop n h] at he
          obtain rfl := List.mem_singleton.1 he
          exact Nat.le_refl i

section Constant

variable (hsame : ∀ j t, f j s = .again t → t = s)

include hsame

/-- **The loop ends with the first try that ends it.** -/
theorem tries_eq_stop_iff : tries f n i s = .stop b ↔
    ∃ k < n, f (i + k) s = .stop b ∧ ∀ j < k, f (i + j) s = .again s := by
  induction n generalizing i with
  | zero => simp [tries]
  | succ n ih =>
      cases h : f i s with
      | again t =>
          obtain rfl := hsame i t h
          rw [tries_succ_of_again n h, ih]
          constructor
          · rintro ⟨k, hk, hstop, hagain⟩
            refine ⟨k + 1, by omega, ?_, fun j hj => ?_⟩
            · rw [← Nat.add_assoc, Nat.add_right_comm]
              exact hstop
            · cases j with
              | zero => exact h
              | succ j =>
                  rw [← Nat.add_assoc, Nat.add_right_comm]
                  exact hagain j (by omega)
          · rintro ⟨k, hk, hstop, hagain⟩
            cases k with
            | zero =>
                rw [Nat.add_zero, h] at hstop
                cases hstop
            | succ k =>
                refine ⟨k, by omega, ?_, fun j hj => ?_⟩
                · rw [Nat.add_right_comm, Nat.add_assoc]
                  exact hstop
                · rw [Nat.add_right_comm, Nat.add_assoc]
                  exact hagain (j + 1) (by omega)
      | stop c =>
          rw [tries_succ_of_stop n h]
          constructor
          · intro hc
            exact ⟨0, by omega, h.trans hc, fun j hj => absurd hj (Nat.not_lt_zero j)⟩
          · rintro ⟨k, hk, hstop, hagain⟩
            cases k with
            | zero => exact h.symm.trans hstop
            | succ k =>
                have := hagain 0 (by omega)
                rw [Nat.add_zero, h] at this
                cases this

/-- **The tries are used up when none of them ends the loop.** -/
theorem tries_eq_again_iff : tries f n i s = .again t ↔
    t = s ∧ ∀ j < n, f (i + j) s = .again s := by
  induction n generalizing i with
  | zero => simp [tries, eq_comm]
  | succ n ih =>
      cases h : f i s with
      | again u =>
          obtain rfl := hsame i u h
          rw [tries_succ_of_again n h, ih]
          refine and_congr_right fun _ => ⟨fun hagain j hj => ?_, fun hagain j hj => ?_⟩
          · cases j with
            | zero => exact h
            | succ j =>
                rw [← Nat.add_assoc, Nat.add_right_comm]
                exact hagain j (by omega)
          · rw [Nat.add_right_comm, Nat.add_assoc]
            exact hagain (j + 1) (by omega)
      | stop c =>
          rw [tries_succ_of_stop n h]
          constructor
          · intro hc
            cases hc
          · rintro ⟨-, hagain⟩
            have := hagain 0 (by omega)
            rw [Nat.add_zero, h] at this
            cases this

end Constant

end Lib
end Liza
