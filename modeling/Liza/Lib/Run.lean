/-
# Runs of a labelled transition system

A system is a partial step function `step : σ → α → Option σ`: the label says
which of the enabled moves is taken, so every schedule of a concurrent system is
a list of labels.  `Exec step C s as t` is a run from `s` to `t` along `as`, all
of whose steps are taken in a state where `C` allows them; `C` is where a result
about a restricted class of runs says which steps it is about.

A property of every reachable state is proved from what one step preserves
(`Exec.invariant`), and a concrete run is checked by evaluation (`runs`).
-/

import Mathlib.Data.List.Basic

set_option autoImplicit false

namespace Liza
namespace Lib

variable {σ α : Type*} {step : σ → α → Option σ} {C : σ → α → Prop}

/-- A run along the given labels, every step of which `C` allows. -/
inductive Exec (step : σ → α → Option σ) (C : σ → α → Prop) : σ → List α → σ → Prop
  | nil (s : σ) : Exec step C s [] s
  | cons {s t u : σ} {a : α} {as : List α} (hc : C s a) (hs : step s a = some t)
      (h : Exec step C t as u) : Exec step C s (a :: as) u

/-- **An invariant of every allowed step holds along every run.** -/
theorem Exec.invariant {I : σ → Prop} {s t : σ} {as : List α} (h : Exec step C s as t)
    (h₀ : I s) (hstep : ∀ s a t, I s → C s a → step s a = some t → I t) : I t := by
  induction h with
  | nil s => exact h₀
  | cons hc hs _ ih => exact ih (hstep _ _ _ h₀ hc hs)

/-- A run keeps its steps when the condition on them is weakened. -/
theorem Exec.mono {C' : σ → α → Prop} (hC : ∀ s a, C s a → C' s a) {s t : σ} {as : List α}
    (h : Exec step C s as t) : Exec step C' s as t := by
  induction h with
  | nil s => exact .nil s
  | cons hc hs _ ih => exact .cons (hC _ _ hc) hs ih

/-- What holds of every label of a run may be added to the condition on its steps. -/
theorem Exec.and_mem {D : α → Prop} {s t : σ} {as : List α} (h : Exec step C s as t)
    (hD : ∀ a ∈ as, D a) : Exec step (fun s a => C s a ∧ D a) s as t := by
  induction h with
  | nil s => exact .nil s
  | cons hc hs _ ih =>
      exact .cons ⟨hc, hD _ List.mem_cons_self⟩ hs (ih fun a ha => hD a (List.mem_cons_of_mem _ ha))

/-- Every step along the labels meets `P`, which may speak of the states before and after it. -/
def Along (step : σ → α → Option σ) (P : σ → α → σ → Prop) : σ → List α → Prop
  | _, [] => True
  | s, a :: as => ∀ t, step s a = some t → P s a t ∧ Along step P t as

/-- **Two properties of a step agree along a run** if they agree where an invariant holds that the
first of them keeps. -/
theorem along_congr {P Q : σ → α → σ → Prop} {I : σ → Prop}
    (hiff : ∀ s a t, I s → step s a = some t → (P s a t ↔ Q s a t))
    (hkeep : ∀ s a t, I s → step s a = some t → P s a t → I t) {s : σ} (hs : I s) (as : List α) :
    Along step P s as ↔ Along step Q s as := by
  induction as generalizing s with
  | nil => exact Iff.rfl
  | cons a as ih =>
      refine forall_congr' fun t => imp_congr_right fun ht => ?_
      constructor
      · rintro ⟨hp, hrest⟩
        exact ⟨(hiff s a t hs ht).1 hp, (ih (hkeep s a t hs ht hp)).1 hrest⟩
      · rintro ⟨hq, hrest⟩
        have hp := (hiff s a t hs ht).2 hq
        exact ⟨hp, (ih (hkeep s a t hs ht hp)).2 hrest⟩

/-- What every step of a run meets, it meets along the run. -/
theorem Exec.along {s t : σ} {as : List α} (h : Exec step C s as t) :
    Along step (fun s a _ => C s a) s as := by
  induction h with
  | nil s => trivial
  | cons hc hs _ ih =>
      intro u hu
      obtain rfl := Option.some.inj (hs.symm.trans hu)
      exact ⟨hc, ih⟩

/-- A guard of a step function that passes. -/
theorem of_guard {p : Prop} [Decidable p] {u : Unit} (h : (guard p : Option Unit) = some u) :
    p := by
  by_contra hp
  simp [guard, hp] at h

/-- The state a list of labels leads to, when every label is enabled and
allowed in turn. -/
def runs (step : σ → α → Option σ) (C : σ → α → Prop) [∀ s a, Decidable (C s a)] :
    σ → List α → Option σ
  | s, [] => some s
  | s, a :: as => if C s a then (step s a).bind fun t => runs step C t as else none

/-- **A run that evaluates is a run.** -/
theorem exec_of_runs [∀ s a, Decidable (C s a)] {s t : σ} {as : List α}
    (h : runs step C s as = some t) : Exec step C s as t := by
  induction as generalizing s with
  | nil =>
      obtain rfl := Option.some.inj h
      exact .nil s
  | cons a as ih =>
      simp only [runs] at h
      split at h
      · rename_i hc
        obtain ⟨u, hu, hrest⟩ := Option.bind_eq_some_iff.1 h
        exact .cons hc hu (ih hrest)
      · simp at h

/-- A run that evaluates to a state with a decidable property. -/
theorem exists_exec_of_runs {f : σ → α → Option σ} [∀ s a, Decidable (C s a)] {p : σ → Prop}
    [DecidablePred p] {s : σ} {l : List α}
    (h : (runs f C s l).any (fun t => decide (p t)) = true) : ∃ t, Exec f C s l t ∧ p t := by
  obtain ⟨ht, hp⟩ := (Option.any_eq_true_iff_get _ _).1 h
  exact ⟨_, exec_of_runs (Option.some_get ht).symm, of_decide_eq_true hp⟩

/-- A run that evaluates, and one more step of it, with a decidable property of the
step. -/
theorem exists_step_of_runs {f : σ → α → Option σ} [∀ s a, Decidable (C s a)] {p : σ → σ → Prop}
    [∀ t u, Decidable (p t u)] {s : σ} {l : List α} {a : α}
    (h : (runs f C s l).any (fun t => (f t a).any fun u => decide (p t u)) = true) :
    ∃ t u, Exec f C s l t ∧ f t a = some u ∧ p t u := by
  obtain ⟨ht, hu⟩ := (Option.any_eq_true_iff_get _ _).1 h
  obtain ⟨hu, hp⟩ := (Option.any_eq_true_iff_get _ _).1 hu
  exact ⟨_, _, exec_of_runs (Option.some_get ht).symm, (Option.some_get hu).symm,
    of_decide_eq_true hp⟩

end Lib
end Liza
