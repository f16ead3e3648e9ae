/-
# The steps a run has taken

`Took step C s P as`: one of the steps of the run from `s` along `as` was taken in a state, and with
a label, that `P` holds of.  It stays so when the run goes on (`Took.append`), so what is known of
the past of a state is an invariant that speaks of the labels so far, and is proved from what one
more step does (`Exec.invariant_past`).
-/

import Liza.Lib.Run

set_option autoImplicit false

namespace Liza
namespace Lib

variable {σ α : Type*} {step : σ → α → Option σ} {C : σ → α → Prop} {s t u : σ} {a : α}
  {as bs : List α} {P Q : σ → α → Prop}

/-- Some step of the run from `s` along `as` has `P`. -/
def Took (step : σ → α → Option σ) (C : σ → α → Prop) (s : σ) (P : σ → α → Prop) (as : List α) :
    Prop :=
  ∃ bs a cs u, as = bs ++ a :: cs ∧ Exec step C s bs u ∧ P u a

/-- The step that comes next. -/
theorem Took.now (h : Exec step C s as t) (ht : P t a) : Took step C s P (as ++ [a]) :=
  ⟨as, a, [], t, rfl, h, ht⟩

/-- What was taken stays taken. -/
theorem Took.append (h : Took step C s P as) (bs : List α) : Took step C s P (as ++ bs) := by
  obtain ⟨ds, a, cs, u, rfl, hrun, hu⟩ := h
  exact ⟨ds, a, cs ++ bs, u, List.append_assoc _ _ _, hrun, hu⟩

/-- Two runs, one after the other. -/
theorem Exec.trans (h : Exec step C s as t) (h' : Exec step C t bs u) :
    Exec step C s (as ++ bs) u := by
  induction h with
  | nil => exact h'
  | cons hc hs _ ih => exact .cons hc hs (ih h')

/-- One more step. -/
theorem Exec.snoc (h : Exec step C s as t) (hc : C t a) (hs : step t a = some u) :
    Exec step C s (as ++ [a]) u :=
  h.trans (.cons hc hs (.nil u))

/-- **An invariant may speak of the past**: it holds along every run if each step keeps it when the
labels are extended by its own. -/
theorem Exec.invariant_past {I : List α → σ → Prop} (h : Exec step C s as t) (h₀ : I [] s)
    (hstep : ∀ bs u a v, Exec step C s bs u → I bs u → C u a → step u a = some v → I (bs ++ [a]) v) :
    I as t := by
  -- the run is read from the front, so the part that was read is carried along
  have key : ∀ {u v : σ} {cs : List α}, Exec step C u cs v →
      ∀ bs, Exec step C s bs u → I bs u → I (bs ++ cs) v := by
    intro u v cs hrun
    induction hrun with
    | nil => exact fun bs _ hI => by rwa [List.append_nil]
    | @cons u w v a cs hc hs _ ih =>
        intro bs hbs hI
        have := ih (bs ++ [a]) (hbs.snoc hc hs) (hstep bs u a w hbs hI hc hs)
        rwa [List.append_assoc] at this
  exact key h [] (.nil s) h₀

end Lib
end Liza
