/-
# Programs that a machine follows

`Simulates step C P m Q E`: where `P` relates the state of the program `m` to a state of the
machine, the machine has a run after which the two are related again, by `Q` if the program has
returned and by `E` if it has raised.  The rules follow the program text.  Where the program writes
its state the machine may move (`write`); a part of the program that the machine does not see is
followed by a run that makes up for what it has changed (`of_preserves`).
-/

import Liza.Lib.Past
import Liza.Lib.Prog

set_option autoImplicit false

namespace Liza
namespace Lib

/-- How the state of a machine is related to the end of a program. -/
def Ends {σ τ β : Type} (Q : β → σ → τ → Prop) (E : σ → τ → Prop) : Except Unit β × σ → τ → Prop
  | (.ok b, w), t => Q b w t
  | (.error _, w), t => E w t

/-- The machine follows the program. -/
def Simulates {σ τ β κ : Type} (step : τ → κ → Option τ) (C : τ → κ → Prop) (P : σ → τ → Prop)
    (m : Prog σ β) (Q : β → σ → τ → Prop) (E : σ → τ → Prop) : Prop :=
  ∀ w s, P w s → ∃ as t, Exec step C s as t ∧ Ends Q E (m.run.run w) t

namespace Simulates

variable {σ τ β γ κ : Type} {step : τ → κ → Option τ} {C : τ → κ → Prop} {P K : σ → τ → Prop}
  {m m' : Prog σ β} {f : β → Prog σ γ} {Q G : β → σ → τ → Prop} {R : γ → σ → τ → Prop}
  {E F : σ → τ → Prop}

theorem pure {b : β} (h : ∀ w s, P w s → Q b w s) :
    Simulates step C P (Pure.pure b) Q E := fun w s hs => ⟨[], s, .nil s, h w s hs⟩

/-- A write: the machine moves to where the new state is related to it. -/
theorem write {g : σ → σ} {Q : PUnit → σ → τ → Prop}
    (h : ∀ w s, P w s → ∃ as t, Exec step C s as t ∧ Q ⟨⟩ (g w) t) :
    Simulates step C P (modify g) Q E := fun w s hs => h w s hs

/-- **A sequence is followed in sequence.** -/
theorem bind (hm : Simulates step C P m Q E) (hf : ∀ b, Simulates step C (Q b) (f b) R E) :
    Simulates step C P (m >>= f) R E := by
  intro w s hs
  obtain ⟨as, t, hrun, hend⟩ := hm w s hs
  rw [ExceptT.run_bind, StateT.run_bind]
  generalize m.run.run w = r at hend
  obtain ⟨e | b, w'⟩ := r
  · exact ⟨as, t, hrun, hend⟩
  · obtain ⟨bs, u, hrun', hend'⟩ := hf b w' t hend
    exact ⟨as ++ bs, u, hrun.trans hrun', hend'⟩

/-- A program whose answer is not looked at. -/
theorem discard {Q : σ → τ → Prop} (hm : Simulates step C P m (fun _ => Q) E) :
    Simulates step C P (discard m) (fun _ => Q) E := hm.bind fun _ => .pure fun _ _ h => h

/-- A read: what follows is looked at from the state it has read. -/
theorem get_bind {f : σ → Prog σ γ}
    (hf : ∀ w, Simulates step C (fun w' s => w' = w ∧ P w' s) (f w) R E) :
    Simulates step C P (get >>= f) R E := fun w s hs => hf w w s ⟨rfl, hs⟩

theorem ite {c : Prop} [Decidable c] (hm : c → Simulates step C P m Q E)
    (hm' : ¬c → Simulates step C P m' Q E) : Simulates step C P (if c then m else m') Q E := by
  split
  · case _ hc => exact hm hc
  · case _ hc => exact hm' hc

/-- The machine moves before the program does. -/
theorem before (h : ∀ w s, P w s → ∃ as t, Exec step C s as t ∧ K w t)
    (hm : Simulates step C K m Q E) : Simulates step C P m Q E := by
  intro w s hs
  obtain ⟨as, t, hrun, ht⟩ := h w s hs
  obtain ⟨bs, u, hrun', hend⟩ := hm w t ht
  exact ⟨as ++ bs, u, hrun.trans hrun', hend⟩

/-- The machine moves once more when the program has come to its end. -/
theorem after (hm : Simulates step C P m G F)
    (hQ : ∀ b w s, G b w s → ∃ as t, Exec step C s as t ∧ Q b w t)
    (hE : ∀ w s, F w s → ∃ as t, Exec step C s as t ∧ E w t) :
    Simulates step C P m Q E := by
  intro w s hs
  obtain ⟨as, t, hrun, hend⟩ := hm w s hs
  generalize m.run.run w = r at hend ⊢
  obtain ⟨e | b, w'⟩ := r
  · obtain ⟨bs, u, hrun', hu⟩ := hE w' t hend
    exact ⟨as ++ bs, u, hrun.trans hrun', hu⟩
  · obtain ⟨bs, u, hrun', hu⟩ := hQ b w' t hend
    exact ⟨as ++ bs, u, hrun.trans hrun', hu⟩

/-- **A part that the machine does not see**: it makes up for what the part has changed. -/
theorem of_preserves {D : σ → σ → Prop} (hD : ∀ w, Preserves (D w) m) (hrefl : ∀ w, D w w)
    (h : ∀ w s w', P w s → D w w' → ∃ as t, Exec step C s as t ∧ K w' t) :
    Simulates step C P m (fun _ => K) K := by
  intro w s hs
  have hend : D w (m.run.run w).2 := hD w w (hrefl w)
  generalize m.run.run w = r at hend ⊢
  obtain ⟨as, t, hrun, ht⟩ := h w s r.2 hs hend
  obtain ⟨e | b, w'⟩ := r
  · exact ⟨as, t, hrun, ht⟩
  · exact ⟨as, t, hrun, ht⟩

end Simulates

end Lib
end Liza
