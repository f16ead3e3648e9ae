/-
# Programs over a state that may stop with an exception

`Prog σ α` reads and writes a state `σ` and returns an `α` or raises; the state it has
reached is there either way.  `Preserves P m` says that `P` holds of the state after `m`
where it held before, whichever way `m` ends.  The rules follow the program text: a
sequence preserves what its parts preserve, and only the places that write the state are
looked at.
-/

import Mathlib.Logic.Basic

set_option autoImplicit false

namespace Liza
namespace Lib

/-- A program over the state `σ` that returns an `α` or raises. -/
abbrev Prog (σ α : Type) := ExceptT Unit (StateM σ) α

/-- The state in which the program ends. -/
def Prog.exec {σ α : Type} (m : Prog σ α) (s : σ) : σ := (m.run.run s).2

/-- `P` holds after the program where it held before. -/
def Preserves {σ α : Type} (P : σ → Prop) (m : Prog σ α) : Prop := ∀ s, P s → P (m.exec s)

namespace Preserves

variable {σ α β : Type} {P : σ → Prop} {m m' : Prog σ α} {f : α → Prog σ β}

theorem pure (a : α) : Preserves P (Pure.pure a : Prog σ α) := fun _ hs => hs

theorem throw : Preserves P (MonadExcept.throw () : Prog σ α) := fun _ hs => hs

/-- A write: `P` is kept by the function written with. -/
theorem write {g : σ → σ} (hg : ∀ s, P s → P (g s)) : Preserves P (modify g : Prog σ PUnit) :=
  fun s hs => hg s hs

/-- **A sequence preserves what both parts preserve.** -/
theorem bind (hm : Preserves P m) (hf : ∀ a, Preserves P (f a)) : Preserves P (m >>= f) := by
  intro s hs
  have hm := hm s hs
  unfold Prog.exec at hm ⊢
  rw [ExceptT.run_bind, StateT.run_bind]
  generalize m.run.run s = r at hm
  obtain ⟨a | a, s'⟩ := r
  · exact hm
  · exact hf a s' hm

/-- A program whose answer is not looked at. -/
theorem discard (hm : Preserves P m) : Preserves P (discard m) := hm.bind fun _ => .pure _

/-- A read: what follows is looked at from the state it has read. -/
theorem get_bind {f : σ → Prog σ β} (hf : ∀ s, P s → P ((f s).exec s)) :
    Preserves P (get >>= f) := fun s hs => hf s hs

theorem ite {c : Prop} [Decidable c] (hm : Preserves P m) (hm' : Preserves P m') :
    Preserves P (if c then m else m') := by
  split
  · exact hm
  · exact hm'

end Preserves

end Lib
end Liza
