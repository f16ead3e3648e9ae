/-
# Where the threads of a system stand

The code of a job has finitely many awaits, so a thread stands at one of finitely many
points, each with a few parameters.  `A p t` says that `t` is what is left of the code at
the point `p`, and `Located A ps s` that the threads of the loop `s` stand at the points
`ps`, one by one.  A move of the loop moves one point and appends the points of the new
threads, so an invariant of a system can be stated of the world and a list of points, and
nothing more has to be known of the code.

Where the points are the states of an automaton that reads the operations of a task and their
answers, `Follows` says that a task is one whose operations the automaton accepts from a given
state; it is kept by sequencing, by exception handlers and by loops, so it is read off the code.
-/

import Liza.Lib.Task
import Mathlib.Data.List.Forall2

set_option autoImplicit false

namespace Liza
namespace Lib

section Forall2

variable {α β : Type*} {R : α → β → Prop} {l : List α} {m : List β} {i : ℕ} {a : α} {b : β}

/-- Two related lists stay so when an element of each is replaced. -/
theorem forall₂_set (h : List.Forall₂ R l m) (i : ℕ) (hab : R a b) :
    List.Forall₂ R (l.set i a) (m.set i b) := by
  induction h generalizing i with
  | nil => exact .nil
  | cons hxy hrest ih =>
      cases i with
      | zero => exact .cons hab hrest
      | succ i => exact .cons hxy (ih i)

/-- The element at the same place. -/
theorem forall₂_getElem? (h : List.Forall₂ R l m) (hi : m[i]? = some b) :
    ∃ a, l[i]? = some a ∧ R a b := by
  induction h generalizing i with
  | nil => cases hi
  | @cons x y l m hxy _ ih =>
      cases i with
      | zero =>
          obtain rfl : y = b := by simpa using hi
          exact ⟨x, rfl, hxy⟩
      | succ i => exact ih (by simpa using hi)

end Forall2

section Moved

variable {α : Type*} {ps new : List α} {i l : ℕ} {p q r : α}

/-- What stands where after one element has moved and others were appended. -/
theorem getElem?_moved (h : (ps.set i q ++ new)[l]? = some r) :
    l = i ∧ r = q ∨ l ≠ i ∧ ps[l]? = some r ∨ r ∈ new := by
  rw [List.getElem?_append] at h
  split at h
  · rename_i hlt
    rw [List.length_set] at hlt
    by_cases hli : i = l
    · subst hli
      rw [List.getElem?_set_self hlt] at h
      exact .inl ⟨rfl, (Option.some.inj h).symm⟩
    · rw [List.getElem?_set_ne hli] at h
      exact .inr (.inl ⟨Ne.symm hli, h⟩)
  · exact .inr (.inr (List.mem_of_getElem? h))

/-- The element that has moved. -/
theorem moved_self (h : ps[i]? = some p) : (ps.set i q ++ new)[i]? = some q := by
  have hlt : i < ps.length := (List.getElem?_eq_some_iff.1 h).1
  rw [List.getElem?_append_left (by simpa using hlt), List.getElem?_set_self hlt]

/-- The elements that have not moved. -/
theorem moved_other (hne : l ≠ i) (h : ps[l]? = some r) : (ps.set i q ++ new)[l]? = some r := by
  have hlt : l < ps.length := (List.getElem?_eq_some_iff.1 h).1
  rw [List.getElem?_append_left (by simpa using hlt), List.getElem?_set_ne (Ne.symm hne), h]

/-- The element that has moved aside, all are still there. -/
theorem mem_moved (q : α) (new : List α) (hi : ps[i]? = some p) (h : r ∈ ps) :
    r = p ∨ r ∈ ps.set i q ++ new := by
  obtain ⟨l, hl⟩ := List.mem_iff_getElem?.1 h
  by_cases hne : l = i
  · subst hne
    exact .inl (Option.some.inj (hl.symm.trans hi))
  · exact .inr (List.mem_of_getElem? (moved_other hne hl))

end Moved

namespace Task

variable {Op P α β : Type} {Res : Op → Type} {next : P → (op : Op) → Res op → Option P} {idle : P}

/-- As long as no operation raises, the automaton accepts what the task does from the state `p` on,
and the task ends in the state `idle`. -/
def Follows (next : P → (op : Op) → Res op → Option P) (idle : P) : P → Task Op Res α → Prop
  | p, ret _ => p = idle
  | p, raised => p = idle
  | p, await op k => ∀ r, ∃ q, next p op r = some q ∧ Follows next idle q (k (some r))

/-- The rule for two tasks in sequence. -/
theorem Follows.bind {p : P} {t : Task Op Res α} {f : α → Task Op Res β}
    (ht : t.Follows next idle p) (hf : ∀ a, (f a).Follows next idle idle) :
    (t >>= f).Follows next idle p := by
  induction t generalizing p with
  | ret a =>
      obtain rfl : p = idle := ht
      exact hf a
  | raised => exact ht
  | await op k ih =>
      intro r
      obtain ⟨q, hq, hk⟩ := ht r
      exact ⟨q, hq, ih (some r) hk⟩

/-- The rule for an exception handler. -/
theorem Follows.orElse {p : P} {t u : Task Op Res α} (ht : t.Follows next idle p)
    (hu : u.Follows next idle idle) : (t.orElse u).Follows next idle p := by
  induction t generalizing p with
  | ret a => exact ht
  | raised =>
      obtain rfl : p = idle := ht
      exact hu
  | await op k ih =>
      intro r
      obtain ⟨q, hq, hk⟩ := ht r
      exact ⟨q, hq, ih (some r) hk⟩

/-- The rule for one operation. -/
theorem Follows.call {p : P} {op : Op} (h : ∀ r, next p op r = some idle) :
    (call op : Task Op Res (Res op)).Follows next idle p := fun r => ⟨idle, h r, rfl⟩

/-- The rule for a loop. -/
theorem Follows.forEach {f : β → Task Op Res Unit} (hf : ∀ b, (f b).Follows next idle idle)
    (bs : List β) : (forEach f bs).Follows next idle idle := by
  induction bs with
  | nil => rfl
  | cons b bs ih => exact (hf b).bind fun _ => ih

end Task

namespace System

variable {W Ev Ch Job Op Pt : Type} {Res : Op → Type} {S : System W Ev Ch Job Op Res}
  {s t : Loop W Ev Job Op Res} {A : Pt → Task Op Res Unit → Prop} {ps new : List Pt}

/-- The threads stand at the points `ps`. -/
def Located (A : Pt → Task Op Res Unit → Prop) (ps : List Pt) (s : Loop W Ev Job Op Res) : Prop :=
  List.Forall₂ (fun p (u : Thread Job Op Res) => A p u.rest) ps s.threads

/-- The points at which the threads of new jobs stand. -/
def Starts (A : Pt → Task Op Res Unit → Prop) (S : System W Ev Ch Job Op Res) (new : List Pt)
    (jobs : List Job) : Prop :=
  List.Forall₂ (fun p j => A p (S.code j)) new jobs

theorem Starts.fork {jobs : List Job} (h : Starts A S new jobs) (o : ℕ) :
    List.Forall₂ (fun p (u : Thread Job Op Res) => A p u.rest) new (S.fork o jobs) := by
  induction h with
  | nil => exact .nil
  | cons hp _ ih => exact .cons hp ih

/-- An outside event that drops no thread appends points. -/
theorem Located.event {e : Ev} (hs : Located A ps s) (hd : S.drops e = false)
    (h : S.step s (.event e) = some t) (hnew : Starts A S new (S.arrive s.world e).2) :
    Located A (ps ++ new) t := by
  obtain rfl := Option.some.inj h
  show List.Forall₂ _ _ ((if S.drops e then s.threads.map halt else s.threads) ++ _)
  rw [hd]
  exact List.rel_append hs (hnew.fork _)

/-- The completion of an operation moves the point of its thread, and appends points. -/
theorem Located.op {i : ℕ} {c : Ch} {o : ℕ} {j : Job} {op : Op} {p : Pt}
    {k : Option (Res op) → Task Op Res Unit} (hs : Located A ps s)
    (hi : s.threads[i]? = some ⟨o, j, .await op k⟩) (h : S.step s (.step i c) = some t)
    (hself : A p (k (S.perform s.world op c).2.1))
    (hnew : Starts A S new (S.perform s.world op c).2.2) : Located A (ps.set i p ++ new) t := by
  simp only [step, hi] at h
  obtain rfl := Option.some.inj h
  exact List.rel_append (forall₂_set hs i hself) (hnew.fork _)

/-- The point of a thread. -/
theorem Located.getElem? {i : ℕ} {u : Thread Job Op Res} (hs : Located A ps s)
    (hi : s.threads[i]? = some u) : ∃ p, ps[i]? = some p ∧ A p u.rest :=
  forall₂_getElem? (R := fun p (u : Thread Job Op Res) => A p u.rest) hs hi

/-- When all threads have ended, every point is one of an ended task. -/
theorem Located.idle (hs : Located A ps s) (hidle : Idle s) {p : Pt} (hp : p ∈ ps) :
    ∃ t : Task Op Res Unit, t.Ended ∧ A p t := by
  obtain ⟨i, hi⟩ := List.mem_iff_getElem?.1 hp
  obtain ⟨u, hu, ha⟩ := forall₂_getElem? hs.flip hi
  exact ⟨u.rest, hidle u (List.mem_of_getElem? hu), ha⟩

/-- The completion of an operation moves the state of its thread as the automaton says. -/
theorem Located.follow {next : Pt → (op : Op) → Res op → Option Pt} {idle : Pt} {i : ℕ} {c : Ch} {o : ℕ}
    {j : Job} {op : Op} {k : Option (Res op) → Task Op Res Unit} {r : Res op}
    (hs : Located (fun p u => u.Follows next idle p) ps s)
    (hi : s.threads[i]? = some ⟨o, j, .await op k⟩) (h : S.step s (.step i c) = some t)
    (hr : (S.perform s.world op c).2.1 = some r) (hnone : (S.perform s.world op c).2.2 = []) :
    ∃ p q, ps[i]? = some p ∧ next p op r = some q ∧
      Located (fun p u => u.Follows next idle p) (ps.set i q ++ []) t := by
  obtain ⟨p, hp, hfollows⟩ := hs.getElem? hi
  obtain ⟨q, hq, hk⟩ := hfollows r
  refine ⟨p, q, hp, hq, hs.op hi h (hr ▸ hk) ?_⟩
  rw [hnone]
  exact .nil

end System
end Lib
end Liza
