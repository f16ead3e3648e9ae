/-
# What the last event asks for is what is left when the system rests

Some outside events ask for something (`f e = some b`): a task is started for
the event, it starts a second task, and that one performs the operation asked
for, after which the world is `good b`.  Nothing orders the tasks of different
events.  `Settles` collects what has to be shown of one move, among it the only
point where the order matters: an operation does not spoil what a completed
operation of the last asking event has made good.  Then, in every state of every
run of allowed moves, the world is good for the last asking event or a task of
that event is still bound to make it so (`Settles.settled`); so it is good when
all tasks have ended (`Settles.good_of_idle`).
-/

import Liza.Lib.Task
import Mathlib.Data.List.Induction

set_option autoImplicit false

namespace Liza
namespace Lib

section Latest

variable {α β : Type} {f : α → Option β} {es : List α} {e : α} {n m : ℕ} {b b' : β}

/-- The last element of a list with a value under `f`: its position and value. -/
def Latest (f : α → Option β) (es : List α) (n : ℕ) (b : β) : Prop :=
  (∃ e, es[n]? = some e ∧ f e = some b) ∧ ∀ m e, n < m → es[m]? = some e → f e = none

/-- An appended element with a value is the last one. -/
theorem latest_append_some (he : f e = some b) (h : Latest f (es ++ [e]) n b') :
    n = es.length ∧ b' = b := by
  obtain ⟨⟨e', he', hb⟩, hlast⟩ := h
  have hlt := (List.getElem?_eq_some_iff.1 he').1
  rw [List.length_append, List.length_singleton] at hlt
  have hn : n = es.length := by
    by_contra hne
    have := hlast es.length e (by omega) (by simp)
    rw [he] at this
    cases this
  subst hn
  rw [List.getElem?_concat_length] at he'
  obtain rfl := Option.some.inj he'
  exact ⟨rfl, Option.some.inj (hb.symm.trans he)⟩

/-- An appended element without a value changes nothing. -/
theorem latest_append_none (he : f e = none) (h : Latest f (es ++ [e]) n b) : Latest f es n b := by
  obtain ⟨⟨e', he', hb⟩, hlast⟩ := h
  have hlt := (List.getElem?_eq_some_iff.1 he').1
  rw [List.length_append, List.length_singleton] at hlt
  have hn : n < es.length := by
    by_contra hge
    obtain rfl : n = es.length := by omega
    rw [List.getElem?_concat_length] at he'
    obtain rfl := Option.some.inj he'
    rw [he] at hb
    cases hb
  rw [List.getElem?_append_left hn] at he'
  refine ⟨⟨e', he', hb⟩, fun m e'' hm hm' => hlast m e'' hm ?_⟩
  rw [List.getElem?_append_left (List.getElem?_eq_some_iff.1 hm').1, hm']

/-- No element with a value stands after the last one. -/
theorem Latest.le (h : Latest f es n b) (he : es[m]? = some e) (hb : f e = some b') : m ≤ n := by
  by_contra hlt
  have := h.2 m e (by omega) he
  rw [hb] at this
  cases this

theorem Latest.value_eq (h : Latest f es n b) (he : es[n]? = some e) (hb : f e = some b') :
    b' = b := by
  obtain ⟨⟨e', he', hb'⟩, -⟩ := h
  rw [he] at he'
  obtain rfl := Option.some.inj he'
  exact Option.some.inj (hb.symm.trans hb')

/-- Where some element has a value there is a last one. -/
theorem exists_latest (h : ∃ e ∈ es, f e ≠ none) : ∃ n b, Latest f es n b := by
  induction es using List.reverseRecOn with
  | nil =>
      obtain ⟨e, he, -⟩ := h
      cases he
  | append_singleton es e ih =>
      cases hb : f e with
      | some b =>
          refine ⟨es.length, b, ⟨e, by simp, hb⟩, fun m e' hm he' => ?_⟩
          have := (List.getElem?_eq_some_iff.1 he').1
          rw [List.length_append, List.length_singleton] at this
          omega
      | none =>
          have hes : ∃ e ∈ es, f e ≠ none := by
            obtain ⟨e', he', hr⟩ := h
            rcases List.mem_append.1 he' with he' | he'
            · exact ⟨e', he', hr⟩
            · obtain rfl := List.mem_singleton.1 he'
              exact absurd hb hr
          obtain ⟨n, b, ⟨e', he', hr⟩, hlast⟩ := ih hes
          have hn := (List.getElem?_eq_some_iff.1 he').1
          refine ⟨n, b, ⟨e', by rw [List.getElem?_append_left hn, he'], hr⟩, ?_⟩
          intro m e'' hm he''
          rcases Nat.lt_or_ge m es.length with hlt | hge
          · rw [List.getElem?_append_left hlt] at he''
            exact hlast m e'' hm he''
          · have := (List.getElem?_eq_some_iff.1 he'').1
            rw [List.length_append, List.length_singleton] at this
            obtain rfl : m = es.length := by omega
            rw [List.getElem?_concat_length] at he''
            obtain rfl := Option.some.inj he''
            exact hb

end Latest

namespace System

variable {W Ev Ch Job Op β : Type} {Res : Op → Type}

/-- What has to be shown of a system for the last asking event to win: `ask b` is
the operation that starts the task for `b`, `act b` the one that makes the world
`good b`. -/
structure Settles (S : System W Ev Ch Job Op Res)
    (C : Loop W Ev Job Op Res → Move Ev Ch → Prop) (L : Law W Ev Job Op Res)
    (f : Ev → Option β) (ask act : β → Op → Prop) (good : β → W → Prop) : Prop where
  /-- No event drops the tasks. -/
  drops : ∀ s e, C s (.event e) → S.drops e = false
  /-- An asking event starts a task that will ask. -/
  asked : ∀ s e b, Lawful L s → C s (.event e) → f e = some b →
    ∃ j ∈ (S.arrive s.world e).2, (S.code j).Bound L.A (ask b)
  /-- Asking starts a task that will act. -/
  started : ∀ s i c o j op k b, Lawful L s → C s (.step i c) →
    s.threads[i]? = some ⟨o, j, .await op k⟩ → ask b op →
    ∃ j' ∈ (S.perform s.world op c).2.2, (S.code j').Bound L.A (act b)
  /-- Acting makes the world good. -/
  acted : ∀ s i c o j op k b, Lawful L s → C s (.step i c) →
    s.threads[i]? = some ⟨o, j, .await op k⟩ → act b op → good b (S.perform s.world op c).1
  /-- An event that does not ask spoils nothing. -/
  event : ∀ s e b, Lawful L s → C s (.event e) → f e = none → good b s.world →
    good b (S.arrive s.world e).1
  /-- Nothing spoils what the last asking event has made good. -/
  op : ∀ s i c o j op k n b, Lawful L s → C s (.step i c) →
    s.threads[i]? = some ⟨o, j, .await op k⟩ → Latest f s.events n b →
    (∃ e ∈ s.log, e.origin = n ∧ act b e.done.op) → good b s.world →
    good b (S.perform s.world op c).1

/-- The world is good for the event `n`, whose task has acted, or a task of it is
still bound to ask or to act. -/
def Settled (A : (op : Op) → Option (Res op) → Prop) (ask act : β → Op → Prop)
    (good : β → W → Prop) (n : ℕ) (b : β) (s : Loop W Ev Job Op Res) : Prop :=
  Owes A (ask b) n s ∨ Owes A (act b) n s ∨
    (∃ e ∈ s.log, e.origin = n ∧ act b e.done.op) ∧ good b s.world

variable {S : System W Ev Ch Job Op Res} {C : Loop W Ev Job Op Res → Move Ev Ch → Prop}
  {L : Law W Ev Job Op Res} {f : Ev → Option β} {ask act : β → Op → Prop} {good : β → W → Prop}
  {s t : Loop W Ev Job Op Res} {n : ℕ} {b : β}

/-- One outside event. -/
theorem Settles.settled_event (hS : Settles S C L f ask act good) (hs : Lawful L s) {e : Ev}
    (hv : ∀ n b, Latest f s.events n b → Settled L.A ask act good n b s) (hc : C s (.event e))
    (h : S.step s (.event e) = some t) (hl : Latest f t.events n b) :
    Settled L.A ask act good n b t := by
  have hd := hS.drops s e hc
  have hevents : t.events = s.events ++ [e] := by
    obtain rfl := Option.some.inj h
    rfl
  rw [hevents] at hl
  cases hb : f e with
  | some b' =>
      obtain ⟨rfl, rfl⟩ := latest_append_some hb hl
      obtain ⟨j, hj, hbound⟩ := hS.asked s e b hs hc hb
      refine .inl ⟨⟨s.events.length, j, S.code j⟩, ?_, rfl, hbound⟩
      obtain rfl := Option.some.inj h
      exact List.mem_append.2 (.inr (List.mem_map.2 ⟨j, hj, rfl⟩))
  | none =>
      rcases hv n b (latest_append_none hb hl) with ho | ho | ⟨hlog, hgood⟩
      · exact .inl (ho.event hd h)
      · exact .inr (.inl (ho.event hd h))
      · have := hS.event s e b hs hc hb hgood
        obtain rfl := Option.some.inj h
        exact .inr (.inr ⟨hlog, this⟩)

/-- One completed operation. -/
theorem Settles.settled_op (hk : Keeps S C L) (hS : Settles S C L f ask act good)
    (hs : Lawful L s) {i : ℕ} {c : Ch}
    (hv : ∀ n b, Latest f s.events n b → Settled L.A ask act good n b s) (hc : C s (.step i c))
    (h : S.step s (.step i c) = some t) (hl : Latest f t.events n b) :
    Settled L.A ask act good n b t := by
  obtain ⟨_, hm, -⟩ | ⟨i', c', o, j, op, k, hm, hi, ht⟩ := step_cases h
  · cases hm
  obtain ⟨rfl, rfl⟩ := Move.step.inj hm
  have hA := (hk.op s i c o j op k hs hc hi (hs.threads i _ hi).1).2.1
  have hl : Latest f s.events n b := by
    rw [ht] at hl
    exact hl
  rcases hv n b hl with ho | ho | ⟨⟨e, he, heo, hact⟩, hgood⟩
  · rcases ho.op hi hA h with ho | ⟨rfl, hask⟩
    · exact .inl ho
    · obtain ⟨j', hj', hbound⟩ := hS.started s i c o j op k b hs hc hi hask
      refine .inr (.inl ⟨⟨o, j', S.code j'⟩, ?_, rfl, hbound⟩)
      rw [ht]
      exact List.mem_append.2 (.inr (List.mem_map.2 ⟨j', hj', rfl⟩))
  · rcases ho.op hi hA h with ho | ⟨rfl, hact⟩
    · exact .inr (.inl ho)
    · have := hS.acted s i c o j op k b hs hc hi hact
      rw [ht]
      exact .inr (.inr ⟨⟨_, List.mem_cons_self, rfl, hact⟩, this⟩)
  · have := hS.op s i c o j op k n b hs hc hi hl ⟨e, he, heo, hact⟩ hgood
    rw [ht]
    exact .inr (.inr ⟨⟨e, List.mem_cons_of_mem _ he, heo, hact⟩, this⟩)

/-- **In every reachable state the last asking event is served or being served.** -/
theorem Settles.settled (hk : Keeps S C L) (hS : Settles S C L f ask act good) {w : W}
    {as : List (Move Ev Ch)} (hw : L.I w) (h : Exec S.step C ⟨w, [], [], []⟩ as s)
    (hl : Latest f s.events n b) : Settled L.A ask act good n b s := by
  have hinv : Lawful L s ∧ ∀ n b, Latest f s.events n b → Settled L.A ask act good n b s := by
    refine h.invariant (I := fun s => Lawful L s ∧
      ∀ n b, Latest f s.events n b → Settled L.A ask act good n b s) ⟨lawful_start hw, ?_⟩ ?_
    · rintro n b ⟨⟨e, he, -⟩, -⟩
      cases he
    · rintro s m t ⟨hs, hv⟩ hc hstep
      refine ⟨hk.lawful_step hs hc hstep, fun n b hl => ?_⟩
      cases m with
      | event e => exact hS.settled_event hs hv hc hstep hl
      | step i c => exact hS.settled_op hk hs hv hc hstep hl
  exact hinv.2 n b hl

/-- **When all tasks have ended, the world is good for the last asking event.** -/
theorem Settles.good_of_idle (hk : Keeps S C L) (hS : Settles S C L f ask act good) {w : W}
    {as : List (Move Ev Ch)} (hw : L.I w) (h : Exec S.step C ⟨w, [], [], []⟩ as s) (hidle : Idle s)
    (hl : Latest f s.events n b) : good b s.world := by
  rcases hS.settled hk hw h hl with ho | ho | ⟨-, hgood⟩
  · exact absurd ho hidle.not_owes
  · exact absurd ho hidle.not_owes
  · exact hgood

end System

end Lib
end Liza
