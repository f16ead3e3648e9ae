/-
# Background tasks on an event loop

A coroutine runs without interruption between two `await`s, so what matters of
it is the tree of its awaits: which operation it waits for next, and how it goes
on with the answer, or with the exception that the await raised (`Task`).  A
`System` says what an operation does to the world when its await completes,
which tasks an external event starts, and which tasks an operation starts; a
`Loop` is the world with all tasks started so far, each at the point it has
reached.  A move lets one task complete one await, or lets an external event
arrive, so the runs of `step` are all interleavings.

Two ghosts are carried for the sake of statements: the external event each task
goes back to (`Thread.origin`), and the log of completed operations.

Two predicates on tasks do the reasoning.  `Obeys A P Q h t` is a partial
correctness rule: as long as the answers are among `A`, `t`, having done `h`,
only performs operations that `P` allows after what it has done, and ends with
`Q`.  `Bound A G t` is a progress rule: as long as the answers are among `A`, `t`
does not end before it has performed an operation of `G`.  Over runs, the first
gives the law of a system (`Keeps.lawful`), the second what is owed by a thread
until it is done (`Owes`).
-/

import Liza.Lib.Run

set_option autoImplicit false

namespace Liza
namespace Lib

/-- A coroutine: it has returned, it has raised, or it waits for an operation
and goes on with the answer (`none` where the await raised). -/
inductive Task (Op : Type) (Res : Op → Type) (α : Type) where
  | ret (a : α) : Task Op Res α
  | raised : Task Op Res α
  | await (op : Op) (k : Option (Res op) → Task Op Res α) : Task Op Res α

/-- A completed operation with its answer. -/
structure Done (Op : Type) (Res : Op → Type) where
  op : Op
  ans : Option (Res op)

namespace Task

variable {Op : Type} {Res : Op → Type} {α β : Type}

/-- `f` after `t`; an exception of `t` passes through. -/
def bind : Task Op Res α → (α → Task Op Res β) → Task Op Res β
  | ret a, f => f a
  | raised, _ => raised
  | await op k, f => await op fun r => (k r).bind f

instance : Monad (Task Op Res) where
  pure := ret
  bind := bind

/-- `try: t except Exception: u`. -/
def orElse : Task Op Res α → Task Op Res α → Task Op Res α
  | ret a, _ => ret a
  | raised, u => u
  | await op k, u => await op fun r => (k r).orElse u

/-- `await op`: the answer, or the exception. -/
def call (op : Op) : Task Op Res (Res op) :=
  await op fun
    | some r => ret r
    | none => raised

/-- A loop over a list whose body is a task. -/
def forEach (f : β → Task Op Res Unit) : List β → Task Op Res Unit
  | [] => ret ()
  | b :: bs => f b >>= fun _ => forEach f bs

/-- Run a task to its end without interruption: the world it leaves, and its result
(`none` for an exception). -/
def eval {W : Type} (perform : W → (op : Op) → W × Option (Res op)) :
    W → Task Op Res α → W × Option α
  | w, ret a => (w, some a)
  | w, raised => (w, none)
  | w, await op k => eval perform (perform w op).1 (k (perform w op).2)

/-- A task that has ended. -/
def Ended : Task Op Res α → Prop
  | await _ _ => False
  | _ => True

instance : (t : Task Op Res α) → Decidable t.Ended
  | ret _ => .isTrue trivial
  | raised => .isTrue trivial
  | await _ _ => .isFalse fun h => h

@[simp]
theorem ret_bind (a : α) (f : α → Task Op Res β) : (ret a >>= f) = f a := rfl

@[simp]
theorem raised_bind (f : α → Task Op Res β) : (raised >>= f) = raised := rfl

@[simp]
theorem await_bind (op : Op) (k : Option (Res op) → Task Op Res α) (f : α → Task Op Res β) :
    (await op k >>= f) = await op fun r => k r >>= f := rfl

@[simp]
theorem pure_eq_ret (a : α) : (pure a : Task Op Res α) = ret a := rfl

/-- Sequencing is associative. -/
@[simp]
theorem bind_assoc {γ : Type} (t : Task Op Res α) (f : α → Task Op Res β)
    (g : β → Task Op Res γ) : ((t >>= f) >>= g) = t >>= fun a => f a >>= g := by
  induction t with
  | ret a => rfl
  | raised => rfl
  | await op k ih =>
      simp only [await_bind, ih]

/-- Returning what a task returns changes nothing. -/
@[simp]
theorem bind_ret (t : Task Op Res α) : (t >>= fun a => ret a) = t := by
  induction t with
  | ret a => rfl
  | raised => rfl
  | await op k ih => simp only [await_bind, ih]

/-- Two tasks in sequence, run to their end. -/
theorem eval_bind {W : Type} (perform : W → (op : Op) → W × Option (Res op)) (w : W)
    (t : Task Op Res α) (f : α → Task Op Res β) :
    (t >>= f).eval perform w =
      match t.eval perform w with
      | (w', some a) => (f a).eval perform w'
      | (w', none) => (w', none) := by
  induction t generalizing w with
  | ret a => rfl
  | raised => rfl
  | await op k ih => exact ih _ _

/-- A task and what is run when it raises, run to their end. -/
theorem eval_orElse {W : Type} (perform : W → (op : Op) → W × Option (Res op)) (w : W)
    (t u : Task Op Res α) :
    (t.orElse u).eval perform w =
      match t.eval perform w with
      | (w', some a) => (w', some a)
      | (w', none) => u.eval perform w' := by
  induction t generalizing w with
  | ret a => rfl
  | raised => rfl
  | await op k ih => exact ih _ _

/-- A loop whose body returns, run to its end. -/
theorem eval_forEach {W : Type} {perform : W → (op : Op) → W × Option (Res op)}
    {f : β → Task Op Res Unit} {g : W → β → W} {bs : List β}
    (hf : ∀ b ∈ bs, ∀ w, (f b).eval perform w = (g w b, some ())) (w : W) :
    (forEach f bs).eval perform w = (bs.foldl g w, some ()) := by
  induction bs generalizing w with
  | nil => rfl
  | cons b bs ih =>
      rw [forEach, eval_bind, hf b List.mem_cons_self]
      exact ih (fun c hc => hf c (List.mem_cons_of_mem _ hc)) _

/-- An operation before a task that returns has been answered. -/
theorem eval_call_bind {W : Type} {perform : W → (op : Op) → W × Option (Res op)} {w w' : W} {op : Op}
    {f : Res op → Task Op Res β} {b : β}
    (h : ((call op : Task Op Res (Res op)) >>= f).eval perform w = (w', some b)) :
    ∃ a, (perform w op).2 = some a ∧ (f a).eval perform (perform w op).1 = (w', some b) := by
  rw [eval_bind] at h
  simp only [call, eval] at h
  cases ha : (perform w op).2 with
  | none =>
      simp only [ha, eval] at h
      cases h
  | some a =>
      simp only [ha, eval] at h
      exact ⟨a, rfl, h⟩

/-- As long as the answers are among `A`, the task only performs operations that
`P` allows after its past, and ends with `Q` (`none` for an exception). -/
def Obeys (A : (op : Op) → Option (Res op) → Prop) (P : List (Done Op Res) → Op → Prop)
    (Q : List (Done Op Res) → Option α → Prop) : List (Done Op Res) → Task Op Res α → Prop
  | h, ret a => Q h (some a)
  | h, raised => Q h none
  | h, await op k => P h op ∧ ∀ r, A op r → Obeys A P Q (⟨op, r⟩ :: h) (k r)

section Rules

variable {A : (op : Op) → Option (Res op) → Prop} {P : List (Done Op Res) → Op → Prop}
  {Q : List (Done Op Res) → Option α → Prop} {R : List (Done Op Res) → Option β → Prop}
  {h : List (Done Op Res)}

/-- The rule of consequence. -/
theorem Obeys.mono {Q' : List (Done Op Res) → Option α → Prop} {t : Task Op Res α}
    (ht : Obeys A P Q h t) (hq : ∀ h a, Q h a → Q' h a) : Obeys A P Q' h t := by
  induction t generalizing h with
  | ret a => exact hq h _ ht
  | raised => exact hq h _ ht
  | await op k ih => exact ⟨ht.1, fun r ha => ih r (ht.2 r ha)⟩

/-- A task stays within a wider law. -/
theorem Obeys.imp {P' : List (Done Op Res) → Op → Prop} {t : Task Op Res α}
    (ht : Obeys A P Q h t) (hp : ∀ h op, P h op → P' h op) : Obeys A P' Q h t := by
  induction t generalizing h with
  | ret a => exact ht
  | raised => exact ht
  | await op k ih => exact ⟨hp _ _ ht.1, fun r ha => ih r (ht.2 r ha)⟩

/-- A law that is kept on some answers is kept on fewer. -/
theorem Obeys.weaken {A' : (op : Op) → Option (Res op) → Prop} {t : Task Op Res α}
    (ht : Obeys A P Q h t) (hA : ∀ op r, A' op r → A op r) : Obeys A' P Q h t := by
  induction t generalizing h with
  | ret a => exact ht
  | raised => exact ht
  | await op k ih => exact ⟨ht.1, fun r ha => ih r (ht.2 r (hA op r ha))⟩

/-- The law that asks for nothing. -/
theorem Obeys.any (t : Task Op Res α) (h : List (Done Op Res)) :
    Obeys A (fun _ _ => True) (fun _ _ => True) h t := by
  induction t generalizing h with
  | ret a => exact trivial
  | raised => exact trivial
  | await op k ih => exact ⟨trivial, fun r _ => ih r _⟩

/-- What a task has done is not forgotten. -/
theorem Obeys.grows {t : Task Op Res α} (ht : Obeys A P Q h t) :
    Obeys A P (fun h' r => h ⊆ h' ∧ Q h' r) h t := by
  induction t generalizing h with
  | ret a => exact ⟨fun _ hd => hd, ht⟩
  | raised => exact ⟨fun _ hd => hd, ht⟩
  | await op k ih =>
      refine ⟨ht.1, fun r ha => (ih r (ht.2 r ha)).mono ?_⟩
      rintro h' a ⟨hsub, hq⟩
      exact ⟨fun d hd => hsub (List.mem_cons_of_mem _ hd), hq⟩

/-- The rule for two tasks in sequence. -/
theorem Obeys.bind {t : Task Op Res α} {f : α → Task Op Res β} (ht : Obeys A P Q h t)
    (hf : ∀ h a, Q h (some a) → Obeys A P R h (f a)) (hn : ∀ h, Q h none → R h none) :
    Obeys A P R h (t >>= f) := by
  induction t generalizing h with
  | ret a => exact hf h a ht
  | raised => exact hn h ht
  | await op k ih => exact ⟨ht.1, fun r ha => ih r (ht.2 r ha)⟩

/-- The rule for an exception handler. -/
theorem Obeys.orElse {Q' : List (Done Op Res) → Option α → Prop} {t u : Task Op Res α}
    (ht : Obeys A P Q h t) (hr : ∀ h a, Q h (some a) → Q' h (some a))
    (hu : ∀ h, Q h none → Obeys A P Q' h u) : Obeys A P Q' h (t.orElse u) := by
  induction t generalizing h with
  | ret a => exact hr h a ht
  | raised => exact hu h ht
  | await op k ih => exact ⟨ht.1, fun r ha => ih r (ht.2 r ha)⟩

/-- The rule for one operation. -/
theorem Obeys.call {op : Op} {Q : List (Done Op Res) → Option (Res op) → Prop} (hp : P h op)
    (hr : ∀ r, A op r → Q (⟨op, r⟩ :: h) r) : Obeys A P Q h (call op) := by
  refine ⟨hp, fun r ha => ?_⟩
  cases r with
  | none => exact hr none ha
  | some r => exact hr (some r) ha

/-- The rule for one operation before a task. -/
theorem Obeys.call_bind {op : Op} {f : Res op → Task Op Res β} (hp : P h op)
    (hr : ∀ r, A op (some r) → Obeys A P R (⟨op, some r⟩ :: h) (f r))
    (hn : A op none → R (⟨op, none⟩ :: h) none) :
    Obeys A P R h ((Task.call op : Task Op Res (Res op)) >>= f) := by
  refine ⟨hp, fun r ha => ?_⟩
  cases r with
  | none => exact hn ha
  | some r => exact hr r ha

/-- The rule for a loop: an invariant of the body. -/
theorem Obeys.forEach {I : List (Done Op Res) → Prop} {f : β → Task Op Res Unit} {bs : List β}
    (hf : ∀ b ∈ bs, ∀ h, I h → Obeys A P (fun h _ => I h) h (f b)) (hi : I h) :
    Obeys A P (fun h _ => I h) h (forEach f bs) := by
  induction bs generalizing h with
  | nil => exact hi
  | cons b bs ih =>
      exact (hf b List.mem_cons_self h hi).bind
        (fun h _ hi => ih (fun c hc => hf c (List.mem_cons_of_mem _ hc)) hi) fun _ hi => hi

end Rules

/-- The law was kept by every operation of a history. -/
def Kept (P : List (Done Op Res) → Op → Prop) : List (Done Op Res) → Prop
  | [] => True
  | d :: h => P h d.op ∧ Kept P h

instance decidableKept (P : List (Done Op Res) → Op → Prop) [∀ h op, Decidable (P h op)] :
    (h : List (Done Op Res)) → Decidable (Kept P h)
  | [] => .isTrue trivial
  | d :: h => @instDecidableAnd _ _ (inferInstanceAs (Decidable (P h d.op))) (decidableKept P h)

/-- A run to the end, where every operation is answered as `env` has it after the history so far:
the whole history, and the result. -/
def trace (env : List (Done Op Res) → (op : Op) → Option (Res op)) (h : List (Done Op Res))
    (t : Task Op Res α) : List (Done Op Res) × Option α :=
  t.eval (fun h op => (⟨op, env h op⟩ :: h, env h op)) h

/-- **What a task obeys holds of every run of it.** -/
theorem Obeys.trace {A : (op : Op) → Option (Res op) → Prop} {P : List (Done Op Res) → Op → Prop}
    {Q : List (Done Op Res) → Option α → Prop} {env : List (Done Op Res) → (op : Op) → Option (Res op)}
    (henv : ∀ h op, A op (env h op)) {h : List (Done Op Res)} {t : Task Op Res α}
    (ht : Obeys A P Q h t) (hh : Kept P h) :
    Kept P (t.trace env h).1 ∧ Q (t.trace env h).1 (t.trace env h).2 := by
  induction t generalizing h with
  | ret a => exact ⟨hh, ht⟩
  | raised => exact ⟨hh, ht⟩
  | await op k ih => exact ih _ (ht.2 _ (henv h op)) ⟨ht.1, hh⟩

/-- As long as the answers are among `A`, the task only performs operations of `P`. -/
def Only (A : (op : Op) → Option (Res op) → Prop) (P : Op → Prop) (t : Task Op Res α) : Prop :=
  ∀ h, Obeys A (fun _ => P) (fun _ _ => True) h t

section Only

variable {A : (op : Op) → Option (Res op) → Prop} {P : Op → Prop}

theorem Only.ret (a : α) : Only A P (ret a : Task Op Res α) := fun _ => trivial

theorem Only.raised : Only A P (raised : Task Op Res α) := fun _ => trivial

theorem Only.call {op : Op} (hp : P op) : Only A P (call op : Task Op Res (Res op)) :=
  fun _ => Obeys.call hp fun _ _ => trivial

theorem Only.bind {t : Task Op Res α} {f : α → Task Op Res β} (ht : Only A P t)
    (hf : ∀ a, Only A P (f a)) : Only A P (t >>= f) :=
  fun h => (ht h).bind (fun h a _ => hf a h) fun _ _ => trivial

/-- What comes after an operation may rely on its answer. -/
theorem Only.call_bind {op : Op} {f : Res op → Task Op Res β} (hp : P op)
    (hf : ∀ r, A op (some r) → Only A P (f r)) :
    Only A P ((Task.call op : Task Op Res (Res op)) >>= f) := by
  intro h
  refine ⟨hp, fun r ha => ?_⟩
  cases r with
  | none => exact trivial
  | some r => exact hf r ha _

theorem Only.orElse {t u : Task Op Res α} (ht : Only A P t) (hu : Only A P u) :
    Only A P (t.orElse u) :=
  fun h => (ht h).orElse (fun _ _ _ => trivial) fun h _ => hu h

theorem Only.forEach {f : β → Task Op Res Unit} (hf : ∀ b, Only A P (f b)) (bs : List β) :
    Only A P (Task.forEach f bs) :=
  fun _ => Obeys.forEach (I := fun _ => True) (fun b _ h _ => hf b h) trivial

theorem Only.mono {P' : Op → Prop} {t : Task Op Res α} (ht : Only A P t)
    (hp : ∀ op, P op → P' op) : Only A P' t :=
  fun h => (ht h).imp fun _ op => hp op

/-- Two ways to perform operations that agree on those of the task. -/
theorem Only.eval_congr {W : Type} {perform perform' : W → (op : Op) → W × Option (Res op)}
    {t : Task Op Res α} (ht : Only (fun _ _ => True) P t)
    (hp : ∀ w op, P op → perform w op = perform' w op) (w : W) :
    t.eval perform w = t.eval perform' w := by
  have hobeys := ht []
  generalize ([] : List (Done Op Res)) = h at hobeys
  clear ht
  induction t generalizing h w with
  | ret a => rfl
  | raised => rfl
  | await op k ih =>
      rw [eval, eval, hp w op hobeys.1]
      exact ih _ _ _ (hobeys.2 _ trivial)

end Only

/-- As long as the answers are among `A`, the task does not end before it has
performed an operation of `G`. -/
def Bound (A : (op : Op) → Option (Res op) → Prop) (G : Op → Prop) : Task Op Res α → Prop
  | await op k => G op ∨ ∀ r, A op r → Bound A G (k r)
  | _ => False

section Progress

variable {A : (op : Op) → Option (Res op) → Prop} {G : Op → Prop}

/-- A task is bound to do what it does in any case. -/
theorem Bound.mono {G' : Op → Prop} {t : Task Op Res α} (ht : Bound A G t)
    (hg : ∀ op, G op → G' op) : Bound A G' t := by
  induction t with
  | ret a => exact ht
  | raised => exact ht
  | await op k ih => exact ht.imp (hg op) fun hb r ha => ih r (hb r ha)

/-- What the first of two tasks is bound to do. -/
theorem Bound.bind_left {t : Task Op Res α} {f : α → Task Op Res β} (ht : Bound A G t) :
    Bound A G (t >>= f) := by
  induction t with
  | ret a => exact ht.elim
  | raised => exact ht.elim
  | await op k ih => exact ht.imp id fun hb r ha => ih r (hb r ha)

/-- What the second is bound to do, once the first has returned. -/
theorem Bound.bind_right {P : List (Done Op Res) → Op → Prop} {V : α → Prop}
    {h : List (Done Op Res)} {t : Task Op Res α} {f : α → Task Op Res β}
    (ht : Obeys A P (fun _ r => ∃ a, r = some a ∧ V a) h t) (hf : ∀ a, V a → Bound A G (f a)) :
    Bound A G (t >>= f) := by
  induction t generalizing h with
  | ret a =>
      obtain ⟨b, hb, hv⟩ := ht
      obtain rfl := Option.some.inj hb
      exact hf a hv
  | raised =>
      obtain ⟨b, hb, -⟩ := ht
      cases hb
  | await op k ih => exact .inr fun r ha => ih r (ht.2 r ha)

theorem Bound.orElse {t u : Task Op Res α} (ht : Bound A G t) : Bound A G (t.orElse u) := by
  induction t with
  | ret a => exact ht.elim
  | raised => exact ht.elim
  | await op k ih => exact ht.imp id fun hb r ha => ih r (hb r ha)

/-- An operation of `G` is performed by awaiting it. -/
theorem Bound.call {op : Op} (hg : G op) : Bound A G (call op : Task Op Res (Res op)) := .inl hg

end Progress

end Task

/-- A program of background tasks: the code of each job, what an external event
changes and starts, whether it drops the tasks that are running, and what
completing an operation changes, answers and starts. -/
structure System (W Ev Ch Job Op : Type) (Res : Op → Type) where
  code : Job → Task Op Res Unit
  arrive : W → Ev → W × List Job
  drops : Ev → Bool
  perform : W → (op : Op) → Ch → W × Option (Res op) × List Job

/-- A task that was started: the external event it goes back to, its job, and
what is left of its code. -/
structure Thread (Job Op : Type) (Res : Op → Type) where
  origin : ℕ
  job : Job
  rest : Task Op Res Unit

/-- A completed operation in the log, with the world it found. -/
structure Entry (W Job Op : Type) (Res : Op → Type) where
  thread : ℕ
  origin : ℕ
  job : Job
  before : W
  done : Done Op Res

/-- The state of the event loop; the log has its latest entry first. -/
structure Loop (W Ev Job Op : Type) (Res : Op → Type) where
  world : W
  events : List Ev
  threads : List (Thread Job Op Res)
  log : List (Entry W Job Op Res)

/-- One move of the event loop. -/
inductive Move (Ev Ch : Type) where
  | event (e : Ev)
  | step (i : ℕ) (c : Ch)

namespace System

variable {W Ev Ch Job Op : Type} {Res : Op → Type}

/-- The threads of freshly started jobs. -/
def fork (S : System W Ev Ch Job Op Res) (origin : ℕ) (jobs : List Job) :
    List (Thread Job Op Res) :=
  jobs.map fun j => ⟨origin, j, S.code j⟩

/-- A thread whose task is gone. -/
def halt (t : Thread Job Op Res) : Thread Job Op Res := { t with rest := .ret () }

/-- One move of the event loop, where it is enabled. -/
def step (S : System W Ev Ch Job Op Res) (s : Loop W Ev Job Op Res) :
    Move Ev Ch → Option (Loop W Ev Job Op Res)
  | .event e =>
      let r := S.arrive s.world e
      some { s with
        world := r.1
        events := s.events ++ [e]
        threads := (if S.drops e then s.threads.map halt else s.threads) ++
          S.fork s.events.length r.2 }
  | .step i c =>
      match s.threads[i]? with
      | some ⟨o, j, .await op k⟩ =>
          let r := S.perform s.world op c
          some { s with
            world := r.1
            threads := s.threads.set i ⟨o, j, k r.2.1⟩ ++ S.fork o r.2.2
            log := ⟨i, o, j, s.world, ⟨op, r.2.1⟩⟩ :: s.log }
      | _ => none

/-- Every task has ended. -/
def Idle (s : Loop W Ev Job Op Res) : Prop := ∀ t ∈ s.threads, t.rest.Ended

instance (s : Loop W Ev Job Op Res) : Decidable (Idle s) :=
  inferInstanceAs (Decidable (∀ t ∈ s.threads, t.rest.Ended))

/-- What the thread `i` has done so far, latest first. -/
def past (log : List (Entry W Job Op Res)) (i : ℕ) : List (Done Op Res) :=
  (log.filter fun e => e.thread = i).map Entry.done

variable {S : System W Ev Ch Job Op Res} {s t : Loop W Ev Job Op Res} {m : Move Ev Ch}

/-- **What a move can do.** -/
theorem step_cases (h : S.step s m = some t) :
    (∃ e, m = .event e ∧ t = { s with
        world := (S.arrive s.world e).1
        events := s.events ++ [e]
        threads := (if S.drops e then s.threads.map halt else s.threads) ++
          S.fork s.events.length (S.arrive s.world e).2 }) ∨
    (∃ i c o j op k, m = .step i c ∧ s.threads[i]? = some ⟨o, j, .await op k⟩ ∧ t = { s with
        world := (S.perform s.world op c).1
        threads := s.threads.set i ⟨o, j, k (S.perform s.world op c).2.1⟩ ++
          S.fork o (S.perform s.world op c).2.2
        log := ⟨i, o, j, s.world, ⟨op, (S.perform s.world op c).2.1⟩⟩ :: s.log }) := by
  cases m with
  | event e => exact .inl ⟨e, rfl, (Option.some.inj h).symm⟩
  | step i c =>
      simp only [step] at h
      split at h
      · rename_i o j op k hi
        exact .inr ⟨i, c, o, j, op, k, rfl, hi, (Option.some.inj h).symm⟩
      · simp at h

theorem past_cons (e : Entry W Job Op Res) (log : List (Entry W Job Op Res)) (i : ℕ) :
    past (e :: log) i = if e.thread = i then e.done :: past log i else past log i := by
  by_cases h : e.thread = i <;> simp [past, h]

theorem mem_fork {o : ℕ} {jobs : List Job} {u : Thread Job Op Res} (hu : u ∈ S.fork o jobs) :
    ∃ j ∈ jobs, u = ⟨o, j, S.code j⟩ := by
  obtain ⟨j, hj, rfl⟩ := List.mem_map.1 hu
  exact ⟨j, hj, rfl⟩

/-! ### What every thread does stays within its law -/

/-- Every logged operation was allowed by the law of its job after what its
thread had done before. -/
def Logged (P : Job → List (Done Op Res) → Op → Prop) : List (Entry W Job Op Res) → Prop
  | [] => True
  | e :: log => P e.job (past log e.thread) e.done.op ∧ Logged P log

/-- A law of the system: what holds of the world (`I`), which jobs an outside
event may lead to (`J`, with the events so far and the number of the event),
which answers the operations give (`A`), and what each job may do (`P`). -/
structure Law (W Ev Job Op : Type) (Res : Op → Type) where
  I : W → Prop
  J : List Ev → ℕ → Job → Prop
  A : (op : Op) → Option (Res op) → Prop
  P : Job → List (Done Op Res) → Op → Prop

/-- The law holds of the world, of every thread and of the log. -/
structure Lawful (L : Law W Ev Job Op Res) (s : Loop W Ev Job Op Res) : Prop where
  world : L.I s.world
  jobs : ∀ t ∈ s.threads, t.origin < s.events.length ∧ L.J s.events t.origin t.job
  threads : ∀ (i : ℕ) (t : Thread Job Op Res), s.threads[i]? = some t →
    t.rest.Obeys L.A (L.P t.job) (fun _ _ => True) (past s.log i)
  bound : ∀ e ∈ s.log, e.thread < s.threads.length ∧ e.origin < s.events.length ∧
    L.J s.events e.origin e.job
  log : Logged L.P s.log

/-- What has to be shown of a system, an allowed move at a time, for a law to hold
of its runs. -/
structure Keeps (S : System W Ev Ch Job Op Res)
    (C : Loop W Ev Job Op Res → Move Ev Ch → Prop) (L : Law W Ev Job Op Res) : Prop where
  code : ∀ es o j, L.J es o j → (S.code j).Obeys L.A (L.P j) (fun _ _ => True) []
  later : ∀ es o j e, L.J es o j → o < es.length → L.J (es ++ [e]) o j
  event : ∀ s e, L.I s.world → C s (.event e) →
    L.I (S.arrive s.world e).1 ∧
      ∀ j ∈ (S.arrive s.world e).2, L.J (s.events ++ [e]) s.events.length j
  op : ∀ s i c o j op k, Lawful L s → C s (.step i c) →
    s.threads[i]? = some ⟨o, j, .await op k⟩ → L.P j (past s.log i) op →
    L.I (S.perform s.world op c).1 ∧ L.A op (S.perform s.world op c).2.1 ∧
      ∀ j' ∈ (S.perform s.world op c).2.2, L.J s.events o j'

variable {L : Law W Ev Job Op Res} {C : Loop W Ev Job Op Res → Move Ev Ch → Prop}

/-- A law of the allowed moves is one of fewer moves. -/
theorem Keeps.mono {C' : Loop W Ev Job Op Res → Move Ev Ch → Prop} (hk : Keeps S C L)
    (hC : ∀ s m, C' s m → C s m) : Keeps S C' L where
  code := hk.code
  later := hk.later
  event := fun s e hw hc => hk.event s e hw (hC _ _ hc)
  op := fun s i c o j op k hs hc => hk.op s i c o j op k hs (hC _ _ hc)

theorem past_of_length_le (hs : Lawful L s) {i : ℕ} (hi : s.threads.length ≤ i) :
    past s.log i = [] := by
  simp only [past, List.map_eq_nil_iff, List.filter_eq_nil_iff, decide_eq_true_eq]
  intro e he
  have := (hs.bound e he).1
  omega

/-- An outside event keeps the law. -/
theorem Keeps.lawful_event (hk : Keeps S C L) (hs : Lawful L s) {e : Ev} (hc : C s (.event e))
    (h : S.step s (.event e) = some t) : Lawful L t := by
  obtain rfl := Option.some.inj h
  have hev := hk.event s e hs.world hc
  have hlen : (if S.drops e then s.threads.map halt else s.threads).length =
      s.threads.length := by split <;> simp
  refine ⟨hev.1, fun u hu => ?_, fun l u hu => ?_, fun e' he' => ?_, hs.log⟩
  · have hold : ∀ v ∈ s.threads, v.origin < (s.events ++ [e]).length ∧
        L.J (s.events ++ [e]) v.origin v.job := by
      intro v hv
      have := hs.jobs v hv
      refine ⟨?_, hk.later _ _ _ _ this.2 this.1⟩
      rw [List.length_append]
      omega
    rcases List.mem_append.1 hu with hu | hu
    · split at hu
      · obtain ⟨v, hv, rfl⟩ := List.mem_map.1 hu
        exact hold v hv
      · exact hold u hu
    · obtain ⟨j, hj, rfl⟩ := mem_fork hu
      refine ⟨?_, hev.2 j hj⟩
      simp
  · simp only [List.getElem?_append, hlen] at hu
    split at hu
    · split at hu
      · simp only [List.getElem?_map, Option.map_eq_some_iff] at hu
        obtain ⟨v, -, rfl⟩ := hu
        exact trivial
      · exact hs.threads l u hu
    · rename_i hl
      rw [past_of_length_le hs (by omega)]
      obtain ⟨j, hj, rfl⟩ := mem_fork (List.mem_of_getElem? hu)
      exact hk.code _ _ _ (hev.2 j hj)
  · have := hs.bound e' he'
    refine ⟨?_, ?_, hk.later _ _ _ _ this.2.2 this.2.1⟩
    · simp only [List.length_append, hlen]
      omega
    · rw [List.length_append]
      omega

/-- The completion of an operation keeps the law. -/
theorem Keeps.lawful_op (hk : Keeps S C L) (hs : Lawful L s) {i : ℕ} {c : Ch}
    (hc : C s (.step i c)) (h : S.step s (.step i c) = some t) : Lawful L t := by
  obtain ⟨_, hm, -⟩ | ⟨i', c', o, j, op, k, hm, hi, rfl⟩ := step_cases h
  · cases hm
  obtain ⟨rfl, rfl⟩ := Move.step.inj hm
  have hlt : i < s.threads.length := (List.getElem?_eq_some_iff.1 hi).1
  have ho := hs.threads i _ hi
  have hj := hs.jobs _ (List.mem_of_getElem? hi)
  have hop := hk.op s i c o j op k hs hc hi ho.1
  refine ⟨hop.1, fun u hu => ?_, fun l u hu => ?_, fun e' he' => ?_, ⟨ho.1, hs.log⟩⟩
  · rcases List.mem_append.1 hu with hu | hu
    · rcases List.mem_or_eq_of_mem_set hu with hu | rfl
      · exact hs.jobs u hu
      · exact hj
    · obtain ⟨j', hj', rfl⟩ := mem_fork hu
      exact ⟨hj.1, hop.2.2 j' hj'⟩
  · simp only [List.getElem?_append, List.length_set] at hu
    split at hu
    · by_cases hli : i = l
      · subst hli
        rw [List.getElem?_set_self hlt] at hu
        obtain rfl := Option.some.inj hu
        rw [past_cons, if_pos rfl]
        exact ho.2 _ hop.2.1
      · rw [List.getElem?_set_ne hli] at hu
        rw [past_cons, if_neg hli]
        exact hs.threads l u hu
    · rename_i hl
      rw [past_cons, if_neg (show ¬i = l by omega), past_of_length_le hs (by omega)]
      obtain ⟨j', hj', rfl⟩ := mem_fork (List.mem_of_getElem? hu)
      exact hk.code _ _ _ (hop.2.2 j' hj')
  · rw [List.length_append, List.length_set]
    rcases List.mem_cons.1 he' with rfl | he'
    · refine ⟨?_, hj⟩
      change i < _
      omega
    · have := hs.bound e' he'
      refine ⟨?_, this.2⟩
      omega

/-- **Every allowed move keeps the law.** -/
theorem Keeps.lawful_step (hk : Keeps S C L) (hs : Lawful L s) (hc : C s m)
    (h : S.step s m = some t) : Lawful L t := by
  cases m with
  | event e => exact hk.lawful_event hs hc h
  | step i c => exact hk.lawful_op hs hc h

/-- **The law holds along every run of allowed moves.** -/
theorem Keeps.lawful (hk : Keeps S C L) {as : List (Move Ev Ch)} (hs : Lawful L s)
    (h : Exec S.step C s as t) : Lawful L t :=
  h.invariant hs fun _ _ _ hs hc h => hk.lawful_step hs hc h

/-- Before any task is started the law holds when it holds of the world. -/
theorem lawful_start {w : W} (hw : L.I w) : Lawful L (⟨w, [], [], []⟩ : Loop W Ev Job Op Res) :=
  ⟨hw, by simp, by simp, by simp, trivial⟩

/-- Read the law off an entry of the log. -/
theorem Logged.of_split {P : Job → List (Done Op Res) → Op → Prop}
    {log l₁ l₂ : List (Entry W Job Op Res)} {e : Entry W Job Op Res}
    (h : Logged P log) (hl : log = l₁ ++ e :: l₂) : P e.job (past l₂ e.thread) e.done.op := by
  subst hl
  induction l₁ with
  | nil => exact h.1
  | cons e' l₁ ih => exact ih h.2

/-! ### Where the entries of the log come from -/

/-- The job was started by an outside event, or by an operation of the log that
goes back to the same event. -/
def Started (S : System W Ev Ch Job Op Res) (log : List (Entry W Job Op Res)) (o : ℕ) (j : Job) :
    Prop :=
  (∃ w e, j ∈ (S.arrive w e).2) ∨
    ∃ e ∈ log, e.origin = o ∧ ∃ c, j ∈ (S.perform e.before e.done.op c).2.2

/-- Every entry has the answer of its operation in the world it found, and a job
that had been started by then. -/
def TracedLog (S : System W Ev Ch Job Op Res) : List (Entry W Job Op Res) → Prop
  | [] => True
  | e :: log => (∃ c, e.done.ans = (S.perform e.before e.done.op c).2.1) ∧
      Started S log e.origin e.job ∧ TracedLog S log

/-- The threads and the log fit together. -/
structure Traced (S : System W Ev Ch Job Op Res) (s : Loop W Ev Job Op Res) : Prop where
  entries : ∀ e ∈ s.log, ∃ t : Thread Job Op Res,
    s.threads[e.thread]? = some t ∧ t.origin = e.origin ∧ t.job = e.job
  started : ∀ t ∈ s.threads, Started S s.log t.origin t.job
  log : TracedLog S s.log

theorem Started.cons {log : List (Entry W Job Op Res)} {o : ℕ} {j : Job}
    (h : Started S log o j) (e : Entry W Job Op Res) : Started S (e :: log) o j := by
  rcases h with h | ⟨e', he', h⟩
  · exact .inl h
  · exact .inr ⟨e', List.mem_cons_of_mem _ he', h⟩

/-- **Every move keeps the threads and the log together.** -/
theorem traced_step (hs : Traced S s) (h : S.step s m = some t) : Traced S t := by
  rcases step_cases h with ⟨e, rfl, rfl⟩ | ⟨i, c, o, j, op, k, rfl, hi, rfl⟩
  · have hold : ∀ v ∈ (if S.drops e then s.threads.map halt else s.threads),
        ∃ u ∈ s.threads, v.origin = u.origin ∧ v.job = u.job := by
      intro v hv
      split at hv
      · obtain ⟨u, hu, rfl⟩ := List.mem_map.1 hv
        exact ⟨u, hu, rfl, rfl⟩
      · exact ⟨v, hv, rfl, rfl⟩
    refine ⟨fun e' he' => ?_, fun u hu => ?_, hs.log⟩
    · obtain ⟨u, hu, ho, hj⟩ := hs.entries e' he'
      have hlt := (List.getElem?_eq_some_iff.1 hu).1
      simp only [List.getElem?_append]
      split
      · rw [if_pos (by simpa using hlt), List.getElem?_map, hu]
        exact ⟨halt u, rfl, ho, hj⟩
      · exact ⟨u, hu, ho, hj⟩
    · rcases List.mem_append.1 hu with hu | hu
      · obtain ⟨v, hv, ho, hj⟩ := hold u hu
        rw [ho, hj]
        exact hs.started v hv
      · obtain ⟨j, hj, rfl⟩ := mem_fork hu
        exact .inl ⟨s.world, e, hj⟩
  · have hlt : i < s.threads.length := (List.getElem?_eq_some_iff.1 hi).1
    have hst := hs.started _ (List.mem_of_getElem? hi)
    refine ⟨fun e' he' => ?_, fun u hu => ?_, ⟨c, rfl⟩, hst, hs.log⟩
    · rcases List.mem_cons.1 he' with rfl | he'
      · refine ⟨⟨o, j, k (S.perform s.world op c).2.1⟩, ?_, rfl, rfl⟩
        change (_ ++ _)[i]? = _
        rw [List.getElem?_append_left (by simpa using hlt), List.getElem?_set_self hlt]
      · obtain ⟨u, hu, ho, hj⟩ := hs.entries e' he'
        have hlt' := (List.getElem?_eq_some_iff.1 hu).1
        rw [List.getElem?_append_left (by simpa using hlt')]
        by_cases hli : i = e'.thread
        · subst hli
          obtain rfl := Option.some.inj (hi.symm.trans hu)
          exact ⟨_, List.getElem?_set_self hlt, ho, hj⟩
        · rw [List.getElem?_set_ne hli]
          exact ⟨u, hu, ho, hj⟩
    · rcases List.mem_append.1 hu with hu | hu
      · rcases List.mem_or_eq_of_mem_set hu with hu | rfl
        · exact (hs.started u hu).cons _
        · exact hst.cons _
      · obtain ⟨j', hj', rfl⟩ := mem_fork hu
        exact .inr ⟨_, List.mem_cons_self, rfl, c, hj'⟩

/-- The threads and the log fit together along every run. -/
theorem Traced.exec {as : List (Move Ev Ch)} (hs : Traced S s) (h : Exec S.step C s as t) :
    Traced S t :=
  h.invariant hs fun _ _ _ hs _ h => traced_step hs h

theorem traced_start {w : W} : Traced S (⟨w, [], [], []⟩ : Loop W Ev Job Op Res) :=
  ⟨by simp, by simp, trivial⟩

/-- Read the origin of a job off an entry of the log. -/
theorem TracedLog.of_split {log l₁ l₂ : List (Entry W Job Op Res)} {e : Entry W Job Op Res}
    (h : TracedLog S log) (hl : log = l₁ ++ e :: l₂) :
    (∃ c, e.done.ans = (S.perform e.before e.done.op c).2.1) ∧ Started S l₂ e.origin e.job := by
  subst hl
  induction l₁ with
  | nil => exact ⟨h.1, h.2.1⟩
  | cons e' l₁ ih => exact ih h.2.2

/-- What the log was like before an entry. -/
theorem TracedLog.suffix {log l₁ l₂ : List (Entry W Job Op Res)} {e : Entry W Job Op Res}
    (h : TracedLog S log) (hl : log = l₁ ++ e :: l₂) : TracedLog S l₂ := by
  subst hl
  induction l₁ with
  | nil => exact h.2.2
  | cons e' l₁ ih => exact ih h.2.2

/-- Two entries of one thread go back to one event. -/
theorem Traced.origin_eq (hs : Traced S s) {e e' : Entry W Job Op Res} (he : e ∈ s.log)
    (he' : e' ∈ s.log) (h : e.thread = e'.thread) : e.origin = e'.origin := by
  obtain ⟨u, hu, ho, -⟩ := hs.entries e he
  obtain ⟨u', hu', ho', -⟩ := hs.entries e' he'
  rw [h, hu'] at hu
  obtain rfl := Option.some.inj hu
  rw [← ho, ho']

/-- Two entries of one thread are of one job. -/
theorem Traced.job_eq (hs : Traced S s) {e e' : Entry W Job Op Res} (he : e ∈ s.log)
    (he' : e' ∈ s.log) (h : e.thread = e'.thread) : e.job = e'.job := by
  obtain ⟨u, hu, -, hj⟩ := hs.entries e he
  obtain ⟨u', hu', -, hj'⟩ := hs.entries e' he'
  rw [h, hu'] at hu
  obtain rfl := Option.some.inj hu
  rw [← hj, hj']

/-- What a thread has done stands in the log. -/
theorem mem_past {log : List (Entry W Job Op Res)} {i : ℕ} {d : Done Op Res}
    (h : d ∈ past log i) : ∃ e ∈ log, e.thread = i ∧ e.done = d := by
  obtain ⟨e, he, rfl⟩ := List.mem_map.1 h
  obtain ⟨he, hi⟩ := List.mem_filter.1 he
  exact ⟨e, he, of_decide_eq_true hi, rfl⟩

/-- What stands in the log a thread has done. -/
theorem done_mem_past {log : List (Entry W Job Op Res)} {e : Entry W Job Op Res} (he : e ∈ log) :
    e.done ∈ past log e.thread :=
  List.mem_map.2 ⟨e, List.mem_filter.2 ⟨he, decide_eq_true rfl⟩, rfl⟩

/-! ### What a thread is bound to do is done before the system rests -/

/-- Some thread that goes back to the event `o` does not end before it has
performed an operation of `G`. -/
def Owes (A : (op : Op) → Option (Res op) → Prop) (G : Op → Prop) (o : ℕ)
    (s : Loop W Ev Job Op Res) : Prop :=
  ∃ t ∈ s.threads, t.origin = o ∧ t.rest.Bound A G

variable {A : (op : Op) → Option (Res op) → Prop} {G : Op → Prop} {o : ℕ}

/-- Nothing is owed when every task has ended. -/
theorem Idle.not_owes (h : Idle s) : ¬Owes A G o s := by
  rintro ⟨u, hu, -, hb⟩
  have he := h u hu
  generalize u.rest = r at he hb
  cases r with
  | ret a => exact hb
  | raised => exact hb
  | await op k => exact he

/-- An outside event that drops no task leaves what is owed owed. -/
theorem Owes.event {e : Ev} (hd : S.drops e = false) (ho : Owes A G o s)
    (h : S.step s (.event e) = some t) : Owes A G o t := by
  obtain rfl := Option.some.inj h
  obtain ⟨u, hu, rfl, hb⟩ := ho
  refine ⟨u, ?_, rfl, hb⟩
  simp only [hd, Bool.false_eq_true, if_false, List.mem_append]
  exact .inl hu

/-- The completion of an operation whose answer is among `A` leaves what is owed
owed, or it is what was owed. -/
theorem Owes.op {i : ℕ} {c : Ch} {o' : ℕ} {j : Job} {op : Op} {k : Option (Res op) → Task Op Res Unit}
    (ho : Owes A G o s) (hi : s.threads[i]? = some ⟨o', j, .await op k⟩)
    (ha : A op (S.perform s.world op c).2.1) (h : S.step s (.step i c) = some t) :
    Owes A G o t ∨ o' = o ∧ G op := by
  simp only [step, hi] at h
  obtain rfl := Option.some.inj h
  obtain ⟨u, hu, rfl, hb⟩ := ho
  obtain ⟨l, hl, rfl⟩ := List.getElem_of_mem hu
  by_cases hli : i = l
  · subst hli
    have hu' := Option.some.inj ((List.getElem?_eq_getElem hl).symm.trans hi)
    rw [hu'] at hb ⊢
    rcases hb with hg | hb
    · exact .inr ⟨rfl, hg⟩
    · refine .inl ⟨⟨o', j, k (S.perform s.world op c).2.1⟩, ?_, rfl, hb _ ha⟩
      exact List.mem_append.2 (.inl (List.mem_set hl _))
  · refine .inl ⟨s.threads[l], ?_, rfl, hb⟩
    refine List.mem_append.2 (.inl ?_)
    rw [List.mem_iff_getElem?]
    exact ⟨l, by rw [List.getElem?_set_ne hli, List.getElem?_eq_getElem hl]⟩

/-- The state after the completion of an operation. -/
theorem stepped {i : ℕ} {c : Ch} {o : ℕ} {j : Job} {op : Op} {k : Option (Res op) → Task Op Res Unit}
    (hi : s.threads[i]? = some ⟨o, j, .await op k⟩) (h : S.step s (.step i c) = some t) :
    t.world = (S.perform s.world op c).1 ∧ t.events = s.events ∧
      t.threads = s.threads.set i ⟨o, j, k (S.perform s.world op c).2.1⟩ ++
        S.fork o (S.perform s.world op c).2.2 := by
  simp only [step, hi] at h
  obtain rfl := Option.some.inj h
  exact ⟨rfl, rfl, rfl⟩

/-- Some thread of a job of `J` does not end before it has performed an operation of `G`. -/
def Due (J : Job → Prop) (A : (op : Op) → Option (Res op) → Prop) (G : Op → Prop)
    (s : Loop W Ev Job Op Res) : Prop :=
  ∃ t ∈ s.threads, J t.job ∧ t.rest.Bound A G

variable {J : Job → Prop}

/-- Nothing is due when every task has ended. -/
theorem Idle.not_due (h : Idle s) : ¬Due J A G s := by
  rintro ⟨u, hu, -, hb⟩
  exact h.not_owes (A := A) (G := G) ⟨u, hu, rfl, hb⟩

/-- A job that an outside event starts. -/
theorem Due.arrived {e : Ev} {j : Job} (h : S.step s (.event e) = some t)
    (hj : j ∈ (S.arrive s.world e).2) (hJ : J j) (hb : (S.code j).Bound A G) : Due J A G t := by
  obtain rfl := Option.some.inj h
  exact ⟨_, List.mem_append.2 (.inr (List.mem_map.2 ⟨j, hj, rfl⟩)), hJ, hb⟩

/-- A job that an operation starts. -/
theorem Due.started {i : ℕ} {c : Ch} {o : ℕ} {j j' : Job} {op : Op}
    {k : Option (Res op) → Task Op Res Unit} (hi : s.threads[i]? = some ⟨o, j, .await op k⟩)
    (h : S.step s (.step i c) = some t) (hj : j' ∈ (S.perform s.world op c).2.2) (hJ : J j')
    (hb : (S.code j').Bound A G) : Due J A G t := by
  simp only [step, hi] at h
  obtain rfl := Option.some.inj h
  exact ⟨_, List.mem_append.2 (.inr (List.mem_map.2 ⟨j', hj, rfl⟩)), hJ, hb⟩

/-- An outside event that drops no task leaves what is due due. -/
theorem Due.event {e : Ev} (hd : S.drops e = false) (hdue : Due J A G s)
    (h : S.step s (.event e) = some t) : Due J A G t := by
  obtain rfl := Option.some.inj h
  obtain ⟨u, hu, hJ, hb⟩ := hdue
  refine ⟨u, ?_, hJ, hb⟩
  simp only [hd, Bool.false_eq_true, if_false, List.mem_append]
  exact .inl hu

/-- The completion of an operation leaves what is due due, or the thread is of a job of `J` and has
performed an operation of `G`, or one whose answer is not among `A`. -/
theorem Due.op {i : ℕ} {c : Ch} {o : ℕ} {j : Job} {op : Op} {k : Option (Res op) → Task Op Res Unit}
    (hdue : Due J A G s) (hi : s.threads[i]? = some ⟨o, j, .await op k⟩)
    (h : S.step s (.step i c) = some t) :
    Due J A G t ∨ J j ∧ (G op ∨ ¬A op (S.perform s.world op c).2.1) := by
  simp only [step, hi] at h
  obtain rfl := Option.some.inj h
  obtain ⟨u, hu, hJ, hb⟩ := hdue
  obtain ⟨l, hl⟩ := List.mem_iff_getElem?.1 hu
  by_cases hli : l = i
  · subst hli
    obtain rfl := Option.some.inj (hl.symm.trans hi)
    by_cases ha : A op (S.perform s.world op c).2.1
    · rcases hb with hg | hb
      · exact .inr ⟨hJ, .inl hg⟩
      · refine .inl ⟨⟨o, j, k (S.perform s.world op c).2.1⟩, ?_, hJ, hb _ ha⟩
        exact List.mem_append.2 (.inl (List.mem_set (List.getElem?_eq_some_iff.1 hi).1 _))
    · exact .inr ⟨hJ, .inr ha⟩
  · refine .inl ⟨u, List.mem_append.2 (.inl ?_), hJ, hb⟩
    exact List.mem_of_getElem? ((List.getElem?_set_ne (Ne.symm hli)).trans hl)

end System

end Lib
end Liza
