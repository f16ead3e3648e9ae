/-
# A batch is a run of the deliveries

`ReadGrace` has `_unsafe_process` as one program: what its awaits meet is given, and nothing else
happens meanwhile.  `Delivery` has it as the moves of an object among other objects.  Whatever the
awaits meet (how long they take, which of them raise, what the gateway answers, whether the pusher
still exists), the object has a run that does what the program does: time passes, the object moves,
and the pusher is deleted where the program finds it gone.  The two then agree on the pusher and on
the clock (`batch_is_a_run`), so what is proved of every run is about the program as well.
-/

import Liza.Lib.Simulates
import Liza.Push.Delivery

set_option autoImplicit false

namespace Liza
namespace Push
namespace Delivery

open Lib Synapse ReadGrace

/-! ### What `_process_one` leaves alone -/

/-- The clock goes on, pushes are dispatched, and the pusher stays as it is. -/
structure Quiet (w w' : World) : Prop where
  now : w.now ≤ w'.now
  last : w'.lastStreamOrdering = w.lastStreamOrdering
  failing : w'.failingSince = w.failingSince
  backoff : w'.backoffDelay = w.backoffDelay
  timed : w'.timedCall = w.timedCall
  dispatched : w.log.dispatched ⊆ w'.log.dispatched

theorem Quiet.refl (w : World) : Quiet w w := ⟨le_rfl, rfl, rfl, rfl, rfl, List.Subset.refl _⟩

section Quiet

variable {cfg : ReadGrace.Config} {env : Env} {w₀ : World}

/-- The clock is set on, with something of the log. -/
theorem Quiet.later {w w' : World} (h : Quiet w₀ w) (hnow : w.now ≤ w'.now)
    (hlast : w'.lastStreamOrdering = w.lastStreamOrdering)
    (hfailing : w'.failingSince = w.failingSince) (hbackoff : w'.backoffDelay = w.backoffDelay)
    (htimed : w'.timedCall = w.timedCall) (hsent : w.log.dispatched ⊆ w'.log.dispatched) :
    Quiet w₀ w' :=
  ⟨h.now.trans hnow, hlast.trans h.last, hfailing.trans h.failing, hbackoff.trans h.backoff,
    htimed.trans h.timed, List.Subset.trans h.dispatched hsent⟩

theorem quiet_await (htime : ∀ k, 0 ≤ env.elapse k) : Preserves (Quiet w₀) (await env) := by
  refine .get_bind fun w hw => ?_
  refine (Preserves.bind (.write fun w hw => ?_) fun _ => .ite .throw (.pure _)) w hw
  have := htime w.awaits
  exact hw.later (by dsimp only; omega) rfl rfl rfl rfl (List.Subset.refl _)

theorem quiet_getBadgeCount (htime : ∀ k, 0 ≤ env.elapse k) :
    Preserves (Quiet w₀) (getBadgeCount env) :=
  (quiet_await htime).bind fun _ => .pure _

theorem quiet_jitterSleep (htime : ∀ k, 0 ≤ env.elapse k) (event : ReadGrace.Event) :
    Preserves (Quiet w₀) (jitterSleep cfg env event) := by
  unfold jitterSleep
  split
  · exact .pure _
  · refine .ite .throw (.get_bind fun w hw => ?_)
    dsimp only
    split
    · case _ hdiff =>
      refine (Preserves.bind (.write fun w hw => ?_) fun _ => (quiet_await htime).discard) w hw
      exact hw.later (by dsimp only; omega) rfl rfl rfl rfl (List.Subset.refl _)
    · exact hw

theorem quiet_graceSleep (htime : ∀ k, 0 ≤ env.elapse k) (event : ReadGrace.Event) :
    Preserves (Quiet w₀) (graceSleep cfg env event) := by
  refine .get_bind fun w hw => ?_
  dsimp only
  split
  · case _ hdiff =>
    refine (Preserves.bind (.write fun w hw => ?_) fun _ => (quiet_await htime).discard) w hw
    exact hw.later (by unfold World.sleep; dsimp only; omega) rfl rfl rfl rfl
      (List.Subset.refl _)
  · exact hw.later le_rfl rfl rfl rfl rfl (List.Subset.refl _)

theorem quiet_readWithinGrace (htime : ∀ k, 0 ≤ env.elapse k) (action : HttpPushAction)
    (event : ReadGrace.Event) : Preserves (Quiet w₀) (readWithinGrace cfg env action event) := by
  refine (quiet_await htime).bind fun k => ?_
  dsimp only
  split
  · refine (Preserves.write fun w hw => ?_).bind fun _ => .pure _
    exact hw.later le_rfl rfl rfl rfl rfl (List.Subset.refl _)
  · exact .pure _

theorem quiet_removeRejected (htime : ∀ k, 0 ≤ env.elapse k) :
    ∀ rejected, Preserves (Quiet w₀) (removeRejected cfg env rejected)
  | [] => .pure _
  | _ :: rejected => .bind (.ite (quiet_await htime).discard (.pure _))
      fun _ => quiet_removeRejected htime rejected

theorem quiet_dispatchPushEvent (htime : ∀ k, 0 ≤ env.elapse k) (action : HttpPushAction)
    (badge : ℕ) : Preserves (Quiet w₀) (dispatchPushEvent cfg env action badge) := by
  unfold dispatchPushEvent
  refine .bind (.write fun w hw => ?_) fun _ => (quiet_await htime).bind fun k => ?_
  · exact hw.later le_rfl rfl rfl rfl rfl (List.subset_append_left _ _)
  · split
    · exact .pure _
    · exact (quiet_removeRejected htime _).bind fun _ => .pure _
    · exact .pure _

/-- **`_process_one` is one `await`** for the pusher. -/
theorem quiet_processOne (htime : ∀ k, 0 ≤ env.elapse k) (action : HttpPushAction) :
    Preserves (Quiet w₀) (processOne cfg env action) := by
  refine .ite (.pure _) ((quiet_getBadgeCount htime).bind fun badge =>
    (quiet_await htime).bind fun k => ?_)
  split
  · exact .pure _
  · case _ event _ =>
    refine (quiet_jitterSleep htime event).bind fun _ =>
      .ite ?_ (quiet_dispatchPushEvent htime action badge)
    refine (quiet_graceSleep htime event).bind fun _ =>
      (quiet_readWithinGrace htime action event).bind fun _ => ?_
    exact .ite (.pure _) ((quiet_getBadgeCount htime).bind fun badge =>
      quiet_dispatchPushEvent htime action badge)

end Quiet

/-! ### Where the two agree -/

/-- The pusher of the program and the object agree; what the object has settled since `base` as
accepted was dispatched by the program. -/
structure Agrees (base : List Settled) (w : World) (s : Server) (p : HttpPusher) : Prop where
  now : s.now = w.now
  last : p.lastStreamOrdering = w.lastStreamOrdering
  failing : p.failingSince = w.failingSince
  backoff : p.backoffDelay = w.backoffDelay
  timed : p.timedCall = w.timedCall
  settled : ∃ new, p.settled = new ++ base ∧
    ∀ e ∈ new, e.fate = .accepted → e.row.eventId ∈ w.log.dispatched.map Prod.fst

/-- What may happen while a batch is on its way that nothing else interferes with. -/
def OfBatch (i : ℕ) : Act → Prop
  | .tick _ => True
  | .move j _ => j = i
  | .delete => True
  | _ => False

/-- The object is at an `await` of its pass. -/
def At (base : List Settled) (i : ℕ) (start : ℤ) (stage : Stage) (w : World) (s : Server) : Prop :=
  s.stored.isSome = true ∧ ∃ p, s.pushers[i]? = some p ∧ p.processing = some (start, stage) ∧
    Agrees base w s p

/-- The pass is over: there is none, or the next one has begun. -/
def Over (base : List Settled) (i : ℕ) (w : World) (s : Server) : Prop :=
  ∃ p, s.pushers[i]? = some p ∧ Agrees base w s p ∧
    (p.processing = none ∨ p.processing = some (p.maxStreamOrdering, .rows))

/-- The object is at the next row, if there is one. -/
def AtNext (base : List Settled) (i : ℕ) (start : ℤ) : List PushRow → World → Server → Prop
  | [] => Over base i
  | row :: rest => At base i start (.one row rest)

section Moves

variable {base : List Settled} {i : ℕ} {start : ℤ} {stage stage' : Stage} {w w' : World}
  {s : Server} {p q : HttpPusher} {a : Move} {stored : Option PusherConfig} {row : PushRow}
  {rest : List PushRow}

theorem Agrees.of_now {t : Server} (h : Agrees base w s p) (hnow : t.now = s.now) :
    Agrees base w t p :=
  ⟨hnow.trans h.now, h.last, h.failing, h.backoff, h.timed, h.settled⟩

/-- Nothing but the pass of the object is changed. -/
theorem Agrees.of_pass (h : Agrees base w s p) (hlast : q.lastStreamOrdering = p.lastStreamOrdering)
    (hfailing : q.failingSince = p.failingSince) (hbackoff : q.backoffDelay = p.backoffDelay)
    (htimed : q.timedCall = p.timedCall) (hsettled : q.settled = p.settled) : Agrees base w s q :=
  ⟨h.now, hlast.trans h.last, hfailing.trans h.failing, hbackoff.trans h.backoff,
    htimed.trans h.timed, hsettled ▸ h.settled⟩

theorem Agrees.waitAt (h : Agrees base w s p) (stage : Stage) : Agrees base w s (p.waitAt stage) :=
  h.of_pass rfl rfl rfl rfl rfl

theorem Agrees.finished (h : Agrees base w s p) (ended : PassEnd) :
    Agrees base w s (p.finished ended) := by
  unfold HttpPusher.finished HttpPusher.begun
  split
  · exact h
  · dsimp only
    split
    · exact h.of_pass rfl rfl rfl rfl rfl
    · exact h.of_pass rfl rfl rfl rfl rfl

theorem processing_finished (hproc : p.processing = some (start, stage)) (ended : PassEnd) :
    (p.finished ended).processing = none ∨
      (p.finished ended).processing = some ((p.finished ended).maxStreamOrdering, .rows) := by
  unfold HttpPusher.finished HttpPusher.begun
  rw [hproc]
  dsimp only
  split
  · exact .inl rfl
  · exact .inr rfl

theorem processing_waitAt (hproc : p.processing = some (start, stage)) (stage' : Stage) :
    (p.waitAt stage').processing = some (start, stage') := by
  unfold HttpPusher.waitAt
  rw [hproc]
  rfl

/-- A move of the object. -/
theorem run_move (hp : s.pushers[i]? = some p) (hmove : p.move s a = some (q, stored)) :
    Exec step (fun _ => OfBatch i) s [.move i a]
      { s with stored := stored, pushers := s.pushers.set i q } := by
  refine .cons rfl ?_ (.nil _)
  simp only [step, hp, hmove, Option.bind_eq_bind, Option.bind_some]

theorem moved (hp : s.pushers[i]? = some p) (hmove : p.move s a = some (q, stored))
    (hstored : stored.isSome = true) (hproc : q.processing = some (start, stage'))
    (hq : Agrees base w s q) :
    ∃ as t, Exec step (fun _ => OfBatch i) s as t ∧ At base i start stage' w t := by
  have hself := List.getElem?_set_self (a := q) (List.getElem?_eq_some_iff.1 hp).1
  exact ⟨_, _, run_move hp hmove, hstored, q, hself, hproc, hq.of_now rfl⟩

theorem moved_over {ended : PassEnd} (hp : s.pushers[i]? = some p)
    (hmove : p.move s a = some (q.finished ended, stored))
    (hproc : q.processing = some (start, stage)) (hq : Agrees base w s q) :
    ∃ as t, Exec step (fun _ => OfBatch i) s as t ∧ Over base i w t := by
  have hself := List.getElem?_set_self (a := q.finished ended) (List.getElem?_eq_some_iff.1 hp).1
  exact ⟨_, _, run_move hp hmove, _, hself, (hq.finished ended).of_now rfl,
    processing_finished hproc ended⟩

theorem moved_next (hp : s.pushers[i]? = some p)
    (hmove : p.move s a = some (q.next rest, stored)) (hstored : stored.isSome = true)
    (hproc : q.processing = some (start, stage)) (hq : Agrees base w s q) :
    ∃ as t, Exec step (fun _ => OfBatch i) s as t ∧ AtNext base i start rest w t := by
  cases rest with
  | nil => exact moved_over hp hmove hproc hq
  | cons row rest =>
      have hwait : (q.waitAt (.one row rest)).processing = some (start, .one row rest) :=
        processing_waitAt hproc _
      exact moved hp hmove hstored hwait (hq.waitAt _)

/-- An `await` of a pass ends. -/
theorem move_eq (hproc : p.processing = some (start, stage))
    (ha : p.move s a = p.processing.bind fun e => p.moveAt s e.1 e.2 a) :
    p.move s a = p.moveAt s start stage a := by
  rw [ha, hproc, Option.bind_some]

/-- Time passes. -/
theorem run_tick (hagrees : Agrees base w s p) (hquiet : Quiet w w') :
    Exec step (fun _ => OfBatch i) s [.tick (w'.now - s.now).toNat] { s with now := w'.now } := by
  have hnow : s.now + ((w'.now - s.now).toNat : ℤ) = w'.now := by
    have := hquiet.now
    have := hagrees.now
    omega
  refine .cons trivial ?_ (.nil _)
  rw [step, hnow]

theorem Agrees.later (h : Agrees base w s p) (hquiet : Quiet w w') :
    Agrees base w' { s with now := w'.now } p := by
  obtain ⟨new, hnew, hsent⟩ := h.settled
  exact ⟨rfl, h.last.trans hquiet.last.symm, h.failing.trans hquiet.failing.symm,
    h.backoff.trans hquiet.backoff.symm, h.timed.trans hquiet.timed.symm, new, hnew,
    fun e he hfate => List.map_subset _ hquiet.dispatched (hsent e he hfate)⟩

theorem at_later (h : At base i start stage w s) (hquiet : Quiet w w') :
    ∃ as t, Exec step (fun _ => OfBatch i) s as t ∧ At base i start stage w' t := by
  obtain ⟨hstored, p, hp, hproc, hagrees⟩ := h
  exact ⟨_, _, run_tick hagrees hquiet, hstored, p, hp, hproc, hagrees.later hquiet⟩

end Moves

/-! ### The program is followed -/

section Program

variable {cfg : ReadGrace.Config} {env : Env} {base : List Settled} {i : ℕ} {start : ℤ}
  {stage : Stage} {row : PushRow} {rest : List PushRow}

/-- The machine at the object follows. -/
abbrev Follows (i : ℕ) {β : Type} (P : World → Server → Prop) (m : Prog World β)
    (Q : β → World → Server → Prop) (E : World → Server → Prop) : Prop :=
  Simulates step (fun _ => OfBatch i) P m Q E

/-- The `await` at a point of a pass may raise, and `a` says that it does. -/
def Raises (start : ℤ) (stage : Stage) (a : Move) : Prop :=
  ∀ (s : Server) (p : HttpPusher), p.processing = some (start, stage) →
    p.move s a = some (p.finished .raised, s.stored)

theorem raises_rows : Raises start .rows (.rows false) := fun _ _ h => move_eq h rfl

theorem raises_one : Raises start (.one row rest) (.one .raises) := fun _ _ h => move_eq h rfl

theorem raises_saving : Raises start (.saving rest) (.saved false) := fun _ _ h => move_eq h rfl

theorem raises_clearing : Raises start (.clearing rest) (.cleared false) :=
  fun _ _ h => move_eq h rfl

theorem raises_noting : Raises start (.noting row rest) (.noted false) := fun _ _ h => move_eq h rfl

theorem raises_dropping : Raises start (.dropping rest) (.dropped false) :=
  fun _ _ h => move_eq h rfl

theorem over_of_raises {a : Move} (ha : Raises start stage a) (w : World) (s : Server)
    (h : At base i start stage w s) :
    ∃ as t, Exec step (fun _ => OfBatch i) s as t ∧ Over base i w t := by
  obtain ⟨-, p, hp, hproc, hagrees⟩ := h
  exact moved_over hp (ha s p hproc) hproc hagrees

/-- An `await` that the object is at. -/
theorem follows_await (htime : ∀ k, 0 ≤ env.elapse k) {a : Move} (ha : Raises start stage a) :
    Follows i (At base i start stage) (await env) (fun _ => At base i start stage)
      (Over base i) := by
  refine Simulates.after (G := fun _ => At base i start stage) (F := At base i start stage) ?_
    (fun _ w s h => ⟨[], s, .nil s, h⟩) (over_of_raises ha)
  exact .of_preserves (fun _ => quiet_await htime) Quiet.refl fun _ _ _ h hquiet =>
    at_later h hquiet

/-- `update_pusher_failing_since`, to which the object moves on. -/
theorem follows_setFailingSince (htime : ∀ k, 0 ≤ env.elapse k) {a : Move}
    (ha : Raises start stage a) {P : World → Server → Prop} {failingSince : Option ℤ}
    (hmoves : ∀ w s, P w s → ∃ as t, Exec step (fun _ => OfBatch i) s as t ∧
      At base i start stage { w with failingSince := failingSince } t) :
    Follows i P (setFailingSince env failingSince) (fun _ => At base i start stage)
      (Over base i) :=
  (Simulates.write (Q := fun _ => At base i start stage) hmoves).bind fun _ =>
    (follows_await htime ha).discard

/-- The object goes on to the next row when `failing_since` is taken back. -/
theorem next_of_cleared (w : World) (s : Server) (h : At base i start (.clearing rest) w s) :
    ∃ as t, Exec step (fun _ => OfBatch i) s as t ∧ AtNext base i start rest w t := by
  obtain ⟨hstored, p, hp, hproc, hagrees⟩ := h
  refine moved_next hp (move_eq (a := .cleared true) hproc rfl) ?_ hproc hagrees
  rw [Option.isSome_map]
  exact hstored

/-- The move of an object at `update_pusher_last_stream_ordering_and_success`. -/
theorem move_saved {s : Server} {p : HttpPusher} (hproc : p.processing = some (start, .saving rest))
    (hstored : s.stored.isSome = true) : ∃ stored : Option PusherConfig, stored.isSome = true ∧
      p.move s (.saved true) = some (if isSet p.failingSince = true
        then ({ p with failingSince := none }.waitAt (.clearing rest), stored)
        else (p.next rest, stored)) := by
  obtain ⟨config, hconfig⟩ := Option.isSome_iff_exists.1 hstored
  refine ⟨some { config with lastStreamOrdering := p.lastStreamOrdering }, rfl, ?_⟩
  rw [move_eq (a := .saved true) hproc rfl]
  simp only [HttpPusher.moveAt, hconfig, if_true]
  split
  · rfl
  · rfl

theorem follows_clearFailing (htime : ∀ k, 0 ≤ env.elapse k) :
    Follows i (At base i start (.saving rest)) (clearFailing env)
      (fun _ => AtNext base i start rest) (Over base i) := by
  refine .get_bind fun w => .ite (fun hset => ?_) fun hset => ?_
  · refine Simulates.after (G := fun _ => At base i start (.clearing rest)) (F := Over base i) ?_
      (fun _ => next_of_cleared) (fun w s h => ⟨[], s, .nil s, h⟩)
    refine follows_setFailingSince htime raises_clearing fun w' s => ?_
    rintro ⟨rfl, hstored, p, hp, hproc, hagrees⟩
    obtain ⟨stored, hsome, hmove⟩ := move_saved hproc hstored
    rw [hagrees.failing, if_pos hset] at hmove
    refine moved hp hmove hsome (processing_waitAt hproc _) (.waitAt ?_ _)
    exact ⟨hagrees.now, hagrees.last, rfl, hagrees.backoff, hagrees.timed, hagrees.settled⟩
  · refine .before (K := AtNext base i start rest) (fun w' s => ?_) (.pure fun _ _ h => h)
    rintro ⟨rfl, hstored, p, hp, hproc, hagrees⟩
    obtain ⟨stored, hsome, hmove⟩ := move_saved hproc hstored
    rw [hagrees.failing, if_neg hset] at hmove
    exact moved_next hp hmove hsome hproc hagrees

/-- Where the object is when the program knows whether the batch goes on. -/
def After (base : List Settled) (i : ℕ) (start : ℤ) (rest : List PushRow) :
    Bool → World → Server → Prop
  | true => AtNext base i start rest
  | false => Over base i

/-- A row was processed. -/
theorem at_saving (w : World) (s : Server) (h : At base i start (.one row rest) w s) :
    ∃ as t, Exec step (fun _ => OfBatch i) s as t ∧ At base i start (.saving rest)
      { w with backoffDelay := initialBackoffSec, lastStreamOrdering := row.streamOrdering } t := by
  obtain ⟨hstored, p, hp, hproc, hagrees⟩ := h
  obtain ⟨new, hnew, hsent⟩ := hagrees.settled
  -- the object is told what the program has done for the row
  have key (answer : Answer) (fate : Fate)
      (hmove : p.move s (.one answer) =
        some ((p.settle row fate s.now).waitAt (.saving rest), s.stored))
      (hfate : fate = .accepted → row.eventId ∈ w.log.dispatched.map Prod.fst) :
      ∃ as t, Exec step (fun _ => OfBatch i) s as t ∧ At base i start (.saving rest)
        { w with backoffDelay := initialBackoffSec, lastStreamOrdering := row.streamOrdering }
        t := by
    refine moved hp hmove hstored (processing_waitAt hproc _) (.waitAt ?_ _)
    refine ⟨hagrees.now, rfl, hagrees.failing, rfl, hagrees.timed,
      ⟨row, fate, s.now⟩ :: new, by rw [List.cons_append, ← hnew]; rfl, fun e he haccepted => ?_⟩
    rcases List.mem_cons.1 he with rfl | he
    · exact hfate haccepted
    · exact hsent e he haccepted
  by_cases hdispatched : row.eventId ∈ w.log.dispatched.map Prod.fst
  · exact key .accepted .accepted (move_eq hproc rfl) fun _ => hdispatched
  · exact key .skipped .skipped (move_eq hproc rfl) fun h => (by cases h)

/-- The pusher is gone: `on_stop`. -/
theorem over_of_deleted (w : World) (s : Server) (h : At base i start (.saving rest) w s) :
    ∃ as t, Exec step (fun _ => OfBatch i) s as t ∧ Over base i { w with timedCall := none } t := by
  obtain ⟨-, p, hp, hproc, hagrees⟩ := h
  have hstop : Agrees base { w with timedCall := none } { s with stored := none } p.onStop :=
    ⟨hagrees.now, hagrees.last, hagrees.failing, hagrees.backoff, rfl, hagrees.settled⟩
  have hmove : p.move { s with stored := none } (.saved true) =
      some (p.onStop.finished .deleted, none) := move_eq hproc rfl
  obtain ⟨as, t, hrun, ht⟩ := moved_over (s := { s with stored := none }) hp hmove hproc hstop
  exact ⟨.delete :: as, t, .cons trivial rfl hrun, ht⟩

theorem follows_afterProcessed (htime : ∀ k, 0 ≤ env.elapse k) :
    Follows i (At base i start (.one row rest)) (afterProcessed env row.toHttpPushAction)
      (After base i start rest) (Over base i) := by
  unfold afterProcessed
  refine (Simulates.write (Q := fun _ => At base i start (.saving rest)) at_saving).bind fun _ => ?_
  refine (follows_await htime raises_saving).bind fun k => .ite (fun _ => ?_) fun _ => ?_
  · exact (Simulates.write (Q := fun _ => Over base i) over_of_deleted).bind fun _ =>
      .pure fun _ _ h => h
  · exact (follows_clearFailing htime).bind fun _ => .pure fun _ _ h => h

/-- A failure was noted, now or before. -/
def Judging (base : List Settled) (i : ℕ) (start : ℤ) (row : PushRow) (rest : List PushRow)
    (w : World) (s : Server) : Prop :=
  At base i start (.one row rest) w s ∧ isSet w.failingSince = true ∨
    At base i start (.noting row rest) w s

theorem follows_noteFailing (htime : ∀ k, 0 ≤ env.elapse k) :
    Follows i (At base i start (.one row rest)) (noteFailing env)
      (fun _ => Judging base i start row rest) (Over base i) := by
  refine .get_bind fun w => .ite (fun hset => .pure ?_) fun hset => ?_
  · rintro w' s ⟨rfl, h⟩
    exact .inl ⟨h, hset⟩
  · refine Simulates.after (G := fun _ => At base i start (.noting row rest)) (F := Over base i)
      ?_ (fun _ w s h => ⟨[], s, .nil s, .inr h⟩) (fun w s h => ⟨[], s, .nil s, h⟩)
    refine follows_setFailingSince htime raises_noting fun w' s => ?_
    rintro ⟨rfl, hstored, p, hp, hproc, hagrees⟩
    have hmove : p.move s (.one .failed) =
        some ({ p with failingSince := some s.now }.waitAt (.noting row rest), s.stored) := by
      rw [move_eq (a := .one .failed) hproc rfl]
      simp only [HttpPusher.moveAt]
      rw [hagrees.failing, if_neg hset]
    refine moved hp hmove hstored (processing_waitAt hproc _) (.waitAt ?_ _)
    exact ⟨hagrees.now, hagrees.last, congrArg some hagrees.now, hagrees.backoff, hagrees.timed,
      hagrees.settled⟩

/-- The object decides as the program does. -/
theorem judges {w : World} {s : Server} (h : Judging base i start row rest w s) :
    ∃ p a stage stored, s.pushers[i]? = some p ∧ p.processing = some (start, stage) ∧
      Agrees base w s p ∧ p.move s a = some (p.judge s.now row rest, stored) ∧
      stored.isSome = true := by
  obtain ⟨⟨hstored, p, hp, hproc, hagrees⟩, hset⟩ | ⟨hstored, p, hp, hproc, hagrees⟩ := h
  · refine ⟨p, .one .failed, _, s.stored, hp, hproc, hagrees, ?_, hstored⟩
    rw [move_eq (a := .one .failed) hproc rfl]
    simp only [HttpPusher.moveAt]
    rw [hagrees.failing, if_pos hset]
  · refine ⟨p, .noted true, _, _, hp, hproc, hagrees, move_eq hproc rfl, ?_⟩
    rw [Option.isSome_map]
    exact hstored

/-- The row is given up. -/
theorem at_dropping {w : World} {s : Server}
    (hlong : isSet w.failingSince = true ∧ w.failingSince.getD 0 < w.now - giveUpAfterMs)
    (h : Judging base i start row rest w s) :
    ∃ as t, Exec step (fun _ => OfBatch i) s as t ∧ At base i start (.dropping rest)
      { w with backoffDelay := initialBackoffSec, lastStreamOrdering := row.streamOrdering } t := by
  obtain ⟨p, a, stage, stored, hp, hproc, hagrees, hmove, hstored⟩ := judges h
  unfold HttpPusher.judge at hmove
  rw [hagrees.failing, hagrees.now, if_pos hlong] at hmove
  obtain ⟨new, hnew, hsent⟩ := hagrees.settled
  refine moved hp hmove hstored (processing_waitAt hproc _) (.waitAt ?_ _)
  refine ⟨hagrees.now, rfl, hagrees.failing, rfl, hagrees.timed,
    ⟨row, .dropped, w.now⟩ :: new, by rw [List.cons_append, ← hnew]; rfl, fun e he haccepted => ?_⟩
  rcases List.mem_cons.1 he with rfl | he
  · cases haccepted
  · exact hsent e he haccepted

/-- The row is tried again later. -/
theorem over_of_waiting {w : World} {s : Server}
    (hlong : ¬(isSet w.failingSince = true ∧ w.failingSince.getD 0 < w.now - giveUpAfterMs))
    (h : Judging base i start row rest w s) :
    ∃ as t, Exec step (fun _ => OfBatch i) s as t ∧ Over base i
      { w with
        timedCall := some (w.now + w.backoffDelay * 1000)
        backoffDelay := min (w.backoffDelay * 2) maxBackoffSec } t := by
  obtain ⟨p, a, stage, stored, hp, hproc, hagrees, hmove, -⟩ := judges h
  unfold HttpPusher.judge at hmove
  rw [hagrees.failing, hagrees.now, if_neg hlong, hagrees.backoff] at hmove
  refine moved_over hp hmove hproc ?_
  exact ⟨hagrees.now, hagrees.last, rfl, rfl, rfl, hagrees.settled⟩

theorem at_clearing (w : World) (s : Server) (h : At base i start (.dropping rest) w s) :
    ∃ as t, Exec step (fun _ => OfBatch i) s as t ∧
      At base i start (.clearing rest) { w with failingSince := none } t := by
  obtain ⟨hstored, p, hp, hproc, hagrees⟩ := h
  obtain ⟨config, hconfig⟩ := Option.isSome_iff_exists.1 hstored
  have hmove : p.move s (.dropped true) =
      some ({ p with failingSince := none }.waitAt (.clearing rest),
        some { config with lastStreamOrdering := p.lastStreamOrdering }) := by
    rw [move_eq (a := .dropped true) hproc rfl]
    simp only [HttpPusher.moveAt, hconfig, if_true, Option.map_some]
  refine moved hp hmove rfl (processing_waitAt hproc _) (.waitAt ?_ _)
  exact ⟨hagrees.now, hagrees.last, rfl, hagrees.backoff, hagrees.timed, hagrees.settled⟩

theorem follows_afterFailed (htime : ∀ k, 0 ≤ env.elapse k) :
    Follows i (At base i start (.one row rest)) (afterFailed env row.toHttpPushAction)
      (After base i start rest) (Over base i) := by
  refine (follows_noteFailing htime).bind fun _ => .get_bind fun w =>
    .ite (fun hlong => ?_) fun hlong => ?_
  · refine (Simulates.write (Q := fun _ => At base i start (.dropping rest)) ?_).bind fun _ => ?_
    · rintro w' s ⟨rfl, h⟩
      exact at_dropping hlong h
    · refine (follows_await htime raises_dropping).discard.bind fun _ => ?_
      refine Simulates.bind (Q := fun _ => AtNext base i start rest) ?_ fun _ =>
        .pure fun _ _ h => h
      exact (follows_setFailingSince htime raises_clearing at_clearing).after
        (fun _ => next_of_cleared) (fun w s h => ⟨[], s, .nil s, h⟩)
  · refine (Simulates.write (Q := fun _ => Over base i) ?_).bind fun _ => .pure fun _ _ h => h
    rintro w' s ⟨rfl, h⟩
    exact over_of_waiting hlong h

/-- The rows of a batch. -/
theorem follows_processAll (htime : ∀ k, 0 ≤ env.elapse k) (rows : List PushRow) :
    Follows i (AtNext base i start rows) (processAll cfg env (rows.map PushRow.toHttpPushAction))
      (fun _ => Over base i) (Over base i) := by
  induction rows with
  | nil => exact .pure fun _ _ h => h
  | cons row rest ih =>
      have hone : Follows i (At base i start (.one row rest))
          (processOne cfg env row.toHttpPushAction)
          (fun _ => At base i start (.one row rest)) (Over base i) := by
        refine Simulates.after (G := fun _ => At base i start (.one row rest))
          (F := At base i start (.one row rest)) ?_ (fun _ w s h => ⟨[], s, .nil s, h⟩)
          (over_of_raises raises_one)
        exact .of_preserves (fun _ => quiet_processOne htime _) Quiet.refl fun _ _ _ h hquiet =>
          at_later h hquiet
      refine Simulates.bind hone fun processed => Simulates.bind (Q := After base i start rest) ?_
        fun goesOn => ?_
      · exact .ite (fun _ => follows_afterProcessed htime) fun _ => follows_afterFailed htime
      · cases goesOn with
        | true => exact ih
        | false => exact .pure fun _ _ h => h

/-- The object has the rows that the program is given. -/
theorem next_of_rows {w : World} {s : Server} {p : HttpPusher} (hstored : s.stored.isSome = true)
    (hp : s.pushers[i]? = some p) (hproc : p.processing = some (start, .rows))
    (hagrees : Agrees base w s p) :
    ∃ as t, Exec step (fun _ => OfBatch i) s as t ∧ AtNext base i start
      (PushRow.unread s.marks (PushRow.inRange s.rows p.lastStreamOrdering start)) w t := by
  let window := PushRow.inRange s.rows p.lastStreamOrdering start
  let q : HttpPusher := { p with window := window.length }.waitAt (.receipts window)
  have hproc' : q.processing = some (start, .receipts window) := processing_waitAt hproc _
  have hrows : p.move s (.rows true) = some (q, s.stored) := move_eq hproc rfl
  have hself := List.getElem?_set_self (a := q) (List.getElem?_eq_some_iff.1 hp).1
  have hq : Agrees base w s q := hagrees.of_pass rfl rfl rfl rfl rfl
  obtain ⟨as, t, hrun, ht⟩ := moved_next (s := { s with pushers := s.pushers.set i q }) hself
    (move_eq (a := .receipts true) hproc' rfl) hstored hproc' (hq.of_now rfl)
  exact ⟨_, t, (run_move hp hrows).trans hrun, ht⟩

/-- **A batch is a run.**  Where the object and the pusher of the program agree as a pass begins,
and the query returns what the tables hold: whatever the awaits of the program meet, there is a run,
in which nothing else happens to the object, after which its pass is over and they agree again. -/
theorem batch_is_a_run (cfg : ReadGrace.Config) (env : Env) {w : World} {s : Server}
    {p : HttpPusher} (htime : ∀ k, 0 ≤ env.elapse k) (hstored : s.stored.isSome = true)
    (hp : s.pushers[i]? = some p) (hproc : p.processing = some (start, .rows))
    (hagrees : Agrees p.settled w s p)
    (hrows : ∀ k, env.unprocessed k =
      (PushRow.unread s.marks (PushRow.inRange s.rows p.lastStreamOrdering start)).map
        PushRow.toHttpPushAction) :
    ∃ as t q, Exec step (fun _ => OfBatch i) s as t ∧ t.pushers[i]? = some q ∧
      Agrees p.settled ((unsafeProcess cfg env).exec w) t q ∧
      (q.processing = none ∨ q.processing = some (q.maxStreamOrdering, .rows)) := by
  -- until the query has its answer, only time passes
  let Waits : World → Server → Prop := fun w' s' =>
    ∃ n, s' = { s with now := n } ∧ Agrees p.settled w' s' p
  have hawait : Follows i Waits (await env) (fun _ => Waits) (Over p.settled i) := by
    refine Simulates.after (G := fun _ => Waits) (F := Waits) ?_
      (fun _ w s h => ⟨[], s, .nil s, h⟩) ?_
    · refine .of_preserves (fun _ => quiet_await htime) Quiet.refl fun w' s' w'' h hquiet => ?_
      obtain ⟨n, rfl, hagrees'⟩ := h
      exact ⟨_, _, run_tick hagrees' hquiet, w''.now, rfl, hagrees'.later hquiet⟩
    · rintro w' _ ⟨n, rfl, hagrees'⟩
      exact moved_over (s := { s with now := n }) hp (raises_rows _ p hproc) hproc hagrees'
  have hrun : Follows i Waits (unsafeProcess cfg env) (fun _ => Over p.settled i)
      (Over p.settled i) := by
    refine hawait.bind fun k => .before (K := AtNext p.settled i start
      (PushRow.unread s.marks (PushRow.inRange s.rows p.lastStreamOrdering start))) ?_ ?_
    swap
    · rw [hrows k]
      exact follows_processAll htime _
    rintro w' _ ⟨n, rfl, hagrees'⟩
    exact next_of_rows (s := { s with now := n }) hstored hp hproc hagrees'
  obtain ⟨as, t, hexec, hend⟩ := hrun w s ⟨s.now, rfl, hagrees⟩
  have hover : Over p.settled i ((unsafeProcess cfg env).exec w) t := by
    unfold Prog.exec
    generalize (unsafeProcess cfg env).run.run w = r at hend ⊢
    obtain ⟨e | b, w'⟩ := r
    · exact hend
    · exact hend
  obtain ⟨q, hq, hagrees', hproc'⟩ := hover
  exact ⟨as, t, q, hexec, hq, hagrees', hproc'⟩

/-- One push is waiting. -/
def oneWaiting : PushRow := ⟨⟨"$event", "!room", 3, [.str (py "notify")]⟩, "main"⟩

def waitingPusher : HttpPusher := { HttpPusher.new 0 none 3 with
  starting := false, processing := some (3, .rows) }

def waitingServer : Server := ⟨0, 3, [oneWaiting], [], some ⟨0, none⟩, [waitingPusher]⟩

/-- The pusher as the program has it. -/
def waitingWorld : World := ⟨0, 0, 0, none, initialBackoffSec, none, ⟨0, [], [], [], []⟩⟩

/-- Every `await` takes 5 ms, and the gateway is away. -/
def gatewayAway : Env where
  elapse := fun _ => 5
  raises := fun _ => false
  unprocessed := fun _ => [oneWaiting.toHttpPushAction]
  badge := fun _ => 1
  event := fun _ _ => some ⟨"!room", 0⟩
  draw := fun _ => 0
  receipts := fun _ => []
  rejected := fun _ => .bool false
  pusherStillExists := fun _ => true

/-- The object waits for a second, from when its failure was noted. -/
theorem failure_is_a_run : ∃ as t q, Exec step (fun _ => OfBatch 0) waitingServer as t ∧
    t.pushers[0]? = some q ∧ q.failingSince = some 20 ∧ q.timedCall = some 1025 := by
  have hrows : (PushRow.unread waitingServer.marks
      (PushRow.inRange waitingServer.rows waitingPusher.lastStreamOrdering 3)) = [oneWaiting] := by
    rfl
  obtain ⟨as, t, q, hrun, hq, hagrees, -⟩ :=
    batch_is_a_run ⟨none, none, "@ann:liza", "token", true⟩ gatewayAway (i := 0)
      (w := waitingWorld)
      (fun _ => Int.natCast_nonneg 5) rfl rfl rfl
      ⟨rfl, rfl, rfl, rfl, rfl, [], rfl, fun _ h => absurd h List.not_mem_nil⟩
      (fun _ => by rw [hrows]; rfl)
  exact ⟨as, t, q, hrun, hq, hagrees.failing.trans (by rfl), hagrees.timed.trans (by rfl)⟩

end Program

end Delivery
end Push
end Liza
