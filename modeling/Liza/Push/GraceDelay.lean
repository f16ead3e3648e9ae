/-
# How long can the read-grace hold a batch?

Each grace sleep ends at the timestamp of its event plus the grace, by the clock of the
homeserver.  So the sleeps do not add up: what a batch has slept is the largest of the
waits its checks asked for (`sum_le_iff`), a wait being the timestamp plus the grace,
counted from the start of the batch, less the time that has gone by on other work.  The
sleeps stay within one grace exactly when no event is stamped later than its check finds
the batch without them (`graceBounded_iff`); no event of the past is
(`sum_graceSleeps_le_of_past`), but a remote server stamps its events as it likes.

A push is skipped only behind the last unthreaded receipt, whatever the timestamps are.
-/

import Liza.Push.ReadGrace
import Mathlib.Tactic.Ring
import Mathlib.Order.Lattice

set_option autoImplicit false

namespace Liza
namespace Push
namespace ReadGrace

open Lib Synapse

/-! ### What a batch does to the clock and the log -/

/-- `P` is kept by everything a batch does to the clock and to the log, and does not look
at the rest. -/
structure Stable (cfg : Config) (env : Env) (P : World → Prop) : Prop where
  pass : ∀ w, P w → P { w with now := w.now + env.elapse w.awaits, awaits := w.awaits + 1 }
  jitter : ∀ w d, 0 < d → P w → P { w with now := w.now + d }
  pusher : ∀ w w' : World, w'.now = w.now → w'.log.start = w.log.start →
    w'.log.graceSleeps = w.log.graceSleeps → w'.log.checks = w.log.checks →
    w'.log.skips = w.log.skips → P w → P w'
  check : ∀ w k id event, env.event k id = some event →
    readGraceDeadlineMs event.originServerTs cfg.graceMs - w.now ≤ 0 →
    P w → P (w.check event.originServerTs)
  sleep : ∀ w k id event, env.event k id = some event →
    0 < readGraceDeadlineMs event.originServerTs cfg.graceMs - w.now →
    P w → P (w.sleep event.originServerTs
      (readGraceDeadlineMs event.originServerTs cfg.graceMs - w.now))
  skip : ∀ w table room ordering, isReadWithinGrace
      ((getLastUnthreadedReceiptForUser cfg.nullsFirst table cfg.userId room).bind Prod.snd)
      ordering = true →
    P w → P (w.skip ⟨room, ordering, table⟩)

namespace Stable

variable {cfg : Config} {env : Env} {P : World → Prop}

theorem await (hP : Stable cfg env P) : Preserves P (await env) := by
  refine .get_bind fun w hw => ?_
  refine (Preserves.bind (.write fun w hw => hP.pass w hw) fun _ => ?_) w hw
  exact .ite .throw (.pure _)

theorem discard_await (hP : Stable cfg env P) :
    Preserves P (discard (ReadGrace.await env)) := hP.await.discard

/-- A write to the pusher alone. -/
theorem write (hP : Stable cfg env P) {g : World → World} (hnow : ∀ w, (g w).now = w.now)
    (hlog : ∀ w, (g w).log.start = w.log.start ∧ (g w).log.graceSleeps = w.log.graceSleeps ∧
      (g w).log.checks = w.log.checks ∧ (g w).log.skips = w.log.skips) :
    Preserves P (modify g) :=
  .write fun w hw =>
    hP.pusher w (g w) (hnow w) (hlog w).1 (hlog w).2.1 (hlog w).2.2.1 (hlog w).2.2.2 hw

theorem getBadgeCount (hP : Stable cfg env P) : Preserves P (getBadgeCount env) :=
  hP.await.bind fun _ => .pure _

theorem jitterSleep (hP : Stable cfg env P) (event : Event) :
    Preserves P (jitterSleep cfg env event) := by
  unfold ReadGrace.jitterSleep
  split
  · exact .pure _
  · refine .ite .throw (.get_bind fun w hw => ?_)
    dsimp only
    split
    · case _ hdiff =>
      refine (Preserves.bind (.write fun w hw => hP.jitter w _ hdiff hw) fun _ => ?_) w hw
      exact hP.discard_await
    · exact hw

theorem graceSleep (hP : Stable cfg env P) {k : ℕ} {id : EventId} {event : Event}
    (hevent : env.event k id = some event) : Preserves P (graceSleep cfg env event) := by
  refine .get_bind fun w hw => ?_
  dsimp only
  split
  · case _ hdiff =>
    exact hP.discard_await _ (hP.sleep w k id event hevent hdiff hw)
  · case _ hdiff => exact hP.check w k id event hevent (by omega) hw

theorem readWithinGrace (hP : Stable cfg env P) (action : HttpPushAction) (event : Event) :
    Preserves P (readWithinGrace cfg env action event) := by
  refine hP.await.bind fun k => ?_
  dsimp only
  split
  · case _ hread =>
    exact (Preserves.write fun w hw => hP.skip w _ _ _ hread hw).bind fun _ => .pure _
  · exact .pure _

theorem removeRejected (hP : Stable cfg env P) :
    ∀ rejected, Preserves P (removeRejected cfg env rejected)
  | [] => .pure _
  | _ :: rejected => .bind (.ite hP.discard_await (.pure _)) fun _ => hP.removeRejected rejected

theorem dispatchPushEvent (hP : Stable cfg env P) (action : HttpPushAction) (badge : ℕ) :
    Preserves P (dispatchPushEvent cfg env action badge) := by
  unfold ReadGrace.dispatchPushEvent
  refine .bind (hP.write (fun _ => rfl) fun _ => ⟨rfl, rfl, rfl, rfl⟩) fun _ => ?_
  refine hP.await.bind fun k => ?_
  split
  · exact .pure _
  · exact (hP.removeRejected _).bind fun _ => .pure _
  · exact .pure _

theorem processOne (hP : Stable cfg env P) (action : HttpPushAction) :
    Preserves P (processOne cfg env action) := by
  refine .ite (.pure _) (hP.getBadgeCount.bind fun badge => hP.await.bind fun k => ?_)
  split
  · exact .pure _
  · case _ event hevent =>
    refine (hP.jitterSleep event).bind fun _ => .ite ?_ (hP.dispatchPushEvent action badge)
    refine (hP.graceSleep hevent).bind fun _ => (hP.readWithinGrace action event).bind fun _ => ?_
    exact .ite (.pure _) (hP.getBadgeCount.bind fun badge => hP.dispatchPushEvent action badge)

theorem setFailingSince (hP : Stable cfg env P) (failingSince : Option ℤ) :
    Preserves P (setFailingSince env failingSince) := by
  unfold ReadGrace.setFailingSince
  exact .bind (hP.write (fun _ => rfl) fun _ => ⟨rfl, rfl, rfl, rfl⟩) fun _ => hP.discard_await

theorem clearFailing (hP : Stable cfg env P) : Preserves P (clearFailing env) :=
  .get_bind fun w hw => Preserves.ite (hP.setFailingSince none) (.pure _) w hw

theorem noteFailing (hP : Stable cfg env P) : Preserves P (noteFailing env) :=
  .get_bind fun w hw => Preserves.ite (.pure _) (hP.setFailingSince _) w hw

theorem afterProcessed (hP : Stable cfg env P) (action : HttpPushAction) :
    Preserves P (afterProcessed env action) := by
  unfold ReadGrace.afterProcessed
  refine .bind (hP.write (fun _ => rfl) fun _ => ⟨rfl, rfl, rfl, rfl⟩) fun _ => ?_
  refine hP.await.bind fun k => .ite ?_ (hP.clearFailing.bind fun _ => .pure _)
  exact .bind (hP.write (fun _ => rfl) fun _ => ⟨rfl, rfl, rfl, rfl⟩) fun _ => .pure _

theorem afterFailed (hP : Stable cfg env P) (action : HttpPushAction) :
    Preserves P (afterFailed env action) := by
  unfold ReadGrace.afterFailed
  refine hP.noteFailing.bind fun _ => .get_bind fun w hw => Preserves.ite ?_ ?_ w hw
  · refine .bind (hP.write (fun _ => rfl) fun _ => ⟨rfl, rfl, rfl, rfl⟩) fun _ => ?_
    exact hP.discard_await.bind fun _ => (hP.setFailingSince none).bind fun _ => .pure _
  · exact .bind (hP.write (fun _ => rfl) fun _ => ⟨rfl, rfl, rfl, rfl⟩) fun _ => .pure _

theorem processAll (hP : Stable cfg env P) :
    ∀ unprocessed, Preserves P (processAll cfg env unprocessed)
  | [] => .pure _
  | action :: unprocessed => by
      refine (hP.processOne action).bind fun processed => .bind ?_ fun goesOn => ?_
      · exact .ite (hP.afterProcessed action) (hP.afterFailed action)
      · exact .ite (hP.processAll unprocessed) (.pure _)

/-- **A batch keeps what is stable.** -/
theorem unsafeProcess (hP : Stable cfg env P) : Preserves P (unsafeProcess cfg env) :=
  hP.await.bind fun k => hP.processAll (env.unprocessed k)

end Stable

/-! ### The sleeps of a batch -/

section Sleeps

variable {cfg : Config} {env : Env} {start : ℤ} {w : World}

/-- What has been slept is the largest of the waits the checks have asked for. -/
def SleptMost (graceMs start : ℤ) (w : World) : Prop :=
  w.log.start = start ∧ ∀ b, w.log.graceSleeps.sum ≤ b ↔
    0 ≤ b ∧ ∀ c ∈ w.log.checks, c.originServerTs + graceMs - (start + c.other) ≤ b

theorem sleptMost_check {originServerTs : ℤ}
    (hdiff : readGraceDeadlineMs originServerTs cfg.graceMs - w.now ≤ 0)
    (h : SleptMost cfg.graceMs start w) : SleptMost cfg.graceMs start (w.check originServerTs) := by
  obtain ⟨hstart, h⟩ := h
  have hw : ∀ b, w.log.graceSleeps.sum ≤ b →
      originServerTs + cfg.graceMs - (start + w.other) ≤ b := by
    intro b hb
    unfold readGraceDeadlineMs at hdiff
    unfold World.other
    omega
  refine ⟨hstart, fun b => (h b).trans ⟨fun hb => ⟨hb.1, fun c hc => ?_⟩, fun hb => ⟨hb.1,
    fun c hc => hb.2 c (List.mem_append_left _ hc)⟩⟩⟩
  rcases List.mem_append.1 hc with hc | hc
  · exact hb.2 c hc
  · obtain rfl := List.mem_singleton.1 hc
    exact hw b ((h b).2 hb)

theorem sleptMost_sleep {originServerTs : ℤ}
    (hdiff : 0 < readGraceDeadlineMs originServerTs cfg.graceMs - w.now)
    (h : SleptMost cfg.graceMs start w) :
    SleptMost cfg.graceMs start
      (w.sleep originServerTs (readGraceDeadlineMs originServerTs cfg.graceMs - w.now)) := by
  obtain ⟨hstart, h⟩ := h
  have hsum : (w.log.graceSleeps ++
      [readGraceDeadlineMs originServerTs cfg.graceMs - w.now]).sum =
      originServerTs + cfg.graceMs - (start + w.other) := by
    rw [List.sum_append, List.sum_singleton]
    unfold World.other readGraceDeadlineMs
    omega
  -- the new sleep lasts till the deadline, and no earlier wait was longer
  have hle : w.log.graceSleeps.sum ≤ originServerTs + cfg.graceMs - (start + w.other) := by
    rw [← hsum, List.sum_append, List.sum_singleton]
    omega
  refine ⟨hstart, fun b => ?_⟩
  change (w.log.graceSleeps ++ [_]).sum ≤ b ↔ _
  rw [hsum]
  constructor
  · intro hb
    obtain ⟨hb₀, hold⟩ := (h b).1 (hle.trans hb)
    refine ⟨hb₀, fun c hc => ?_⟩
    rcases List.mem_append.1 hc with hc | hc
    · exact hold c hc
    · obtain rfl := List.mem_singleton.1 hc
      exact hb
  · intro hb
    exact hb.2 ⟨originServerTs, w.other⟩ (List.mem_append_right _ List.mem_cons_self)

theorem stable_sleptMost (cfg : Config) (env : Env) (start : ℤ) :
    Stable cfg env (SleptMost cfg.graceMs start) where
  pass _ h := h
  jitter _ _ _ h := h
  pusher w w' _ hstart hsleeps hchecks _ h := by
    unfold SleptMost at h ⊢
    rwa [hstart, hsleeps, hchecks]
  check _ _ _ _ _ hdiff h := sleptMost_check hdiff h
  sleep _ _ _ _ _ hdiff h := sleptMost_sleep hdiff h
  skip _ _ _ _ _ h := h

/-- **The grace sleeps of a batch together are the largest wait of its checks.** -/
theorem sum_le_iff (cfg : Config) (env : Env) (w : World) (b : ℤ) :
    (batchLog cfg env w).graceSleeps.sum ≤ b ↔ 0 ≤ b ∧ ∀ c ∈ (batchLog cfg env w).checks,
      c.originServerTs + cfg.graceMs - (w.now + c.other) ≤ b := by
  have h := (stable_sleptMost cfg env w.now).unsafeProcess
    { w with log := ⟨w.now, [], [], [], []⟩ } ⟨rfl, fun b => by simp⟩
  exact h.2 b

/-- Time goes forward: every check comes after the start, and is about an event of the
store. -/
def Forward (env : Env) (start : ℤ) (w : World) : Prop :=
  w.log.start = start ∧ 0 ≤ w.other ∧ ∀ c ∈ w.log.checks, 0 ≤ c.other ∧
    ∃ k id event, env.event k id = some event ∧ c.originServerTs = event.originServerTs

theorem forward_check {k : ℕ} {id : EventId} {event : Event}
    (hevent : env.event k id = some event) (h : Forward env start w) :
    ∀ c ∈ w.log.checks ++ [⟨event.originServerTs, w.other⟩], 0 ≤ c.other ∧
      ∃ k id event, env.event k id = some event ∧ c.originServerTs = event.originServerTs := by
  intro c hc
  rcases List.mem_append.1 hc with hc | hc
  · exact h.2.2 c hc
  · obtain rfl := List.mem_singleton.1 hc
    exact ⟨h.2.1, k, id, event, hevent, rfl⟩

theorem stable_forward (cfg : Config) (start : ℤ) (htime : ∀ k, 0 ≤ env.elapse k) :
    Stable cfg env (Forward env start) where
  pass w h := by
    refine ⟨h.1, ?_, h.2.2⟩
    have h₀ := h.2.1
    have := htime w.awaits
    unfold World.other at h₀ ⊢
    dsimp only
    omega
  jitter w d hd h := by
    refine ⟨h.1, ?_, h.2.2⟩
    have h₀ := h.2.1
    unfold World.other at h₀ ⊢
    dsimp only
    omega
  pusher w w' hnow hstart hsleeps hchecks _ h := by
    unfold Forward World.other at h ⊢
    rwa [hnow, hstart, hsleeps, hchecks]
  check _ _ _ _ hevent _ h := ⟨h.1, h.2.1, forward_check hevent h⟩
  sleep w _ _ event hevent _ h := by
    refine ⟨h.1, ?_, forward_check hevent h⟩
    have h₀ := h.2.1
    unfold World.other at h₀ ⊢
    unfold World.sleep
    dsimp only
    rw [List.sum_append, List.sum_singleton]
    omega
  skip _ _ _ _ _ h := h

/-- **Events of the past hold a batch for one grace at most**, however many there are. -/
theorem sum_graceSleeps_le_of_past (cfg : Config) (env : Env) (w : World)
    (hgrace : 0 ≤ cfg.graceMs) (htime : ∀ k, 0 ≤ env.elapse k)
    (hpast : ∀ k id event, env.event k id = some event → event.originServerTs ≤ w.now) :
    (batchLog cfg env w).graceSleeps.sum ≤ cfg.graceMs := by
  have h := (stable_forward cfg w.now htime).unsafeProcess
    { w with log := ⟨w.now, [], [], [], []⟩ } ⟨rfl, by simp [World.other], by simp⟩
  refine (sum_le_iff cfg env w cfg.graceMs).2 ⟨hgrace, fun c hc => ?_⟩
  obtain ⟨hother, k, id, event, hevent, hts⟩ := h.2.2 c hc
  have := hpast k id event hevent
  omega

end Sleeps

/-! ### The receipt behind a skipped push -/

section Receipts

variable {cfg : Config} {env : Env} {nullsFirst : Bool} {table : List Receipt} {user : UserId}
  {room : RoomId}

/-- The last unthreaded receipt of the user in the room, public or private, is at the
stream ordering `o`. -/
def LastReceipt (table : List Receipt) (user : UserId) (room : RoomId) (o : ℤ) : Prop :=
  (∃ r ∈ table, r.selected user room = true ∧ r.eventStreamOrdering = some o) ∧
    ∀ r ∈ table, r.selected user room = true → ∀ o', r.eventStreamOrdering = some o' → o' ≤ o

theorem before_asymm {a b : Receipt} (h : a.before nullsFirst b = true) :
    b.before nullsFirst a = false := by
  unfold Receipt.before at h ⊢
  cases ha : a.eventStreamOrdering with
  | none =>
      rw [ha] at h
      cases hb : b.eventStreamOrdering with
      | none => rfl
      | some y =>
          rw [hb] at h
          exact congrArg (!·) h
  | some x =>
      rw [ha] at h
      cases hb : b.eventStreamOrdering with
      | none =>
          rw [hb] at h
          exact (Bool.not_eq_eq_eq_not.1 h)
      | some y =>
          rw [hb] at h
          have h : y < x := of_decide_eq_true h
          exact decide_eq_false (Int.not_lt.2 (Int.le_of_lt h))

theorem not_before_trans {a b c : Receipt} (hab : a.before nullsFirst b = false)
    (hbc : b.before nullsFirst c = false) : a.before nullsFirst c = false := by
  unfold Receipt.before at hab hbc ⊢
  cases ha : a.eventStreamOrdering <;> cases hb : b.eventStreamOrdering <;>
    cases hc : c.eventStreamOrdering <;> rw [ha, hb] at hab <;> rw [hb, hc] at hbc <;>
    simp_all
  omega

/-- The first row is one of the rows, and none stands before it. -/
theorem firstRow_spec : ∀ {rows : List Receipt} {r : Receipt}, firstRow nullsFirst rows = some r →
    r ∈ rows ∧ ∀ r' ∈ rows, r'.before nullsFirst r = false
  | [], _, h => by cases h
  | x :: rows, r, h => by
      have hself : ∀ y : Receipt, y.before nullsFirst y = false := fun y => by
        by_contra hy
        have hy := Bool.eq_true_of_not_eq_false hy
        exact Bool.false_ne_true ((before_asymm hy).symm.trans hy)
      unfold firstRow at h
      cases hrest : firstRow nullsFirst rows with
      | none =>
          rw [hrest] at h
          obtain rfl := Option.some.inj h
          have hnil : rows = [] := by
            cases rows with
            | nil => rfl
            | cons y rows =>
                unfold firstRow at hrest
                split at hrest <;> cases hrest
          subst hnil
          refine ⟨List.mem_cons_self, fun r' hr' => ?_⟩
          obtain rfl := List.mem_singleton.1 hr'
          exact hself _
      | some y =>
          obtain ⟨hmem, hfirst⟩ := firstRow_spec hrest
          rw [hrest] at h
          obtain rfl := Option.some.inj h
          by_cases hy : y.before nullsFirst x = true
          · rw [if_pos hy]
            refine ⟨List.mem_cons_of_mem _ hmem, fun r' hr' => ?_⟩
            rcases List.mem_cons.1 hr' with rfl | hr'
            · exact before_asymm hy
            · exact hfirst r' hr'
          · rw [if_neg hy]
            refine ⟨List.mem_cons_self, fun r' hr' => ?_⟩
            rcases List.mem_cons.1 hr' with rfl | hr'
            · exact hself _
            · exact not_before_trans (hfirst r' hr') (Bool.eq_false_of_not_eq_true hy)

/-- What the recheck takes for read is read: a receipt without a stream ordering never
counts, wherever the database sorts it. -/
theorem lastReceipt_of_read {ordering : ℤ} (h : isReadWithinGrace
    ((getLastUnthreadedReceiptForUser nullsFirst table user room).bind Prod.snd) ordering = true) :
    ∃ o, LastReceipt table user room o ∧ ordering ≤ o := by
  unfold getLastUnthreadedReceiptForUser at h
  cases hrow : firstRow nullsFirst (table.filter (Receipt.selected user room)) with
  | none =>
      rw [hrow] at h
      cases h
  | some r =>
      obtain ⟨hmem, hfirst⟩ := firstRow_spec hrow
      obtain ⟨hr, hsel⟩ := List.mem_filter.1 hmem
      rw [hrow] at h
      cases ho : r.eventStreamOrdering with
      | none =>
          have h : isReadWithinGrace r.eventStreamOrdering ordering = true := h
          rw [ho] at h
          cases h
      | some o =>
          have h : isReadWithinGrace r.eventStreamOrdering ordering = true := h
          rw [ho] at h
          refine ⟨o, ⟨⟨r, hr, hsel, ho⟩, fun r' hr' hsel' o' ho' => ?_⟩, of_decide_eq_true h⟩
          have hnot := hfirst r' (List.mem_filter.2 ⟨hr', hsel'⟩)
          unfold Receipt.before at hnot
          rw [ho, ho'] at hnot
          exact Int.not_lt.1 (of_decide_eq_false hnot)

/-- Every push skipped so far was read. -/
def SkippedRead (cfg : Config) (skips : List Skip) : Prop :=
  ∀ s ∈ skips, ∃ o, LastReceipt s.receipts cfg.userId s.roomId o ∧ s.streamOrdering ≤ o

theorem stable_skippedRead (cfg : Config) (env : Env) :
    Stable cfg env fun w => SkippedRead cfg w.log.skips where
  pass _ h := h
  jitter _ _ _ h := h
  pusher w w' _ _ _ _ hskips h := by rwa [hskips]
  check _ _ _ _ _ _ h := h
  sleep _ _ _ _ _ _ h := h
  skip w table room ordering hread h := by
    intro s hs
    rcases List.mem_append.1 hs with hs | hs
    · exact h s hs
    · obtain rfl := List.mem_singleton.1 hs
      exact lastReceipt_of_read hread

end Receipts

/-! ### The guarantee -/

/-- The grace sleeps of a batch add up to one grace at most, and only read pushes are
skipped. -/
structure GraceBounded (cfg : Config) (log : Log) : Prop where
  bounded : log.graceSleeps.sum ≤ cfg.graceMs
  read : SkippedRead cfg log.skips

/-- **When is a batch held for one grace at most?**  When no event is stamped later than
the start of the batch and the time spent until its check on anything but grace sleeps. -/
theorem graceBounded_iff (cfg : Config) (env : Env) (w : World) :
    GraceBounded cfg (batchLog cfg env w) ↔
      0 ≤ cfg.graceMs ∧
        ∀ c ∈ (batchLog cfg env w).checks, c.originServerTs ≤ w.now + c.other := by
  have hread : SkippedRead cfg (batchLog cfg env w).skips :=
    (stable_skippedRead cfg env).unsafeProcess _ (by simp [SkippedRead])
  have hsum := sum_le_iff cfg env w cfg.graceMs
  constructor
  · intro h
    obtain ⟨hgrace, hchecks⟩ := hsum.1 h.bounded
    exact ⟨hgrace, fun c hc => by have := hchecks c hc; omega⟩
  · rintro ⟨hgrace, hchecks⟩
    exact ⟨hsum.2 ⟨hgrace, fun c hc => by have := hchecks c hc; omega⟩, hread⟩

/-! ### A timestamp in the future -/

/-- A grace of three seconds, without jitter. -/
def threeSeconds : Config := ⟨none, some 3000, "@user:a", "key", true⟩

/-- A remote event stamped an hour ahead of the homeserver, and one of the present behind
it; every answer comes at once, and the gateway accepts both pushes. -/
def hourAhead : Env where
  elapse _ := 0
  raises _ := false
  unprocessed _ := [⟨"$ahead", "!r", 11, [.str "notify"]⟩, ⟨"$now", "!s", 12, [.str "notify"]⟩]
  badge _ := 1
  event _ id := some (if id = py "$ahead" then ⟨"!r", 3600000⟩ else ⟨"!s", 0⟩)
  draw _ := 0
  receipts _ := []
  rejected _ := .arr []
  pusherStillExists _ := true

/-- The pusher of that user. -/
def idle : World := ⟨0, 0, 10, none, 1, none, ⟨0, [], [], [], []⟩⟩

/-- **The event that is ahead holds the batch** for an hour and a grace. -/
theorem hourAhead_sleeps :
    (batchLog threeSeconds hourAhead idle).graceSleeps = [3603000] ∧
      ¬GraceBounded threeSeconds (batchLog threeSeconds hourAhead idle) := by
  have hsleeps : (batchLog threeSeconds hourAhead idle).graceSleeps = [3603000] := by decide
  refine ⟨hsleeps, fun h => ?_⟩
  have hbounded := h.bounded
  rw [hsleeps] at hbounded
  exact absurd hbounded (by decide)

end ReadGrace
end Push
end Liza
