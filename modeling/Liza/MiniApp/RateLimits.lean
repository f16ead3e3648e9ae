/-
# Calls that are limited

`RateLimiter` of `servers/synapse/modules/miniapp/_stores.py`.  As for the nonces, the clock is
outside, so a call carries its moment.

The limiter keeps, for each user, the moments of the calls it accepted, and forgets those that have
left the window whenever the user calls again.  A limiter that forgets nothing would accept the
same calls (`Remembers.check`), and its moments are `Granted` in the sense of `Liza.Lib.Window`.

Moments are doubles, and the beginning of a window is rounded.  So a moment that lies just within
the window may be forgotten; in windows that begin where the code computes that they begin, and in
all windows if no such beginning has to be rounded, no call too many is accepted
(`check_sliding_window`).
-/

import Liza.Lib.Assoc
import Liza.Lib.PyStr
import Liza.Lib.Rounding
import Liza.Lib.Window
import Mathlib.Algebra.Order.Ring.Rat

set_option autoImplicit false

namespace Liza
namespace MiniApp

open Lib

/-- `RateLimiter`. -/
structure RateLimiter where
  max : ℕ
  window : ℚ
  hits : Assoc PyStr (List ℚ)
deriving DecidableEq

/-- A call of `check` at a moment, and its answer. -/
structure RateUse where
  now : ℚ
  user : PyStr
  accepted : Bool
deriving DecidableEq

/-- The beginning of the window that ends now. -/
def cutoff (R : Rounding) (window now : ℚ) : ℚ := R.round (now - window)

namespace RateLimiter

variable (R : Rounding)

/-- `RateLimiter.__init__`. -/
def init (max : ℕ) (window : ℚ) : RateLimiter := ⟨max, window, []⟩

/-- `self._hits.get(user_id, [])`. -/
def hitsOf (s : RateLimiter) (user : PyStr) : List ℚ := (s.hits.get? user).getD []

/-- `RateLimiter.check`. -/
def check (s : RateLimiter) (user : PyStr) (now : ℚ) : Bool × RateLimiter :=
  let cutoff := cutoff R s.window now
  let hits := (s.hitsOf user).filter fun t => t > cutoff
  if hits.length ≥ s.max then (false, { s with hits := s.hits.set user hits })
  else (true, { s with hits := s.hits.set user (hits ++ [now]) })

/-- The calls one after the other, with their answers. -/
def run (s : RateLimiter) : List (ℚ × PyStr) → List RateUse
  | [] => []
  | (now, user) :: rest =>
      ⟨now, user, (s.check R user now).1⟩ :: (s.check R user now).2.run rest

end RateLimiter

/-- The moments at which the calls of a user were accepted. -/
def acceptedMoments (user : PyStr) (uses : List RateUse) : List ℚ :=
  (uses.filter fun u => u.user = user && u.accepted).map RateUse.now

/-! ### The window -/

theorem cutoff_mono (R : Rounding) (window : ℚ) : Monotone (cutoff R window) :=
  fun _ _ h => R.monotone (sub_le_sub_right h window)

/-- A window of whole seconds begins where it should, wherever the doubles are the multiples of one
`2 ^ -n`. -/
theorem cutoff_grid (n window : ℕ) (m : ℤ) :
    cutoff (.grid n) window (m / 2 ^ n) = m / 2 ^ n - window := by
  have hpos : (2 : ℚ) ^ n ≠ 0 := by positivity
  have hwhole : ((m : ℚ) / 2 ^ n - window) * 2 ^ n = ((m - window * 2 ^ n : ℤ) : ℚ) := by
    rw [sub_mul, div_mul_cancel₀ _ hpos]
    push_cast
    rfl
  have hfloor : ⌊((m : ℚ) / 2 ^ n - window) * 2 ^ n + 1 / 2⌋ = m - window * 2 ^ n := by
    rw [hwhole, Int.floor_intCast_add]
    norm_num
  rw [cutoff, Rounding.grid_round, hfloor, eq_div_of_mul_eq hpos hwhole]

/-! ### One call -/

section Calls

variable {R : Rounding} {s s' : RateLimiter} {user other : PyStr} {now : ℚ}

@[simp]
theorem check_max (R : Rounding) (s : RateLimiter) (user : PyStr) (now : ℚ) :
    (s.check R user now).2.max = s.max := by
  unfold RateLimiter.check
  dsimp only
  split <;> rfl

@[simp]
theorem check_window (R : Rounding) (s : RateLimiter) (user : PyStr) (now : ℚ) :
    (s.check R user now).2.window = s.window := by
  unfold RateLimiter.check
  dsimp only
  split <;> rfl

/-- A call is accepted while there is room in the window. -/
theorem check_answer (R : Rounding) (s : RateLimiter) (user : PyStr) (now : ℚ) :
    (s.check R user now).1 = true ↔
      (recent (cutoff R s.window) now (s.hitsOf user)).length < s.max := by
  unfold RateLimiter.check
  dsimp only
  split
  · rename_i hfull
    exact iff_of_false Bool.false_ne_true (Nat.not_lt.2 hfull)
  · rename_i hroom
    exact iff_of_true rfl (Nat.not_le.1 hroom)

/-- What is in the window is kept, and the moment of a call that is accepted is added. -/
theorem hitsOf_check (R : Rounding) (s : RateLimiter) (user : PyStr) (now : ℚ) :
    (s.check R user now).2.hitsOf user = recent (cutoff R s.window) now (s.hitsOf user) ++
      if (s.check R user now).1 then [now] else [] := by
  unfold RateLimiter.check
  dsimp only
  split
  · exact (congrArg (Option.getD · []) (Assoc.get?_set_self _ _ _)).trans (List.append_nil _).symm
  · exact congrArg (Option.getD · []) (Assoc.get?_set_self _ _ _)

/-- The other users keep their moments. -/
theorem hitsOf_check_of_ne (h : other ≠ user) :
    (s.check R user now).2.hitsOf other = s.hitsOf other := by
  unfold RateLimiter.check
  dsimp only
  split
  · exact congrArg (Option.getD · []) (Assoc.get?_set_of_ne _ _ h)
  · exact congrArg (Option.getD · []) (Assoc.get?_set_of_ne _ _ h)

/-- The answer is a matter of the limiter's bounds and of the user's own moments. -/
theorem check_congr (hmax : s.max = s'.max) (hwindow : s.window = s'.window)
    (hhits : s.hitsOf user = s'.hitsOf user) :
    (s.check R user now).1 = (s'.check R user now).1 := by
  rw [Bool.eq_iff_iff, check_answer, check_answer, hmax, hwindow, hhits]

end Calls

/-! ### A run -/

section Runs

variable {R : Rounding} {s s' : RateLimiter} {user : PyStr} {now : ℚ} {past : List RateUse}

theorem acceptedMoments_append (user : PyStr) (a b : List RateUse) :
    acceptedMoments user (a ++ b) = acceptedMoments user a ++ acceptedMoments user b := by
  rw [acceptedMoments, List.filter_append, List.map_append]
  rfl

theorem acceptedMoments_single (user : PyStr) (u : RateUse) :
    acceptedMoments user [u] = if u.user = user ∧ u.accepted = true then [u.now] else [] := by
  by_cases h : u.user = user ∧ u.accepted = true
  · rw [if_pos h, acceptedMoments, List.filter_cons_of_pos (by simpa using h)]
    rfl
  · rw [if_neg h, acceptedMoments, List.filter_cons_of_neg (by simpa using h)]
    rfl

theorem mem_acceptedMoments {t : ℚ} {uses : List RateUse} (h : t ∈ acceptedMoments user uses) :
    ∃ u ∈ uses, u.now = t := by
  obtain ⟨u, hu, rfl⟩ := List.mem_map.1 h
  exact ⟨u, (List.mem_filter.1 hu).1, rfl⟩

/-- The limiter, after the uses of `past`, none of which is later than `clock`, has the same
moments in every later window as the uses have. -/
structure Remembers (R : Rounding) (s : RateLimiter) (past : List RateUse) (clock : ℚ) : Prop where
  before : ∀ u ∈ past, u.now ≤ clock
  granted : ∀ user, Granted s.max (cutoff R s.window) (acceptedMoments user past)
  hits : ∀ user now, clock ≤ now →
    recent (cutoff R s.window) now (s.hitsOf user) =
      recent (cutoff R s.window) now (acceptedMoments user past)

theorem Remembers.init (max : ℕ) (window clock : ℚ) :
    Remembers R (RateLimiter.init max window) [] clock where
  before := fun _ h => by cases h
  granted := fun _ => .nil
  hits := fun _ _ _ => rfl

/-- **What one call does to what is remembered.** -/
theorem Remembers.check {clock : ℚ} (h : Remembers R s past clock) (hclock : clock ≤ now)
    (user : PyStr) :
    Remembers R (s.check R user now).2 (past ++ [⟨now, user, (s.check R user now).1⟩]) now where
  before := fun u hu => by
    rcases List.mem_append.1 hu with hu | hu
    · exact (h.before u hu).trans hclock
    · rw [List.mem_singleton.1 hu]
  granted := fun other => by
    rw [check_max, check_window, acceptedMoments_append, acceptedMoments_single]
    dsimp only
    split
    · rename_i haccepted
      obtain ⟨rfl, hyes⟩ := haccepted
      refine (h.granted user).snoc ?_
      rw [← h.hits user now hclock]
      exact (check_answer R s user now).1 hyes
    · rw [List.append_nil]
      exact h.granted other
  hits := fun other later hlater => by
    rw [check_window, acceptedMoments_append, acceptedMoments_single, recent_append,
      ← h.hits other later (hclock.trans hlater)]
    by_cases hsame : other = user
    · subst hsame
      rw [hitsOf_check, recent_append, recent_recent (cutoff_mono R s.window) hlater]
      simp only [true_and]
    · rw [hitsOf_check_of_ne hsame, if_neg fun heq => hsame heq.1.symm]
      exact (List.append_nil _).symm

theorem Remembers.later {clock later : ℚ} (h : Remembers R s past clock) (hle : clock ≤ later) :
    Remembers R s past later where
  before := fun u hu => (h.before u hu).trans hle
  granted := h.granted
  hits := fun user now hnow => h.hits user now (hle.trans hnow)

/-- A run of calls: where the limiter stands when it gets to one of them, and after the last. -/
theorem Remembers.run {clock : ℚ} {calls : List (ℚ × PyStr)} (h : Remembers R s past clock)
    (hclock : (clock :: calls.map Prod.fst).Pairwise (· ≤ ·)) :
    (∃ t later, t.max = s.max ∧ t.window = s.window ∧ Remembers R t (past ++ s.run R calls) later) ∧
      ∀ before u after, s.run R calls = before ++ u :: after →
        ∃ t, t.max = s.max ∧ t.window = s.window ∧ Remembers R t (past ++ before) u.now ∧
          u.accepted = (t.check R u.user u.now).1 := by
  induction calls generalizing s past clock with
  | nil =>
      refine ⟨⟨s, clock, rfl, rfl, ?_⟩, fun before u after hrun => ?_⟩
      · rw [RateLimiter.run, List.append_nil]
        exact h
      · exact absurd hrun.symm (List.append_ne_nil_of_right_ne_nil _ (List.cons_ne_nil _ _))
  | cons c calls ih =>
      obtain ⟨now, user⟩ := c
      obtain ⟨hle, hrest⟩ := List.pairwise_cons.1 hclock
      have hnow : clock ≤ now := hle now List.mem_cons_self
      obtain ⟨hend, hmiddle⟩ := ih (h.check hnow user) hrest
      rw [check_max, check_window, List.append_assoc] at hend
      refine ⟨hend, fun before u after hrun => ?_⟩
      cases before with
      | nil =>
          obtain ⟨rfl, -⟩ := List.cons.inj hrun
          refine ⟨s, rfl, rfl, ?_, rfl⟩
          rw [List.append_nil]
          exact h.later hnow
      | cons v before =>
          obtain ⟨rfl, hlater⟩ := List.cons.inj hrun
          obtain ⟨t, hmax, hwindow, ht, haccepted⟩ := hmiddle before u after hlater
          rw [check_max] at hmax
          rw [check_window] at hwindow
          rw [List.append_assoc] at ht
          exact ⟨t, hmax, hwindow, ht, haccepted⟩

/-- A call is refused when the window that ends with it is full. -/
theorem Remembers.refused (h : Remembers R s past now) (user : PyStr) :
    (s.check R user now).1 = false ↔ (acceptedMoments user past).countP
      (fun t => decide (cutoff R s.window now < t ∧ t ≤ now)) = s.max := by
  have hclock : ∀ t ∈ acceptedMoments user past, t ≤ now := fun t ht => by
    obtain ⟨u, hu, rfl⟩ := mem_acceptedMoments ht
    exact h.before u hu
  have hcount : (acceptedMoments user past).countP
      (fun t => decide (cutoff R s.window now < t ∧ t ≤ now)) =
        (recent (cutoff R s.window) now (acceptedMoments user past)).length := by
    rw [recent, ← List.countP_eq_length_filter]
    refine List.countP_congr fun t ht => ?_
    rw [decide_eq_true_eq, decide_eq_true_eq]
    exact and_iff_left (hclock t ht)
  have hmax := (h.granted user).recent_le (cutoff_mono R s.window) hclock
  rw [hcount, ← Bool.not_eq_true, check_answer, h.hits user now le_rfl]
  omega

/-- The calls of one user are answered as if there were no others. -/
theorem run_filter (user : PyStr) (calls : List (ℚ × PyStr)) (hmax : s.max = s'.max)
    (hwindow : s.window = s'.window) (hhits : s.hitsOf user = s'.hitsOf user) :
    (s.run R calls).filter (fun u => u.user = user) =
      s'.run R (calls.filter fun c => c.2 = user) := by
  induction calls generalizing s s' with
  | nil => rfl
  | cons c calls ih =>
      obtain ⟨now, caller⟩ := c
      rw [RateLimiter.run]
      by_cases hsame : caller = user
      · subst hsame
        have hanswer : (s.check R caller now).1 = (s'.check R caller now).1 :=
          check_congr hmax hwindow hhits
        rw [List.filter_cons_of_pos (by simp), List.filter_cons_of_pos (by simp), RateLimiter.run,
          hanswer]
        refine congrArg _ (ih ?_ ?_ ?_)
        · rw [check_max, check_max, hmax]
        · rw [check_window, check_window, hwindow]
        · rw [hitsOf_check, hitsOf_check, hanswer, hhits, hwindow]
      · rw [List.filter_cons_of_neg (by simpa using hsame),
          List.filter_cons_of_neg (by simpa using hsame)]
        refine ih ?_ ?_ ?_
        · rw [check_max, hmax]
        · rw [check_window, hwindow]
        · rw [hitsOf_check_of_ne (Ne.symm hsame), hhits]

/-- The uses of a run are its calls. -/
theorem run_now (s : RateLimiter) (calls : List (ℚ × PyStr)) :
    (s.run R calls).map RateUse.now = calls.map Prod.fst := by
  induction calls generalizing s with
  | nil => rfl
  | cons c calls ih => exact congrArg (c.1 :: ·) (ih _)

theorem acceptedMoments_run {calls : List (ℚ × PyStr)} {t : ℚ}
    (h : t ∈ acceptedMoments user (s.run R calls)) : ∃ c ∈ calls, c.1 = t := by
  obtain ⟨u, hu, rfl⟩ := mem_acceptedMoments h
  rw [← List.mem_map, ← run_now s calls]
  exact List.mem_map_of_mem hu

/-- **The limiter is a sliding window.**  Whatever calls are made, as long as the clock does not go
back: in no window, as it is computed, more than `max` calls of a user are accepted; a call is
refused exactly when `max` calls of its user were accepted in the window that ends with it, as it is
computed, so at least so many in the whole of it; and the calls of a user are answered as if there
were no others.  If the beginning of no window has to be rounded, then no half-open interval of the
length of the window holds more than `max` accepted calls of a user, and a call is refused exactly
when the interval that ends with it holds so many. -/
theorem check_sliding_window (R : Rounding) (max : ℕ) (window : ℚ) (calls : List (ℚ × PyStr))
    (hdouble : ∀ c ∈ calls, R.round c.1 = c.1) (hclock : (calls.map Prod.fst).Pairwise (· ≤ ·)) :
    (∀ user b,
      (acceptedMoments user ((RateLimiter.init max window).run R calls)).countP
        (fun t => decide (R.round (b - window) < t ∧ t ≤ b)) ≤ max) ∧
    (∀ before u after, (RateLimiter.init max window).run R calls = before ++ u :: after →
      (u.accepted = false ↔ (acceptedMoments u.user before).countP
        (fun t => decide (R.round (u.now - window) < t ∧ t ≤ u.now)) = max) ∧
      (u.accepted = false → max ≤ (acceptedMoments u.user before).countP
        (fun t => decide (u.now - window < t ∧ t ≤ u.now)))) ∧
    (∀ user, ((RateLimiter.init max window).run R calls).filter (fun u => u.user = user) =
      (RateLimiter.init max window).run R (calls.filter fun c => c.2 = user)) ∧
    ((∀ c ∈ calls, R.round (c.1 - window) = c.1 - window) →
      (∀ user a,
        (acceptedMoments user ((RateLimiter.init max window).run R calls)).countP
          (fun t => decide (a ≤ t ∧ t < a + window)) ≤ max ∧
        (acceptedMoments user ((RateLimiter.init max window).run R calls)).countP
          (fun t => decide (a < t ∧ t ≤ a + window)) ≤ max) ∧
      ∀ before u after, (RateLimiter.init max window).run R calls = before ++ u :: after →
        (u.accepted = false ↔ (acceptedMoments u.user before).countP
          (fun t => decide (u.now - window < t ∧ t ≤ u.now)) = max)) := by
  obtain ⟨clock, hstart⟩ : ∃ clock, (clock :: calls.map Prod.fst).Pairwise (· ≤ ·) := by
    cases calls with
    | nil => exact ⟨0, List.pairwise_singleton _ _⟩
    | cons c calls =>
        refine ⟨c.1, List.pairwise_cons.2 ⟨fun t ht => ?_, hclock⟩⟩
        rcases List.mem_cons.1 ht with rfl | ht
        · exact le_rfl
        · exact (List.pairwise_cons.1 hclock).1 t ht
  obtain ⟨⟨t, later, hmax, hwindow, hend⟩, hmiddle⟩ :=
    (Remembers.init (R := R) max window clock).run hstart
  have hgranted : ∀ user, Granted max (cutoff R window)
      (acceptedMoments user ((RateLimiter.init max window).run R calls)) := fun user => by
    have h := hend.granted user
    rw [hmax, hwindow] at h
    exact h
  -- what the limiter answers, by the window as it computes it
  have hanswer : ∀ before u after,
      (RateLimiter.init max window).run R calls = before ++ u :: after →
        (u.accepted = false ↔ (acceptedMoments u.user before).countP
          (fun t => decide (R.round (u.now - window) < t ∧ t ≤ u.now)) = max) := by
    intro before u after hrun
    obtain ⟨t, hmax, hwindow, ht, haccepted⟩ := hmiddle before u after hrun
    have hrefused := ht.refused u.user
    rw [hmax, hwindow] at hrefused
    rw [haccepted]
    exact hrefused
  have hcall : ∀ before u after,
      (RateLimiter.init max window).run R calls = before ++ u :: after →
        ∃ c ∈ calls, c.1 = u.now := by
    intro before u after hrun
    rw [← List.mem_map, ← run_now (RateLimiter.init max window) calls (R := R), hrun]
    simp
  refine ⟨fun user b => (hgranted user).window (cutoff_mono R window) b, ?_,
    fun user => run_filter user calls rfl rfl rfl, fun hexact => ⟨fun user a => ?_, ?_⟩⟩
  · refine fun before u after hrun => ⟨hanswer before u after hrun, fun hno => ?_⟩
    -- a moment that is before the window is not after its rounded beginning
    rw [← (hanswer before u after hrun).1 hno]
    refine List.countP_mono_left fun t ht hin => ?_
    rw [decide_eq_true_eq] at hin ⊢
    refine ⟨lt_of_not_ge fun hle => ?_, hin.2⟩
    obtain ⟨c, hc, rfl⟩ : ∃ c ∈ calls, c.1 = t := by
      have hmem : t ∈ acceptedMoments u.user ((RateLimiter.init max window).run R calls) := by
        rw [hrun, acceptedMoments_append]
        exact List.mem_append_left _ ht
      exact acceptedMoments_run hmem
    exact absurd hin.1 (not_lt.2 ((hdouble c hc).ge.trans (R.monotone hle)))
  · have hstart : ∀ t ∈ acceptedMoments user ((RateLimiter.init max window).run R calls),
        cutoff R window t = t - window := fun t ht => by
      obtain ⟨c, hc, rfl⟩ := acceptedMoments_run ht
      exact hexact c hc
    exact ⟨(hgranted user).ico hstart a, (hgranted user).ioc hstart a⟩
  · intro before u after hrun
    obtain ⟨c, hc, hnow⟩ := hcall before u after hrun
    have := hanswer before u after hrun
    rwa [← hnow, hexact c hc, hnow] at this

/-- Two calls a minute: the call at `59` is refused because of those at `0` and `30`, and at `60` the
one at `0` is outside the window. -/
theorem check_sliding_window_minute :
    (acceptedMoments (py "@a:h")
      [⟨0, py "@a:h", true⟩, ⟨1, py "@b:h", true⟩, ⟨30, py "@a:h", true⟩]).countP
        (fun t => decide ((59 : ℚ) - 60 < t ∧ t ≤ 59)) = 2 :=
  (((check_sliding_window (.grid 22) 2 60 [(0, py "@a:h"), (1, py "@b:h"), (30, py "@a:h"),
    (59, py "@a:h"), (60, py "@a:h")] (by decide +kernel) (by decide)).2.2.2 (by decide +kernel)).2
      [⟨0, py "@a:h", true⟩, ⟨1, py "@b:h", true⟩, ⟨30, py "@a:h", true⟩]
      ⟨59, py "@a:h", false⟩ [⟨60, py "@a:h", true⟩] (by decide +kernel)).1 rfl

/-- The moments are the doubles 1700000134.2642443 and 1700000134.3642442, among which the doubles
are the multiples of `2 ^ -22`, and the window is the double 0.1.  The second call comes within the
window, whose beginning is rounded to the moment of the first one. -/
theorem window_too_full :
    ¬((acceptedMoments (py "@a:h")
      ((RateLimiter.init 1 (3602879701896397 / 36028797018963968)).run (.grid 22)
        [(7130317363145057 / 4194304, py "@a:h"), (7130317363564487 / 4194304, py "@a:h")])).countP
          (fun t => decide ((7130317363564487 / 4194304 : ℚ) -
            3602879701896397 / 36028797018963968 < t ∧ t ≤ 7130317363564487 / 4194304)) ≤ 1) := by
  decide +kernel

end Runs

end MiniApp
end Liza
