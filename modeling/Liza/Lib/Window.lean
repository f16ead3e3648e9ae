/-
# Sliding windows

A limiter lets a caller through while fewer than `limit` of the moments at which it was let through
lie in the window that ends now.  A window is known by its beginning, which it excludes: the one that
ends at `now` begins at `start now`, and `recent start now l` is what of `l` lies in it.
`Granted limit start l` says that every moment of `l` was let through in this way.

Then no more than `limit` moments of `l` lie close together, wherever they are
(`Granted.countP_le`): in no window (`Granted.window`), and where the windows have a length of their
own, in no half-open interval of it (`Granted.ico`, `Granted.ioc`).  A limiter may forget what has
left the window, as long as the clock does not go back (`recent_recent`).
-/

import Mathlib.Algebra.Order.Group.Defs
import Mathlib.Algebra.Order.Sub.Basic
import Mathlib.Algebra.Order.Group.Unbundled.Basic
import Mathlib.Data.List.Basic

set_option autoImplicit false

namespace Liza
namespace Lib

variable {τ : Type*} [LinearOrder τ] {limit : ℕ} {start : τ → τ} {now later a : τ} {l : List τ}

/-- The moments in the window that ends now. -/
def recent (start : τ → τ) (now : τ) (l : List τ) : List τ := l.filter fun t => start now < t

@[simp]
theorem recent_append (start : τ → τ) (now : τ) (l m : List τ) :
    recent start now (l ++ m) = recent start now l ++ recent start now m := List.filter_append _ _

/-- Every moment was let through while fewer than `limit` were in its window. -/
inductive Granted (limit : ℕ) (start : τ → τ) : List τ → Prop
  | nil : Granted limit start []
  | snoc {l : List τ} {now : τ} (h : Granted limit start l)
      (hroom : (recent start now l).length < limit) : Granted limit start (l ++ [now])

/-- **No more than `limit` moments lie close together.** -/
theorem Granted.countP_le (h : Granted limit start l) (p : τ → Bool)
    (hclose : ∀ s ∈ l, ∀ t ∈ l, p s = true → p t = true → start t < s) : l.countP p ≤ limit := by
  induction h with
  | nil => exact Nat.zero_le _
  | @snoc l now _ hroom ih =>
      rw [List.countP_append, List.countP_singleton]
      split
      · rename_i hnow
        -- what is close to the last moment was in its window
        have hwindow : l.countP p ≤ (recent start now l).length := by
          rw [recent, ← List.countP_eq_length_filter]
          exact List.countP_mono_left fun t ht hp => decide_eq_true (hclose t
            (List.mem_append_left _ ht) now (List.mem_append_right _ (List.mem_singleton_self _))
            hp hnow)
        omega
      · exact ih fun s hs t ht =>
          hclose s (List.mem_append_left _ hs) t (List.mem_append_left _ ht)

/-- **What has left the window does not come back.** -/
theorem recent_recent (hstart : Monotone start) (h : now ≤ later) :
    recent start later (recent start now l) = recent start later l := by
  rw [recent, recent, List.filter_filter]
  refine List.filter_congr fun t _ => ?_
  rw [Bool.and_eq_left_iff_imp, decide_eq_true_eq, decide_eq_true_eq]
  exact fun ht => lt_of_le_of_lt (hstart h) ht

/-- In the window that ends at some moment. -/
theorem Granted.window (h : Granted limit start l) (hstart : Monotone start) (now : τ) :
    l.countP (fun t => decide (start now < t ∧ t ≤ now)) ≤ limit := by
  refine h.countP_le _ fun s _ t _ hs ht => ?_
  rw [decide_eq_true_eq] at hs ht
  exact lt_of_le_of_lt (hstart ht.2) hs.1

/-- Nor in the window that ends now. -/
theorem Granted.recent_le (h : Granted limit start l) (hstart : Monotone start)
    (hclock : ∀ t ∈ l, t ≤ now) : (recent start now l).length ≤ limit := by
  refine le_of_eq_of_le ?_ (h.window hstart now)
  rw [recent, ← List.countP_eq_length_filter]
  refine List.countP_congr fun t ht => ?_
  rw [decide_eq_true_eq, decide_eq_true_eq]
  exact (and_iff_left (hclock t ht)).symm

section Length

variable [AddCommGroup τ] [IsOrderedAddMonoid τ] {w : τ}

theorem Granted.ico (h : Granted limit start l) (hw : ∀ t ∈ l, start t = t - w) (a : τ) :
    l.countP (fun t => decide (a ≤ t ∧ t < a + w)) ≤ limit := by
  refine h.countP_le _ fun s _ t ht hs hp => ?_
  rw [decide_eq_true_eq] at hs hp
  rw [hw t ht]
  exact lt_of_lt_of_le (sub_lt_iff_lt_add.2 hp.2) hs.1

theorem Granted.ioc (h : Granted limit start l) (hw : ∀ t ∈ l, start t = t - w) (a : τ) :
    l.countP (fun t => decide (a < t ∧ t ≤ a + w)) ≤ limit := by
  refine h.countP_le _ fun s _ t ht hs hp => ?_
  rw [decide_eq_true_eq] at hs hp
  rw [hw t ht]
  exact lt_of_le_of_lt (sub_le_iff_le_add.2 hp.2) hs.1

end Length

end Lib
end Liza
