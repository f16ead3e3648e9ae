/-
# What the breaker of an album counts

`AlbumSendSeries.run` opens its breaker by two numbers, the streak and the held bytes, and reports
each file once.  Three things are missed on the way.  The loop that sends the pending files again
counts their failures and does not end the streak when one of them succeeds or is refused; a file
that the user cancels while it waits for a resend that never comes is reported as failed; and the
bytes that the SDK holds of a refused file are not counted.

So the streak is right as long as no resend is answered behind a failed one, a cancelled file is
reported as such when the series asks about it once more, and the bytes stay below the limit as
long as no new file is begun after a refusal: `breakerCounts` has all three, over every run.
-/

import Liza.Client.AlbumNews

set_option autoImplicit false

namespace Liza
namespace Client
namespace Breaker

open Lib
open Lib.Task (Obeys Kept)

variable {P : Type}

/-! ### The invariant of the files -/

/-- What holds of the files between two of them. -/
structure FilesInv (S : AlbumSendSeries P) (h : List (SeriesDone P)) (v : SeriesVars P) : Prop where
  length : v.outcomes.length = S.count
  next_le : v.next ≤ S.count
  held : BegunUnrefused (news h) →
    sdkHeld S (news h) v.outcomes ≤ S.breakerHeldBytes + largest S (news h)
  told : ∀ j, j < v.next → (v.outcomes[j]? = some (some .cancelled) ↔ lastAnswer j h = true)
  fresh : ∀ j, v.next ≤ j → (∀ o, v.outcomes[j]? ≠ some (some o)) ∧ lostIn j (news h) = false
  prepared : ∀ e ∈ preparedFiles (news h), e.1 < v.next
  keyed : Assoc.Keyed (preparedFiles (news h))
  pending : ∀ e ∈ v.pendingRetry, e ∈ preparedFiles (news h) ∧ lostIn e.1 (news h) = true ∧
    v.outcomes[e.1]? = some (some .failedUpload)
  kept : ∀ e ∈ preparedFiles (news h), v.outcomes[e.1]? = some (some .failedUpload) →
    e ∈ v.pendingRetry ∨ anyRefused (news h) = true

section Files

variable {S : AlbumSendSeries P} {h h' : List (SeriesDone P)} {v : SeriesVars P} {i : ℕ} {p : P}
  {e : SendEnd}

/-- The news of an end changes nothing about what was prepared. -/
theorem preparedFiles_news (e : SendEnd) (i : ℕ) (n : List (News P)) :
    preparedFiles (e.news i n) = preparedFiles n := by
  cases e <;> rfl

theorem begunUnrefused_news (e : SendEnd) (i : ℕ) (n : List (News P)) :
    BegunUnrefused (e.news i n) ↔ BegunUnrefused n := by
  cases e <;> rfl

theorem lostIn_news {j : ℕ} (e : SendEnd) (n : List (News P)) (hj : j ≠ i) :
    lostIn j (e.news i n) = lostIn j n := by
  cases e with
  | lost =>
      change (decide (i = j) || lostIn j n) = lostIn j n
      rw [decide_eq_false (Ne.symm hj), Bool.false_or]
  | sent => rfl
  | cancelled => rfl
  | refused => rfl

theorem lostIn_of_news {j : ℕ} (e : SendEnd) (n : List (News P)) (hj : lostIn j n = true) :
    lostIn j (e.news i n) = true := by
  cases e with
  | lost =>
      change (decide (i = j) || lostIn j n) = true
      rw [hj, Bool.or_true]
  | sent => exact hj
  | cancelled => exact hj
  | refused => exact hj

theorem SendEnd.vars_outcomes (e : SendEnd) (i : ℕ) (p : P) (v : SeriesVars P) :
    (e.vars i p v).outcomes = v.outcomes.set i (some e.outcome) := by
  cases e <;> rfl

theorem SendEnd.vars_next (e : SendEnd) (i : ℕ) (p : P) (v : SeriesVars P) :
    (e.vars i p v).next = v.next := by
  cases e <;> rfl

theorem SendEnd.vars_streak (e : SendEnd) (i : ℕ) (p : P) (v : SeriesVars P) :
    (e.vars i p v).streak = v.streak := by
  cases e <;> rfl

/-- The pending files after an end: the others as before, and the file itself where it was lost. -/
theorem mem_pending_vars {x : ℕ × P} (hx : x ∈ (e.vars i p v).pendingRetry) :
    x ∈ v.pendingRetry ∧ (x.1 ≠ i ∨ e = .lost) ∨ x = (i, p) ∧ e = .lost := by
  cases e with
  | lost =>
      rcases Assoc.mem_set hx with hx | hx
      · exact .inr ⟨hx, rfl⟩
      · exact .inl ⟨hx, .inr rfl⟩
  | sent => exact .inl ((List.mem_filter.1 hx).imp id fun hne => .inl (of_decide_eq_true hne))
  | cancelled => exact .inl ((List.mem_filter.1 hx).imp id fun hne => .inl (of_decide_eq_true hne))
  | refused => exact .inl ((List.mem_filter.1 hx).imp id fun hne => .inl (of_decide_eq_true hne))

theorem pending_vars_of_ne {x : ℕ × P} (hx : x ∈ v.pendingRetry) (hne : x.1 ≠ i) :
    x ∈ (e.vars i p v).pendingRetry := by
  cases e with
  | lost => exact Assoc.mem_set_of_ne hx hne
  | sent => exact List.mem_filter.2 ⟨hx, decide_eq_true hne⟩
  | cancelled => exact List.mem_filter.2 ⟨hx, decide_eq_true hne⟩
  | refused => exact List.mem_filter.2 ⟨hx, decide_eq_true hne⟩

/-- What the SDK may hold is not exceeded, however a file ends. -/
theorem FilesInv.held_ends (hinv : FilesInv S h v)
    (hfail : BegunUnrefused (news h) → sdkHeld S (news h) (v.outcomes.set i (some .failedUpload)) ≤
      S.breakerHeldBytes + largest S (news h)) (e : SendEnd) (hbegun : BegunUnrefused (news h)) :
    sdkHeld S (news h) (e.vars i p v).outcomes ≤ S.breakerHeldBytes + largest S (news h) := by
  rw [e.vars_outcomes]
  cases e with
  | sent => exact (sdkHeld_set_le (by decide)).trans (hinv.held hbegun)
  | cancelled => exact (sdkHeld_set_le (by decide)).trans (hinv.held hbegun)
  | refused => exact hfail hbegun
  | lost => exact hfail hbegun

/-- **A file that was dealt with.** -/
theorem FilesInv.ends (hinv : FilesInv S h v) (hi : i < v.next)
    (hp : (i, p) ∈ preparedFiles (news h))
    (hfail : BegunUnrefused (news h) → sdkHeld S (news h) (v.outcomes.set i (some .failedUpload)) ≤
      S.breakerHeldBytes + largest S (news h)) (hends : Ends e i h h') :
    FilesInv S h' (e.vars i p v) := by
  have hlen : i < v.outcomes.length := hinv.length ▸ lt_of_lt_of_le hi hinv.next_le
  have hself : (e.vars i p v).outcomes[i]? = some (some e.outcome) := by
    rw [e.vars_outcomes]
    exact List.getElem?_set_self hlen
  have hothers : ∀ j, j ≠ i → (e.vars i p v).outcomes[j]? = v.outcomes[j]? := fun j hj => by
    rw [e.vars_outcomes]
    exact List.getElem?_set_ne (Ne.symm hj)
  have hprepared : preparedFiles (news h') = preparedFiles (news h) := by
    rw [hends.news, preparedFiles_news]
  constructor
  · rw [e.vars_outcomes, List.length_set]
    exact hinv.length
  · rw [e.vars_next]
    exact hinv.next_le
  · unfold sdkHeld largest
    rw [hprepared, hends.news, begunUnrefused_news]
    exact hinv.held_ends hfail e
  · intro j hj
    rw [e.vars_next] at hj
    by_cases hji : j = i
    · rw [hji, hself, hends.last]
      cases e <;> simp [SendEnd.outcome]
    · rw [hothers j hji, hends.other j hji]
      exact hinv.told j hj
  · intro j hj
    rw [e.vars_next] at hj
    have hji : j ≠ i := by omega
    rw [hothers j hji, hends.news, lostIn_news e _ hji]
    exact hinv.fresh j hj
  · rw [hprepared, e.vars_next]
    exact hinv.prepared
  · rw [hprepared]
    exact hinv.keyed
  · intro x hx
    rw [hprepared]
    rcases mem_pending_vars hx with ⟨hold, hx⟩ | ⟨rfl, rfl⟩
    · obtain ⟨hmem, hlost, hout⟩ := hinv.pending x hold
      refine ⟨hmem, hends.news ▸ lostIn_of_news e _ hlost, ?_⟩
      by_cases hxi : x.1 = i
      · obtain rfl : e = .lost := hx.resolve_left fun hne => hne hxi
        rw [hxi]
        exact hself
      · rw [hothers _ hxi]
        exact hout
    · refine ⟨hp, ?_, hself⟩
      rw [hends.news]
      change (decide (i = i) || _) = true
      rw [decide_eq_true rfl, Bool.true_or]
  · intro x hx hout
    rw [hprepared] at hx
    by_cases hxi : x.1 = i
    · rw [hxi, hself] at hout
      have hx : x = (i, p) := by
        have hget := hinv.keyed.get?_of_mem hx
        rw [hxi, hinv.keyed.get?_of_mem hp] at hget
        exact Prod.ext hxi (Option.some.inj hget).symm
      cases e with
      | sent => cases hout
      | cancelled => cases hout
      | refused =>
          rw [hends.news]
          exact .inr rfl
      | lost =>
          rw [hx]
          exact .inl (Assoc.mem_of_get? (Assoc.get?_set_self _ _ _))
    · rw [hothers _ hxi] at hout
      refine (hinv.kept x hx hout).imp (fun hx => pending_vars_of_ne hx hxi) fun hr => ?_
      rw [hends.news]
      cases e with
      | refused => rfl
      | sent => exact hr
      | cancelled => exact hr
      | lost => exact hr

end Files

/-! ### The loops -/

/-- The streak is right, as far as that can be. -/
def Counted (h : List (SeriesDone P)) (v : SeriesVars P) : Prop :=
  AnsweredAtZero (news h) → v.streak = networkStreak (news h)

section Loops

variable {S : AlbumSendSeries P} {h h' h₁ : List (SeriesDone P)} {v : SeriesVars P} {i : ℕ} {p : P}
  {e : SendEnd}

theorem FilesInv.toRight (hinv : FilesInv S h v) (hstreak : Counted h v) : Right S h v :=
  ⟨hstreak, hinv.held⟩

theorem Counted.of_news (hstreak : Counted h v) (hnews : news h' = news h) : Counted h' v := by
  unfold Counted
  rw [hnews]
  exact hstreak

/-- The invariant does not read the streak and the rounds. -/
theorem FilesInv.withCounters (hinv : FilesInv S h v) (streak rounds : ℕ) :
    FilesInv S h { v with streak := streak, rounds := rounds } :=
  ⟨hinv.length, hinv.next_le, hinv.held, hinv.told, hinv.fresh, hinv.prepared, hinv.keyed,
    hinv.pending, hinv.kept⟩

/-- Calls that tell no news, and ask about no file that has begun. -/
theorem FilesInv.quiet (hinv : FilesInv S h v) (hnews : news h' = news h)
    (hlast : ∀ j, j < v.next → lastAnswer j h' = lastAnswer j h) : FilesInv S h' v where
  length := hinv.length
  next_le := hinv.next_le
  held := hnews ▸ hinv.held
  told j hj := by
    rw [hlast j hj]
    exact hinv.told j hj
  fresh := hnews ▸ hinv.fresh
  prepared := hnews ▸ hinv.prepared
  keyed := hnews ▸ hinv.keyed
  pending := hnews ▸ hinv.pending
  kept := hnews ▸ hinv.kept

/-- The next file gets an outcome without an upload. -/
theorem FilesInv.settle {o : SeriesItemOutcome} (hinv : FilesInv S h v) (hlt : v.next < S.count)
    (ho : o ≠ .failedUpload)
    (hnews : news h' = news h ∨ news h' = .begun v.next none :: news h)
    (hlast : lastAnswer v.next h' = decide (o = .cancelled))
    (hother : ∀ j, j ≠ v.next → lastAnswer j h' = lastAnswer j h) :
    FilesInv S h' (SeriesVars.setOutcome { v with next := v.next + 1 } v.next o) := by
  have hprepared : preparedFiles (news h') = preparedFiles (news h) := by
    rcases hnews with hnews | hnews <;> rw [hnews]
    rfl
  have hlost : ∀ j, lostIn j (news h') = lostIn j (news h) := by
    intro j
    rcases hnews with hnews | hnews <;> rw [hnews]
    rfl
  have hrefused : anyRefused (news h') = anyRefused (news h) := by
    rcases hnews with hnews | hnews <;> rw [hnews]
    rfl
  have hbegun : BegunUnrefused (news h') → BegunUnrefused (news h) := by
    rcases hnews with hnews | hnews <;> rw [hnews]
    · exact id
    · exact fun hb => hb.1
  have hself : (v.outcomes.set v.next (some o))[v.next]? = some (some o) :=
    List.getElem?_set_self (hinv.length ▸ hlt)
  have hothers : ∀ j, j ≠ v.next → (v.outcomes.set v.next (some o))[j]? = v.outcomes[j]? :=
    fun j hj => List.getElem?_set_ne (Ne.symm hj)
  constructor
  · exact (List.length_set ..).trans hinv.length
  · exact hlt
  · intro hb
    have hle := hinv.held (hbegun hb)
    unfold sdkHeld largest at hle ⊢
    rw [hprepared]
    exact (sdkHeld_set_le (S := S) (n := news h) ho).trans hle
  · intro j hj
    change (v.outcomes.set v.next (some o))[j]? = _ ↔ _
    by_cases hjn : j = v.next
    · rw [hjn, hself, hlast]
      simp
    · rw [hothers j hjn, hother j hjn]
      exact hinv.told j (Nat.lt_of_le_of_ne (Nat.le_of_lt_succ hj) hjn)
  · intro j hj
    have hjn : j ≠ v.next := Nat.ne_of_gt hj
    change (∀ o', (v.outcomes.set v.next (some o))[j]? ≠ some (some o')) ∧ _
    rw [hothers j hjn, hlost]
    exact hinv.fresh j (Nat.le_of_lt hj)
  · rw [hprepared]
    exact fun x hx => Nat.lt_succ_of_lt (hinv.prepared x hx)
  · rw [hprepared]
    exact hinv.keyed
  · intro x hx
    obtain ⟨hmem, hxlost, hout⟩ := hinv.pending x hx
    rw [hprepared, hlost]
    refine ⟨hmem, hxlost, ?_⟩
    exact (hothers x.1 (Nat.ne_of_lt (hinv.prepared x hmem))).trans hout
  · intro x hx hout
    rw [hprepared] at hx
    rw [hrefused]
    refine hinv.kept x hx ?_
    exact (hothers x.1 (Nat.ne_of_lt (hinv.prepared x hx))).symm.trans hout

/-- The next file was prepared. -/
theorem FilesInv.begun (hinv : FilesInv S h v)
    (hlt : v.next < S.count) (hnews : news h' = .begun v.next (some p) :: news h)
    (hlast : lastAnswer v.next h' = false)
    (hother : ∀ j, j ≠ v.next → lastAnswer j h' = lastAnswer j h) :
    FilesInv S h' { v with next := v.next + 1 } := by
  have hout := (hinv.fresh v.next (le_refl _)).1 .failedUpload
  have hprepared : preparedFiles (news h') = (v.next, p) :: preparedFiles (news h) := by
    rw [hnews]
    rfl
  constructor
  · exact hinv.length
  · exact hlt
  · intro hb
    rw [hnews] at hb ⊢
    have hle := hinv.held hb.1
    have hsame : sdkHeld S (.begun v.next (some p) :: news h) v.outcomes =
        sdkHeld S (news h) v.outcomes := by
      unfold sdkHeld
      rw [preparedFiles, List.filter_cons_of_neg]
      exact fun hhead => hout (of_decide_eq_true hhead)
    rw [largest_begun]
    exact (hsame.le.trans hle).trans (Nat.add_le_add_left (le_max_right _ _) _)
  · intro j hj
    by_cases hjn : j = v.next
    · rw [hjn, hlast]
      exact iff_of_false ((hinv.fresh v.next (le_refl _)).1 .cancelled) Bool.false_ne_true
    · rw [hother j hjn]
      exact hinv.told j (Nat.lt_of_le_of_ne (Nat.le_of_lt_succ hj) hjn)
  · intro j hj
    rw [hnews]
    exact hinv.fresh j (Nat.le_of_lt hj)
  · rw [hprepared]
    intro x hx
    rcases List.mem_cons.1 hx with rfl | hx
    · exact Nat.lt_succ_self _
    · exact Nat.lt_succ_of_lt (hinv.prepared x hx)
  · rw [hprepared]
    refine List.nodup_cons.2 ⟨fun hmem => ?_, hinv.keyed⟩
    obtain ⟨x, hx, hxn⟩ := List.mem_map.1 hmem
    exact Nat.ne_of_lt (hinv.prepared x hx) hxn
  · intro x hx
    obtain ⟨hmem, hlost, hxout⟩ := hinv.pending x hx
    rw [hprepared, hnews]
    exact ⟨List.mem_cons_of_mem _ hmem, hlost, hxout⟩
  · intro x hx hxout
    rw [hprepared] at hx
    rw [hnews]
    rcases List.mem_cons.1 hx with rfl | hx
    · exact absurd hxout hout
    · exact hinv.kept x hx hxout

/-- The connection is back. -/
theorem FilesInv.reconnected (hinv : FilesInv S h v) (hnews : news h' = .back :: news h)
    (hlast : ∀ j, lastAnswer j h' = lastAnswer j h) : FilesInv S h' v where
  length := hinv.length
  next_le := hinv.next_le
  held := by
    rw [hnews]
    exact hinv.held
  told j hj := by
    rw [hlast j]
    exact hinv.told j hj
  fresh := by
    rw [hnews]
    exact hinv.fresh
  prepared := by
    rw [hnews]
    exact hinv.prepared
  keyed := by
    rw [hnews]
    exact hinv.keyed
  pending := by
    rw [hnews]
    exact hinv.pending
  kept := by
    rw [hnews]
    exact hinv.kept

/-- A file was begun. -/
theorem Counted.begun {ans : Option P} (hstreak : Counted h v)
    (hnews : news h' = .begun i ans :: news h) : Counted h' v := by
  unfold Counted
  rw [hnews]
  exact hstreak

/-- The connection is back. -/
theorem Counted.reconnected (hv : v.streak = 0) (hnews : news h' = .back :: news h) :
    Counted h' v := by
  unfold Counted
  rw [hnews]
  exact fun _ => hv

/-- What `processNext` makes of the streak. -/
theorem Counted.next (hstreak : Counted h v) (hends : Ends e i h h') (hi : i < v.outcomes.length) :
    Counted h' (AlbumSendSeries.countStreak i e.ok (e.vars i p v)) := by
  have hself : (e.vars i p v).outcomes[i]? = some (some e.outcome) := by
    rw [e.vars_outcomes]
    exact List.getElem?_set_self hi
  unfold Counted AlbumSendSeries.countStreak
  rw [hends.news, hself]
  cases e with
  | sent => exact fun _ => rfl
  | cancelled => exact hstreak
  | refused => exact fun _ => rfl
  | lost => exact fun ha => congrArg Nat.succ (hstreak ha)

/-- What the loop over the pending files makes of it: a file that was. -/
theorem Counted.resend (hstreak : Counted h v) (hends : Ends e i h h')
    (hlost : lostIn i (news h) = true) :
    Counted h' (if e.ok = some false then
      { e.vars i p v with streak := (e.vars i p v).streak + 1 } else e.vars i p v) := by
  unfold Counted
  rw [hends.news]
  cases e with
  | sent => exact fun ha => (hstreak ha.1).trans (ha.2 hlost)
  | cancelled => exact hstreak
  | refused => exact fun ha => (hstreak ha.1).trans (ha.2 hlost)
  | lost => exact fun ha => congrArg Nat.succ (hstreak ha)

/-- The variables with which a loop returns are right. -/
def Fine (S : AlbumSendSeries P) (h : List (SeriesDone P)) (x : Option (SeriesVars P)) : Prop :=
  ∀ v, x = some v → FilesInv S h v ∧ Counted h v

theorem fine_some (hinv : FilesInv S h v) (hstreak : Counted h v) : Fine S h (some v) := by
  rintro _ ⟨rfl⟩
  exact ⟨hinv, hstreak⟩

/-- A loop, and what follows it. -/
theorem fine_bind {α : Type} {R : List (SeriesDone P) → Option α → Prop}
    {t : SeriesTask P (SeriesVars P)} {f : SeriesVars P → SeriesTask P α}
    (ht : Obeys Answered (BreakerLaw S) (Fine S) h t)
    (hf : ∀ h v, FilesInv S h v → Counted h v → Obeys Answered (BreakerLaw S) R h (f v))
    (hn : ∀ h, R h none) : Obeys Answered (BreakerLaw S) R h (t >>= f) :=
  Obeys.bind ht (fun h v hv => hf h v (hv v rfl).1 (hv v rfl).2) fun h _ => hn h

/-- A callback without news, and then the variables are returned. -/
theorem fine_of_notify {notice : SeriesNotice} (hinv : FilesInv S h v) (hstreak : Counted h v)
    (hnotice : newsOf (⟨⟨.notify notice, v⟩, some ()⟩ : SeriesDone P) = none) :
    Obeys Answered (BreakerLaw S) (Fine S) h (v.notify notice >>= fun _ => pure v) := by
  refine obeys_op (.notify notice) (hinv.toRight hstreak) fun _ => ?_
  have hnews := news_cons_none (h := h) hnotice
  exact fine_some (hinv.quiet hnews fun _ _ => rfl) (hstreak.of_news hnews)

/-- **The next file begins.** -/
theorem processNext_spec (hinv : FilesInv S h v) (hstreak : Counted h v) (hlt : v.next < S.count)
    (hopen : ¬S.breakerOpen v) :
    Obeys Answered (BreakerLaw S) (Fine S) h
      (S.processNext v.next { v with next := v.next + 1 }) := by
  have hright : Right S h { v with next := v.next + 1 } := ⟨hstreak, hinv.held⟩
  refine obeys_op (.isCancelled v.next) hright fun cancelled => ?_
  have hasked := Asks.isCancelled (i := v.next) (h := h) { v with next := v.next + 1 }
    (some cancelled)
  have hlast := lastAnswer_isCancelled (h := h) v.next { v with next := v.next + 1 }
    (some cancelled)
  cases cancelled with
  | true =>
      exact fine_of_notify (hinv.settle hlt (by decide) (.inl hasked.news) hlast hasked.other)
        (hstreak.of_news hasked.news) rfl
  | false =>
      refine obeys_op (.prepare v.next) (hright.of_news hasked.news) fun ans => ?_
      have hnews : news (⟨⟨.prepare v.next, { v with next := v.next + 1 }⟩, some ans⟩ ::
          ⟨⟨.isCancelled v.next, { v with next := v.next + 1 }⟩, some false⟩ :: h) =
          .begun v.next ans :: news h := (news_cons_some rfl).trans (congrArg _ hasked.news)
      cases ans with
      | none =>
          have hright' : Right S (⟨⟨.prepare v.next, { v with next := v.next + 1 }⟩, some none⟩ ::
              ⟨⟨.isCancelled v.next, { v with next := v.next + 1 }⟩, some false⟩ :: h)
              { v with next := v.next + 1 } := by
            constructor <;> rw [hnews]
            · exact hstreak
            · exact fun hb => hinv.held hb.1
          refine obeys_op (.isCancelled v.next) hright' fun cancelled => ?_
          have hasked' := Asks.isCancelled (i := v.next) (h := ⟨⟨.prepare v.next,
            { v with next := v.next + 1 }⟩, some none⟩ :: ⟨⟨.isCancelled v.next,
            { v with next := v.next + 1 }⟩, some false⟩ :: h) { v with next := v.next + 1 }
            (some cancelled)
          have hnews' := hasked'.news.trans hnews
          have hother : ∀ j, j ≠ v.next → lastAnswer j _ = lastAnswer j h :=
            fun j hj => (hasked'.other j hj).trans (hasked.other j hj)
          cases cancelled with
          | true =>
              exact fine_of_notify (hinv.settle hlt (by decide) (.inr hnews')
                (lastAnswer_isCancelled _ _ _) hother) (hstreak.begun hnews') rfl
          | false =>
              exact fine_of_notify (hinv.settle hlt (by decide) (.inr hnews')
                (lastAnswer_isCancelled _ _ _) hother) (hstreak.begun hnews') rfl
      | some p =>
          have hinv' := hinv.begun hlt hnews hlast fun j hj => hasked.other j hj
          have hcounted : Counted _ { v with next := v.next + 1 } :=
            Counted.begun (v := { v with next := v.next + 1 }) hstreak hnews
          -- the breaker was closed and nothing was refused, so all that is held is below the limit
          have hfail : BegunUnrefused (.begun v.next (some p) :: news h) →
              sdkHeld S (.begun v.next (some p) :: news h)
                (v.outcomes.set v.next (some .failedUpload)) ≤
                S.breakerHeldBytes + largest S (.begun v.next (some p) :: news h) := by
            intro hb
            have hnew : sdkHeld S (.begun v.next (some p) :: news h)
                (v.outcomes.set v.next (some .failedUpload)) ≤
                sdkHeld S (news h) v.outcomes + S.sizeOf p :=
              sdkHeld_begun_le fun x hx => Nat.ne_of_lt (hinv.prepared x hx)
            have hheld := sdkHeld_le_heldBytes (S := S) hinv.keyed fun x hx hout =>
              (hinv.kept x hx hout).resolve_right (by rw [hb.2]; exact Bool.false_ne_true)
            have hbelow : S.heldBytes v < S.breakerHeldBytes :=
              Nat.lt_of_not_le fun hle => hopen (.inr hle)
            have hsize := le_max_left (S.sizeOf p) (largest S (news h))
            rw [largest_begun]
            omega
          rw [← hnews] at hfail
          have hp : (v.next, p) ∈ preparedFiles (news (⟨⟨.prepare v.next,
              { v with next := v.next + 1 }⟩, some (some p)⟩ :: ⟨⟨.isCancelled v.next,
              { v with next := v.next + 1 }⟩, some false⟩ :: h)) := by
            rw [hnews]
            exact List.mem_cons_self
          refine Obeys.bind (sendWithRetries_spec S.retryDelays 1 (hinv'.toRight hcounted)
            (fun e => ⟨?_, hinv'.held_ends hfail e⟩) (Asks.refl _ _)) ?_ ?_
          · rw [e.vars_streak]
            exact hcounted
          · rintro h' r ⟨e, ⟨rfl⟩, hends⟩
            have hfiles := hinv'.ends (Nat.lt_succ_self _) hp hfail hends
            refine fine_some ?_ (hcounted.next hends (hinv.length ▸ hlt))
            unfold AlbumSendSeries.countStreak
            split
            · exact hfiles.withCounters _ _
            · split
              · exact hfiles.withCounters _ _
              · exact hfiles
          · rintro h' ⟨e, ⟨⟩, -⟩

theorem processQueue_spec (n : ℕ) (hinv : FilesInv S h v) (hstreak : Counted h v) :
    Obeys Answered (BreakerLaw S) (Fine S) h (S.processQueue n v) := by
  induction n generalizing h v with
  | zero => exact fine_some hinv hstreak
  | succ n ih =>
      unfold AlbumSendSeries.processQueue
      split
      · case _ hgo =>
        exact fine_bind (processNext_spec hinv hstreak hgo.1 hgo.2) (fun _ _ => ih)
          fun _ _ hnone => by cases hnone
      · exact fine_some hinv hstreak

theorem notCancelled_spec (js : List ℕ) (hjs : ∀ j ∈ js, v.next ≤ j) (hinv : FilesInv S h v)
    (hstreak : Counted h v) :
    Obeys Answered (BreakerLaw S) (fun h' _ => FilesInv S h' v ∧ Counted h' v) h
      (AlbumSendSeries.notCancelled v js) := by
  induction js generalizing h with
  | nil => exact ⟨hinv, hstreak⟩
  | cons j js ih =>
      refine obeys_op (.isCancelled j) (hinv.toRight hstreak) fun cancelled => ?_
      have hasked := Asks.isCancelled (i := j) (h := h) v (some cancelled)
      have hj := hjs j List.mem_cons_self
      refine Obeys.bind (ih (fun k hk => hjs k (List.mem_cons_of_mem _ hk))
        (hinv.quiet hasked.news fun k hk => hasked.other k (by omega))
        (hstreak.of_news hasked.news)) ?_ ?_
      · exact fun h' l hl => hl
      · exact fun h' hl => hl

theorem sendQueue_spec (hinv : FilesInv S h v) (hstreak : Counted h v) :
    Obeys Answered (BreakerLaw S) (fun h' x => Fine S h' (x.map Prod.snd)) h (S.sendQueue v) := by
  refine fine_bind (processQueue_spec _ hinv hstreak) (fun h' u hinv' hstreak' => ?_)
    fun _ _ hnone => by cases hnone
  refine Obeys.bind (notCancelled_spec _ (fun j hj => (List.mem_range'_1.1 hj).1) hinv' hstreak')
    (fun h'' l hl => fine_some hl.1 hl.2) fun _ _ _ hnone => by cases hnone

/-- **The files that failed are sent again.** -/
theorem resend_spec (ks : List ℕ) (hinv : FilesInv S h v) (hstreak : Counted h v) :
    Obeys Answered (BreakerLaw S) (Fine S) h (S.resend ks v) := by
  induction ks generalizing h v with
  | nil => exact fine_some hinv hstreak
  | cons k ks ih =>
      unfold AlbumSendSeries.resend
      cases hk : v.pendingRetry.get? k with
      | none => exact fun _ hnone => by cases hnone
      | some p =>
          obtain ⟨hp, hlost, hout⟩ := hinv.pending _ (Assoc.mem_of_get? hk)
          -- a file that fails again was held before
          have hsame : v.outcomes.set k (some .failedUpload) = v.outcomes := by
            obtain ⟨hlen, hout⟩ := List.getElem?_eq_some_iff.1 hout
            rw [← hout]
            exact List.set_getElem_self hlen
          have hfail : BegunUnrefused (news h) →
              sdkHeld S (news h) (v.outcomes.set k (some .failedUpload)) ≤
                S.breakerHeldBytes + largest S (news h) := hsame.symm ▸ hinv.held
          refine Obeys.bind (sendWithRetries_spec S.retryDelays 1 (hinv.toRight hstreak)
            (fun e => ⟨?_, hinv.held_ends hfail e⟩) (Asks.refl _ _)) ?_ ?_
          · rw [e.vars_streak]
            exact hstreak
          · rintro h' r ⟨e, ⟨rfl⟩, hends⟩
            have hfiles := hinv.ends (hinv.prepared _ hp) hp hfail hends
            have hcounted := hstreak.resend (p := p) hends hlost
            refine ih ?_ hcounted
            split
            · exact hfiles.withCounters _ _
            · exact hfiles
          · rintro h' ⟨e, ⟨⟩, -⟩

/-- **The main loop**, with `n` rounds left. -/
theorem mainLoop_spec (n : ℕ) (hinv : FilesInv S h v) (hstreak : Counted h v) :
    Obeys Answered (BreakerLaw S) (Fine S) h (S.mainLoop n v) := by
  induction n generalizing h v with
  | zero => exact Obeys.bind (sendQueue_spec hinv hstreak) (fun h' r hr => hr) fun h' hr => hr
  | succ n ih =>
      refine Obeys.bind (sendQueue_spec hinv hstreak) (fun h' r hr => ?_)
        fun _ _ _ hnone => by cases hnone
      obtain ⟨hinv', hstreak'⟩ := hr r.2 rfl
      dsimp only
      split
      · exact fine_some hinv' hstreak'
      refine obeys_op (.notify (.onWaiting r.1)) ⟨hstreak', hinv'.held⟩ fun _ => ?_
      have htold := news_cons_none (h := h') (d := (⟨⟨.notify (.onWaiting r.1),
        { r.2 with rounds := r.2.rounds + 1 }⟩, some ()⟩ : SeriesDone P)) rfl
      refine obeys_op .waitForReconnect
        (Right.of_news (h := h') ⟨hstreak', hinv'.held⟩ htold) fun back => ?_
      cases back with
      | false =>
          have hnews := (news_cons_none (d := (⟨⟨.waitForReconnect,
            { r.2 with rounds := r.2.rounds + 1 }⟩, some false⟩ : SeriesDone P)) rfl).trans htold
          exact fine_some ((hinv'.quiet hnews fun _ _ => rfl).withCounters _ _)
            (hstreak'.of_news hnews)
      | true =>
          have hnews := (news_cons_some (d := (⟨⟨.waitForReconnect,
            { r.2 with rounds := r.2.rounds + 1 }⟩, some true⟩ : SeriesDone P))
            rfl).trans (congrArg _ htold)
          refine fine_bind (resend_spec _ ((hinv'.reconnected hnews fun _ => rfl).withCounters _ _)
            (Counted.reconnected rfl hnews)) (fun _ _ => ih) fun _ _ hnone => by cases hnone

/-- The files `js` are still to be given up; the others are reported. -/
structure Reported (S : AlbumSendSeries P) (js : List ℕ) (h : List (SeriesDone P))
    (v : SeriesVars P) : Prop where
  right : Right S h v
  length : v.outcomes.length = S.count
  told : ∀ j, j < S.count → j ∉ js →
    (v.outcomes[j]? = some (some .cancelled) ↔ lastAnswer j h = true)

/-- One of them gets an outcome. -/
theorem Reported.settle {k : ℕ} {js : List ℕ} {o : SeriesItemOutcome}
    (hrep : Reported S (k :: js) h v) (ho : o ≠ .failedUpload) (hnews : news h' = news h)
    (hlast : lastAnswer k h' = decide (o = .cancelled))
    (hother : ∀ j, j ≠ k → lastAnswer j h' = lastAnswer j h) :
    Reported S js h' (v.setOutcome k o) := by
  refine ⟨⟨?_, ?_⟩, (List.length_set ..).trans hrep.length, fun j hj hnot => ?_⟩
  · rw [hnews]
    exact hrep.right.streak
  · rw [hnews]
    exact fun hb => (sdkHeld_set_le ho).trans (hrep.right.held hb)
  · change (v.outcomes.set k (some o))[j]? = _ ↔ _
    by_cases hjk : j = k
    · subst hjk
      rw [List.getElem?_set_self (hrep.length ▸ hj), hlast]
      simp
    · rw [List.getElem?_set_ne (Ne.symm hjk), hother j hjk]
      exact hrep.told j hj (by simp [hjk, hnot])

/-- The files that the series gave up. -/
theorem giveUp_spec (js : List ℕ) (hrep : Reported S js h v) :
    Obeys Answered (BreakerLaw S) (fun h' x => ∀ v', x = some v' → Reported S [] h' v') h
      (AlbumSendSeries.giveUp js v) := by
  induction js generalizing h v with
  | nil =>
      rintro _ ⟨rfl⟩
      exact hrep
  | cons k js ih =>
      refine obeys_op (.isCancelled k) hrep.right fun cancelled => ?_
      have hasked := Asks.isCancelled (i := k) (h := h) v (some cancelled)
      have hlast := lastAnswer_isCancelled (h := h) k v (some cancelled)
      cases cancelled with
      | true =>
          have hrep' := hrep.settle (o := .cancelled) (by decide) hasked.news hlast hasked.other
          refine obeys_op (.notify (.onCancelled k)) hrep'.right fun _ => ih ?_
          have hnews := news_cons_none (h := ⟨⟨.isCancelled k, v⟩, some true⟩ :: h)
            (d := (⟨⟨.notify (.onCancelled k), v.setOutcome k .cancelled⟩, some ()⟩ :
              SeriesDone P)) rfl
          exact ⟨hrep'.right.of_news hnews, hrep'.length, hrep'.told⟩
      | false =>
          exact ih (hrep.settle (o := .notStarted) (by decide) hasked.news hlast hasked.other)

/-- A file is reported as cancelled exactly when the last question about it was answered so. -/
theorem run_reports (S : AlbumSendSeries P) :
    Obeys Answered (BreakerLaw S) (fun h r => ∀ outcomes, r = some outcomes →
      ∀ i, i < S.count → (outcomes[i]? = some .cancelled ↔ lastAnswer i h = true)) [] S.run := by
  have hstart : FilesInv S [] S.initialVars := by
    refine ⟨List.length_replicate, Nat.zero_le _, fun _ => Nat.zero_le _,
      fun j hj => absurd hj (Nat.not_lt_zero j), fun j _ => ⟨fun o => ?_, rfl⟩, fun x hx => ?_,
      List.nodup_nil, fun x hx => ?_, fun x hx => ?_⟩
    · unfold AlbumSendSeries.initialVars
      rw [List.getElem?_replicate]
      split <;> simp
    · cases hx
    · cases hx
    · cases hx
  refine fine_bind (mainLoop_spec S.maxWaitRounds hstart fun _ => rfl)
    (fun h v hinv hstreak => ?_) fun _ _ hnone => by cases hnone
  refine Obeys.bind (giveUp_spec (S.queue v) ⟨⟨hstreak, hinv.held⟩, hinv.length,
    fun j hj hnot => hinv.told j ?_⟩) (fun h' v' hrep => ?_) fun _ _ _ hnone => by cases hnone
  · refine Nat.lt_of_not_le fun hle => hnot ?_
    exact List.mem_range'_1.2 ⟨hle, by omega⟩
  · cases hout : v'.outcomes.mapM id with
    | none => exact fun _ hnone => by cases hnone
    | some l =>
        rintro _ ⟨rfl⟩ i hi
        rw [← (hrep v' rfl).told i hi List.not_mem_nil, eq_map_of_mapM_id hout, List.getElem?_map]
        cases l[i]? <;> simp

end Loops

/-! ### Every run -/

section Runs

variable {S : AlbumSendSeries P} {h : List (SeriesDone P)} {d : SeriesDone P}

/-- The run in which each call is answered as `env` has it after the calls so far. -/
def trace (S : AlbumSendSeries P) (env : List (SeriesDone P) → (c : SeriesCall P) → c.Res) :
    List (SeriesDone P) × Option (List SeriesItemOutcome) :=
  S.run.trace (fun h c => some (env h c)) []

/-- The runs that stay clear of what is missed, with the files the user has cancelled by the end. -/
structure Favourable (S : AlbumSendSeries P) (cancelled : ℕ → Prop) (h : List (SeriesDone P)) :
    Prop where
  answered : AnsweredAtZero (news h)
  asked : ∀ i < S.count, cancelled i → lastAnswer i h = true
  begun : BegunUnrefused (news h)

theorem answeredAtZero_of_cons (hd : AnsweredAtZero (news (d :: h))) : AnsweredAtZero (news h) := by
  cases hnews : newsOf d with
  | none => rwa [news_cons_none hnews] at hd
  | some x =>
      rw [news_cons_some hnews] at hd
      cases x with
      | sent i => exact hd.1
      | refused i => exact hd.1
      | begun i p => exact hd
      | lost i => exact hd
      | back => exact hd

theorem begunUnrefused_of_cons (hd : BegunUnrefused (news (d :: h))) : BegunUnrefused (news h) := by
  cases hnews : newsOf d with
  | none => rwa [news_cons_none hnews] at hd
  | some x =>
      rw [news_cons_some hnews] at hd
      cases x with
      | begun i p => exact hd.1
      | sent i => exact hd
      | refused i => exact hd
      | lost i => exact hd
      | back => exact hd

theorem kept_streak (hkept : Kept (BreakerLaw S) h) (hh : AnsweredAtZero (news h)) :
    Kept StreakRight h := by
  induction h with
  | nil => trivial
  | cons d h ih =>
      have hh := answeredAtZero_of_cons hh
      exact ⟨hkept.1.streak hh, ih hkept.2 hh⟩

theorem kept_held (hkept : Kept (BreakerLaw S) h) (hh : BegunUnrefused (news h)) :
    Kept (HeldRight S) h := by
  induction h with
  | nil => trivial
  | cons d h ih =>
      have hh := begunUnrefused_of_cons hh
      exact ⟨hkept.1.held hh, ih hkept.2 hh⟩

/-- **The breaker counts what it says** in every run that stays clear of what is missed. -/
theorem breakerCounts (S : AlbumSendSeries P)
    (env : List (SeriesDone P) → (c : SeriesCall P) → c.Res) (cancelled : ℕ → Prop)
    (hfav : Favourable S cancelled (trace S env).1) :
    ∃ outcomes, (trace S env).2 = some outcomes ∧
      BreakerCounts S cancelled (trace S env).1 outcomes := by
  have henv : ∀ (h : List (SeriesDone P)) (c : SeriesCall P),
      Answered c ((fun h c => some (env h c)) h c) := fun _ _ => rfl
  obtain ⟨-, outcomes, hout, -⟩ := Obeys.trace henv (run_spec S) trivial
  obtain ⟨hkept, hreports⟩ := Obeys.trace henv (run_reports S) trivial
  refine ⟨outcomes, hout, kept_streak hkept hfav.answered, fun i hi hc => ?_,
    kept_held hkept hfav.begun⟩
  exact (hreports outcomes hout i hi).2 (hfav.asked i hi hc)

end Runs

/-! ### Two albums -/

/-- The keys of a round in order, in a way that can be evaluated. -/
theorem mergeSort_keys (l : List ℕ) : l.mergeSort = l.insertionSort (· ≤ ·) :=
  List.mergeSort_eq_insertionSort (· ≤ ·) l

/-- The connection was waited for. -/
def waitedIn (h : List (SeriesDone ℕ)) : Bool :=
  h.any fun d => match d.op.op with
    | .waitForReconnect => true
    | _ => false

/-- Three files of five bytes.  The network fails until the series has waited for it, and the user
cancels the third, which has not begun. -/
def thirdCancelled (h : List (SeriesDone ℕ)) : (c : SeriesCall ℕ) → c.Res
  | ⟨.isCancelled i, _⟩ => decide (i = 2)
  | ⟨.prepare _, _⟩ => some 5
  | ⟨.upload .., _⟩ => if waitedIn h then .done else .failed .transient
  | ⟨.delay _, _⟩ => ()
  | ⟨.waitForReconnect, _⟩ => true
  | ⟨.notify _, _⟩ => ()

/-- Six files of 200 million bytes.  The server refuses the first three, and the network fails under
the fourth, always, and the fifth, until the series has waited once.  The user cancels the fourth
while the series waits again. -/
def sixFiles (h : List (SeriesDone ℕ)) : (c : SeriesCall ℕ) → c.Res
  | ⟨.isCancelled _, _⟩ => false
  | ⟨.prepare _, _⟩ => some 200000000
  | ⟨.upload i _ _, _⟩ =>
      if i < 3 then .failed .terminal
      else if i = 3 ∨ i = 4 ∧ waitedIn h = false then .failed .transient
      else .done
  | ⟨.delay _, _⟩ => ()
  | ⟨.waitForReconnect, _⟩ => !waitedIn h
  | ⟨.notify _, _⟩ => ()

/-- An album of as many files, with the limits of the source. -/
def album (count : ℕ) : AlbumSendSeries ℕ := { count := count, sizeOf := id }

/-- An album that stays clear of it: two files are lost, and sent again when the network is back. -/
theorem album_breakerCounts :
    ∃ outcomes, (trace (album 3) thirdCancelled).2 = some outcomes ∧
      BreakerCounts (album 3) (· = 2) (trace (album 3) thirdCancelled).1 outcomes := by
  have hrun : news (trace (album 3) thirdCancelled).1 = [.sent 1, .sent 0, .back, .lost 1,
      .begun 1 (some 5), .lost 0, .begun 0 (some 5)] ∧
      lastAnswer 2 (trace (album 3) thirdCancelled).1 = true := by
    unfold trace AlbumSendSeries.run
    rw [show (album 3).maxWaitRounds = 5 from rfl]
    simp only [AlbumSendSeries.mainLoop, mergeSort_keys]
    exact ⟨rfl, rfl⟩
  refine breakerCounts (album 3) thirdCancelled (· = 2) ⟨?_, ?_, ?_⟩
  · rw [hrun.1]
    exact ⟨⟨trivial, fun _ => rfl⟩, fun _ => rfl⟩
  · rintro i hi rfl
    exact hrun.2
  · rw [hrun.1]
    exact ⟨⟨trivial, rfl⟩, rfl⟩

/-- A new file is prepared. -/
def begins (c : SeriesCall P) : Bool :=
  match c.op with
  | .prepare _ => true
  | _ => false

instance decidableStreakRight (h : List (SeriesDone P)) (c : SeriesCall P) :
    Decidable (StreakRight h c) := inferInstanceAs (Decidable (_ = _))

instance decidableHeldRight (S : AlbumSendSeries P) (h : List (SeriesDone P)) (c : SeriesCall P) :
    Decidable (HeldRight S h c) := inferInstanceAs (Decidable (_ ≤ _))

/-- **All of it is missed in one album.**  The streak is 1 behind a resend that succeeded; the file
the user has cancelled is reported as failed; and new files are begun while the SDK holds three. -/
theorem sixFiles_miscounted :
    ¬Kept StreakRight (trace (album 6) sixFiles).1 ∧
      (trace (album 6) sixFiles).2 = some [.failedUpload, .failedUpload, .failedUpload,
        .failedUpload, .sent, .sent] ∧
      ¬Kept (fun h c => begins c = true → HeldRight (album 6) h c)
        (trace (album 6) sixFiles).1 := by
  unfold trace AlbumSendSeries.run
  rw [show (album 6).maxWaitRounds = 5 from rfl]
  simp only [AlbumSendSeries.mainLoop, mergeSort_keys]
  decide +kernel

end Breaker
end Client
end Liza
