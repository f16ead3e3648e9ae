/-
# What the run of an album tells

What the calls of `AlbumSendSeries.run` say about the files and the connection (`news`), the latest
first, and what is to be counted of it: the files that failed on the network in a row, the bytes
that the SDK holds, and the files that were cancelled when they were asked about last.
`BreakerCounts` is what the breaker promises, in these terms.

The variables can be right (`Right`) only as far as the run stays clear of what the source misses:
its loop over the pending files does not end the streak when one of them is answered
(`AnsweredAtZero`), and the bytes of a refused file are not counted (`BegunUnrefused`).
`sendWithRetries` ends in one of four ways, each with its callback, its outcome and its news
(`SendEnd`), and asks about its own file only.
-/

import Liza.Client.AlbumAccounting

set_option autoImplicit false

namespace Liza
namespace Client
namespace Breaker

open Lib
open Lib.Task (Obeys Kept)

variable {P : Type}

/-! ### What a run tells -/

/-- News of the files: one was begun, with what `prepare` returned; one failed on the network at
its last attempt; one was sent; one was refused for good; or of the connection: it is back. -/
inductive News (P : Type) where
  | begun (i : ℕ) (prepared : Option P)
  | lost (i : ℕ)
  | sent (i : ℕ)
  | refused (i : ℕ)
  | back

/-- An answer is `true`. -/
def isYes (ans : Option Bool) : Bool := ans = some true

/-- The news of a call. -/
def newsOf : SeriesDone P → Option (News P)
  | ⟨⟨.prepare i, _⟩, ans⟩ => some (.begun i (Option.join ans))
  | ⟨⟨.notify (.onUploadFailed i .transient), _⟩, _⟩ => some (.lost i)
  | ⟨⟨.notify (.onUploadFailed i .terminal), _⟩, _⟩ => some (.refused i)
  | ⟨⟨.notify (.onSent i), _⟩, _⟩ => some (.sent i)
  | ⟨⟨.waitForReconnect, _⟩, ans⟩ => if isYes ans then some .back else none
  | _ => none

/-- The news of a run, the latest first. -/
def news (h : List (SeriesDone P)) : List (News P) := h.filterMap newsOf

/-- The files that failed on the network in a row: since the last success, final refusal or
reconnect. -/
def networkStreak : List (News P) → ℕ
  | [] => 0
  | .begun .. :: n => networkStreak n
  | .lost _ :: n => networkStreak n + 1
  | .sent _ :: _ | .refused _ :: _ | .back :: _ => 0

/-- The file failed on the network before. -/
def lostIn (i : ℕ) : List (News P) → Bool
  | [] => false
  | .lost j :: n => j = i || lostIn i n
  | _ :: n => lostIn i n

/-- Some file was refused. -/
def anyRefused : List (News P) → Bool
  | [] => false
  | .refused _ :: _ => true
  | _ :: n => anyRefused n

/-- A file that had failed on the network before is sent or refused only where no file has failed
since the last success, refusal or reconnect. -/
def AnsweredAtZero : List (News P) → Prop
  | [] => True
  | .sent i :: n | .refused i :: n =>
      AnsweredAtZero n ∧ (lostIn i n = true → networkStreak n = 0)
  | _ :: n => AnsweredAtZero n

/-- No file is begun after one was refused. -/
def BegunUnrefused : List (News P) → Prop
  | [] => True
  | .begun .. :: n => BegunUnrefused n ∧ anyRefused n = false
  | _ :: n => BegunUnrefused n

/-- The files that were prepared. -/
def preparedFiles : List (News P) → List (ℕ × P)
  | [] => []
  | .begun i (some p) :: n => (i, p) :: preparedFiles n
  | _ :: n => preparedFiles n

/-- The size of the largest of them. -/
def largest (S : AlbumSendSeries P) (n : List (News P)) : ℕ :=
  ((preparedFiles n).map fun e => S.sizeOf e.2).foldr max 0

/-- What the SDK holds: the bytes of all files that are left as `failedUpload`. -/
def sdkHeld (S : AlbumSendSeries P) (n : List (News P))
    (outcomes : List (Option SeriesItemOutcome)) : ℕ :=
  (((preparedFiles n).filter fun e => outcomes[e.1]? = some (some .failedUpload)).map
    fun e => S.sizeOf e.2).sum

/-- `isCancelled(i)` was answered with true when it was called last. -/
def lastAnswer (i : ℕ) : List (SeriesDone P) → Bool
  | [] => false
  | ⟨⟨.isCancelled j, _⟩, ans⟩ :: h => if j = i then isYes ans else lastAnswer i h
  | _ :: h => lastAnswer i h

/-- The streak of a call is what it says. -/
def StreakRight (h : List (SeriesDone P)) (c : SeriesCall P) : Prop :=
  c.vars.streak = networkStreak (news h)

/-- The SDK holds no more than the limit of the breaker and one file. -/
def HeldRight (S : AlbumSendSeries P) (h : List (SeriesDone P)) (c : SeriesCall P) : Prop :=
  sdkHeld S (news h) c.vars.outcomes ≤ S.breakerHeldBytes + largest S (news h)

/-- What the breaker promises of a run with these calls and outcomes, where the user has cancelled
the files `cancelled` by its end. -/
structure BreakerCounts (S : AlbumSendSeries P) (cancelled : ℕ → Prop) (h : List (SeriesDone P))
    (outcomes : List SeriesItemOutcome) : Prop where
  streak : Kept StreakRight h
  reported : ∀ i < S.count, cancelled i → outcomes[i]? = some .cancelled
  held : Kept (HeldRight S) h

/-! ### The law -/

/-- The variables are right after the calls `h`, as far as that can be. -/
structure Right (S : AlbumSendSeries P) (h : List (SeriesDone P)) (v : SeriesVars P) : Prop where
  streak : AnsweredAtZero (news h) → v.streak = networkStreak (news h)
  held : BegunUnrefused (news h) →
    sdkHeld S (news h) v.outcomes ≤ S.breakerHeldBytes + largest S (news h)

/-- Every call is made with variables that are right. -/
def BreakerLaw (S : AlbumSendSeries P) (h : List (SeriesDone P)) (c : SeriesCall P) : Prop :=
  Right S h c.vars

/-- The calls added to `h` ask about the file `i` and tell no news. -/
structure Asks (i : ℕ) (h h' : List (SeriesDone P)) : Prop where
  news : news h' = news h
  other : ∀ j, j ≠ i → lastAnswer j h' = lastAnswer j h

/-- The ways in which `sendWithRetries` ends. -/
inductive SendEnd where
  | sent
  | cancelled
  | refused
  | lost
deriving DecidableEq

namespace SendEnd

/-- What it returns. -/
def ok : SendEnd → Option Bool
  | sent => some true
  | cancelled | refused => none
  | lost => some false

/-- The outcome of the file. -/
def outcome : SendEnd → SeriesItemOutcome
  | sent => .sent
  | cancelled => .cancelled
  | refused | lost => .failedUpload

/-- The callback. -/
def notice (i : ℕ) : SendEnd → SeriesNotice
  | sent => .onSent i
  | cancelled => .onCancelled i
  | refused => .onUploadFailed i .terminal
  | lost => .onUploadFailed i .transient

/-- What it makes of the variables. -/
def vars (i : ℕ) (p : P) (v : SeriesVars P) : SendEnd → SeriesVars P
  | sent => (v.setOutcome i .sent).unpend i
  | cancelled => (v.setOutcome i .cancelled).unpend i
  | refused => (v.setOutcome i .failedUpload).unpend i
  | lost => (v.setOutcome i .failedUpload).pend i p

/-- The news. -/
def news (i : ℕ) (n : List (News P)) : SendEnd → List (News P)
  | sent => .sent i :: n
  | cancelled => n
  | refused => .refused i :: n
  | lost => .lost i :: n

end SendEnd

/-- `sendWithRetries` has ended as `e` after the calls `h'`. -/
structure Ends (e : SendEnd) (i : ℕ) (h h' : List (SeriesDone P)) : Prop where
  news : news h' = e.news i (news h)
  last : lastAnswer i h' = decide (e = .cancelled)
  other : ∀ j, j ≠ i → lastAnswer j h' = lastAnswer j h

section OneFile

variable {S : AlbumSendSeries P} {h h' h'' : List (SeriesDone P)} {v : SeriesVars P} {i : ℕ} {p : P}
  {d : SeriesDone P} {α : Type} {R : List (SeriesDone P) → Option α → Prop}

theorem news_cons_none (hd : newsOf d = none) : news (d :: h) = news h :=
  List.filterMap_cons_none hd

theorem news_cons_some {x : News P} (hd : newsOf d = some x) : news (d :: h) = x :: news h :=
  List.filterMap_cons_some hd

theorem Right.of_news (hv : Right S h v) (hnews : news h' = news h) : Right S h' v := by
  constructor
  · rw [hnews]
    exact hv.streak
  · rw [hnews]
    exact hv.held

theorem Asks.refl (i : ℕ) (h : List (SeriesDone P)) : Asks i h h := ⟨rfl, fun _ _ => rfl⟩

theorem Asks.trans (h₁ : Asks i h h') (h₂ : Asks i h' h'') : Asks i h h'' :=
  ⟨h₂.news.trans h₁.news, fun j hj => (h₂.other j hj).trans (h₁.other j hj)⟩

/-- The question whether the file is cancelled. -/
theorem Asks.isCancelled (v : SeriesVars P) (ans : Option Bool) :
    Asks i h (⟨⟨.isCancelled i, v⟩, ans⟩ :: h) :=
  ⟨news_cons_none rfl, fun _ hj => if_neg (Ne.symm hj)⟩

theorem lastAnswer_isCancelled (i : ℕ) (v : SeriesVars P) (ans : Option Bool) :
    lastAnswer i (⟨⟨.isCancelled i, v⟩, ans⟩ :: h) = isYes ans := if_pos rfl

/-- A call, and what follows it. -/
theorem obeys_op (op : SeriesOp P) {f : op.Res → SeriesTask P α} (hright : Right S h v)
    (hf : ∀ r, Obeys Answered (BreakerLaw S) R (⟨⟨op, v⟩, some r⟩ :: h) (f r)) :
    Obeys Answered (BreakerLaw S) R h ((Task.call (⟨op, v⟩ : SeriesCall P)) >>= f) := by
  refine Obeys.call_bind hright (fun r _ => hf r) fun hnone => ?_
  cases hnone

/-- The last call of `sendWithRetries` tells how it ended. -/
theorem ends_of_notify {h₀ : List (SeriesDone P)} (e : SendEnd) (hright : Right S h (e.vars i p v))
    (hasks : Asks i h₀ h) (hlast : lastAnswer i h = decide (e = .cancelled)) :
    Obeys Answered (BreakerLaw S)
      (fun h' x => ∃ e, x = some (SendEnd.ok e, e.vars i p v) ∧ Ends e i h₀ h') h
      ((e.vars i p v).notify (e.notice i) >>= fun _ => pure (e.ok, e.vars i p v)) := by
  refine obeys_op (.notify (e.notice i)) hright fun _ => ⟨e, rfl, ?_, hlast, hasks.other⟩
  cases e with
  | sent => exact (news_cons_some rfl).trans (congrArg _ hasks.news)
  | cancelled => exact (news_cons_none rfl).trans hasks.news
  | refused => exact (news_cons_some rfl).trans (congrArg _ hasks.news)
  | lost => exact (news_cons_some rfl).trans (congrArg _ hasks.news)

/-- One attempt. -/
theorem sendAttempt_spec {h₀ : List (SeriesDone P)} {attempt : ℕ}
    {again : SeriesTask P (Option Bool × SeriesVars P)} (hright : Right S h v)
    (hends : ∀ e : SendEnd, Right S h (e.vars i p v)) (hasks : Asks i h₀ h)
    (hagain : ∀ h₁, Asks i h₀ h₁ → lastAnswer i h₁ = false → news h₁ = news h →
      Obeys Answered (BreakerLaw S)
        (fun h' x => ∃ e, x = some (SendEnd.ok e, e.vars i p v) ∧ Ends e i h₀ h') h₁ again) :
    Obeys Answered (BreakerLaw S)
      (fun h' x => ∃ e, x = some (SendEnd.ok e, e.vars i p v) ∧ Ends e i h₀ h') h
      (AlbumSendSeries.sendAttempt i p v attempt again) := by
  refine obeys_op (.isCancelled i) hright fun cancelled => ?_
  have hasked := hasks.trans (Asks.isCancelled (i := i) (h := h) v (some cancelled))
  have hsame : news (⟨⟨.isCancelled i, v⟩, some cancelled⟩ :: h) = news h := news_cons_none rfl
  have hlast := lastAnswer_isCancelled (h := h) i v (some cancelled)
  cases cancelled with
  | true => exact ends_of_notify .cancelled ((hends .cancelled).of_news hsame) hasked hlast
  | false =>
      refine obeys_op (.upload i p attempt) (hright.of_news hsame) fun ans => ?_
      have hsame' : news (⟨⟨.upload i p attempt, v⟩, some ans⟩ ::
          ⟨⟨.isCancelled i, v⟩, some false⟩ :: h) = news h := (news_cons_none rfl).trans hsame
      have huploaded : Asks i h₀ (⟨⟨.upload i p attempt, v⟩, some ans⟩ ::
          ⟨⟨.isCancelled i, v⟩, some false⟩ :: h) :=
        hasked.trans ⟨news_cons_none rfl, fun _ _ => rfl⟩
      cases ans with
      | done => exact ends_of_notify .sent ((hends .sent).of_news hsame') huploaded hlast
      | failed kind =>
          refine obeys_op (.isCancelled i) (hright.of_news hsame') fun cancelled => ?_
          have hsame'' := (news_cons_none (d := (⟨⟨.isCancelled i, v⟩, some cancelled⟩ :
            SeriesDone P)) rfl).trans hsame'
          have hasked' := huploaded.trans (Asks.isCancelled v (some cancelled))
          cases cancelled with
          | true =>
              exact ends_of_notify .cancelled ((hends .cancelled).of_news hsame'') hasked'
                (lastAnswer_isCancelled i v _)
          | false =>
              cases kind with
              | terminal =>
                  exact ends_of_notify .refused ((hends .refused).of_news hsame'') hasked'
                    (lastAnswer_isCancelled i v _)
              | transient => exact hagain _ hasked' (lastAnswer_isCancelled i v _) hsame''

/-- **One file is sent, with retries.** -/
theorem sendWithRetries_spec {h₀ : List (SeriesDone P)} (delays : List ℕ) (attempt : ℕ)
    (hright : Right S h v) (hends : ∀ e : SendEnd, Right S h (e.vars i p v)) (hasks : Asks i h₀ h) :
    Obeys Answered (BreakerLaw S)
      (fun h' x => ∃ e, x = some (SendEnd.ok e, e.vars i p v) ∧ Ends e i h₀ h') h
      (AlbumSendSeries.sendWithRetries i p v delays attempt) := by
  induction delays generalizing attempt h with
  | nil =>
      refine sendAttempt_spec hright hends hasks fun h₁ hasks₁ hlast hsame => ?_
      exact ends_of_notify .lost ((hends .lost).of_news hsame) hasks₁ hlast
  | cons d rest ih =>
      refine sendAttempt_spec hright hends hasks fun h₁ hasks₁ _ hsame => ?_
      refine obeys_op (.delay d) (hright.of_news hsame) fun _ => ?_
      have hwaited : news (⟨⟨.delay d, v⟩, some ()⟩ :: h₁) = news h :=
        (news_cons_none rfl).trans hsame
      exact ih (attempt + 1) (hright.of_news hwaited) (fun e => (hends e).of_news hwaited)
        (hasks₁.trans ⟨news_cons_none rfl, fun _ _ => rfl⟩)

end OneFile

/-! ### The bytes -/

section Bytes

variable {S : AlbumSendSeries P} {n : List (News P)} {outcomes : List (Option SeriesItemOutcome)}
  {v : SeriesVars P} {i : ℕ} {p : P} {o : SeriesItemOutcome}

/-- A file that gets another outcome is not held any more. -/
theorem sdkHeld_set_le (ho : o ≠ .failedUpload) :
    sdkHeld S n (outcomes.set i (some o)) ≤ sdkHeld S n outcomes := by
  refine ((List.monotone_filter_right _ fun e he => ?_).map _).sum_le_sum fun _ _ => Nat.zero_le _
  have he := of_decide_eq_true he
  refine decide_eq_true ?_
  by_cases hei : e.1 = i
  · rw [hei, List.getElem?_set_self'] at he
    cases hi : outcomes[i]? with
    | none =>
        rw [hi] at he
        cases he
    | some o' =>
        rw [hi] at he
        exact absurd (Option.some.inj (Option.some.inj he)) ho
  · rwa [List.getElem?_set_ne (Ne.symm hei)] at he

/-- A file that fails anew is held with its bytes. -/
theorem sdkHeld_begun_le (hnew : ∀ e ∈ preparedFiles n, e.1 ≠ i) :
    sdkHeld S (.begun i (some p) :: n) (outcomes.set i (some .failedUpload)) ≤
      sdkHeld S n outcomes + S.sizeOf p := by
  have hrest : (preparedFiles n).filter (fun e =>
      (outcomes.set i (some .failedUpload))[e.1]? = some (some .failedUpload)) =
      (preparedFiles n).filter fun e => outcomes[e.1]? = some (some .failedUpload) := by
    refine List.filter_congr fun e he => ?_
    rw [List.getElem?_set_ne (Ne.symm (hnew e he))]
  unfold sdkHeld
  rw [preparedFiles, List.filter_cons]
  split
  · rw [List.map_cons, List.sum_cons, hrest, Nat.add_comm]
  · rw [hrest]
    exact Nat.le_add_right _ _

/-- What is held are the pending files, when no other file is left failed. -/
theorem sdkHeld_le_heldBytes (hkeyed : Assoc.Keyed (preparedFiles n))
    (hpending : ∀ e ∈ preparedFiles n, v.outcomes[e.1]? = some (some .failedUpload) →
      e ∈ v.pendingRetry) : sdkHeld S n v.outcomes ≤ S.heldBytes v := by
  have hnodup : ((preparedFiles n).filter fun e =>
      v.outcomes[e.1]? = some (some .failedUpload)).Nodup := (List.Nodup.of_map _ hkeyed).filter _
  have hsub : ((preparedFiles n).filter fun e =>
      v.outcomes[e.1]? = some (some .failedUpload)) ⊆ v.pendingRetry := by
    intro e he
    obtain ⟨hmem, hout⟩ := List.mem_filter.1 he
    exact hpending e hmem (of_decide_eq_true hout)
  obtain ⟨l, hperm, hl⟩ := List.subperm_of_subset hnodup hsub
  unfold sdkHeld AlbumSendSeries.heldBytes
  rw [← (hperm.map fun e => S.sizeOf e.2).sum_eq]
  exact (hl.map _).sum_le_sum fun _ _ => Nat.zero_le _

theorem largest_begun (S : AlbumSendSeries P) (i : ℕ) (p : P) (n : List (News P)) :
    largest S (.begun i (some p) :: n) = max (S.sizeOf p) (largest S n) := rfl

end Bytes

end Breaker
end Client
end Liza
