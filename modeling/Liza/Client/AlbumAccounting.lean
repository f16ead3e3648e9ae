/-
# Every file of an album is accounted for

Whatever the calls of `AlbumSendSeries.run` answer, the series ends with one outcome for each file
(`series_accounting`), the one that the last answer about it tells (`toldOutcome`), and on its way
every call keeps the law (`SeriesLaw`): a file is uploaded
only as long as its uploads failed on the network, no more than `maxAttempts` times at first and
in each round; no file is prepared while the breaker is open; and what is held for another round
is bounded.

The calls so far are a history, the latest first.  `sendWithRetries` adds to it uploads of its file
only (`Adds`), which is what the loops around it rely on.
-/

import Liza.Client.AlbumSeries
import Mathlib.Algebra.Order.BigOperators.Group.List
import Mathlib.Algebra.Order.Group.Nat
import Mathlib.Data.List.Sort

set_option autoImplicit false

namespace Liza
namespace Client

open Lib
open Lib.Task (Obeys)

variable {P : Type}

/-- A call that was answered. -/
abbrev SeriesDone (P : Type) := Done (SeriesCall P) SeriesCall.Res

/-- Every call returns. -/
def Answered : (c : SeriesCall P) → Option c.Res → Prop := fun _ r => r.isSome = true

/-! ### The history -/

/-- The file of an upload, and how it ended. -/
def uploadOf : SeriesDone P → Option (ℕ × Option UploadAnswer)
  | ⟨⟨.upload i _ _, _⟩, ans⟩ => some (i, ans)
  | _ => none

/-- The file that was prepared. -/
def preparedOf : SeriesDone P → Option P
  | ⟨⟨.prepare _, _⟩, ans⟩ => ans.join
  | _ => none

/-- Whether the file was cancelled. -/
def cancelledOf : SeriesDone P → Option (ℕ × Option Bool)
  | ⟨⟨.isCancelled i, _⟩, ans⟩ => some (i, ans)
  | _ => none

/-- How often a file was uploaded. -/
def uploadCount (h : List (SeriesDone P)) (i : ℕ) : ℕ :=
  h.countP fun d => (uploadOf d).any fun u => u.1 = i

/-- All uploads of a file failed on the network. -/
def OnlyTransient (h : List (SeriesDone P)) (i : ℕ) : Prop :=
  ∀ d ∈ h, ∀ ans, uploadOf d = some (i, ans) → ans = some (.failed .transient)

/-- The file that a call is about. -/
def aboutOf : SeriesDone P → Option ℕ
  | ⟨⟨.upload i _ _, _⟩, _⟩ => some i
  | ⟨⟨.prepare i, _⟩, _⟩ => some i
  | ⟨⟨.isCancelled i, _⟩, _⟩ => some i
  | _ => none

/-- What an answer about a file tells of its outcome, after it was `o`.  A file that is not
cancelled after all has not begun. -/
def SeriesItemOutcome.after (o : SeriesItemOutcome) : SeriesDone P → SeriesItemOutcome
  | ⟨⟨.upload .., _⟩, some .done⟩ => .sent
  | ⟨⟨.upload .., _⟩, some (.failed _)⟩ => .failedUpload
  | ⟨⟨.prepare _, _⟩, some none⟩ => .failedPrepare
  | ⟨⟨.isCancelled _, _⟩, some true⟩ => .cancelled
  | ⟨⟨.isCancelled _, _⟩, some false⟩ => if o = .cancelled then .notStarted else o
  | _ => o

/-- The outcome of a file, as the answers about it tell. -/
def toldOutcome : List (SeriesDone P) → ℕ → SeriesItemOutcome
  | [], _ => .notStarted
  | d :: h, i => if aboutOf d = some i then (toldOutcome h i).after d else toldOutcome h i

/-- A file that is cancelled stays cancelled. -/
def CancelMonotone (h : List (SeriesDone P)) : Prop :=
  ∀ l₁ d l₂ i, h = l₁ ++ d :: l₂ → cancelledOf d = some (i, some true) →
    ∀ d' ∈ l₁, ∀ ans, cancelledOf d' = some (i, ans) → ans = some true

/-- The files that were prepared are no larger than `B`. -/
def PreparedBelow (S : AlbumSendSeries P) (h : List (SeriesDone P)) (B : ℕ) : Prop :=
  ∀ d ∈ h, ∀ p, preparedOf d = some p → S.sizeOf p ≤ B

/-- What is held is bounded by the limit of the breaker and the largest file. -/
def HeldBelow (S : AlbumSendSeries P) (h : List (SeriesDone P)) (v : SeriesVars P) : Prop :=
  ∀ B, PreparedBelow S h B → S.heldBytes v ≤ S.breakerHeldBytes + B

/-- The law of a call after the calls before it. -/
structure SeriesLaw (S : AlbumSendSeries P) (h : List (SeriesDone P)) (c : SeriesCall P) : Prop where
  held : HeldBelow S h c.vars
  upload : ∀ i p attempt, c.op = .upload i p attempt →
    OnlyTransient h i ∧ uploadCount h i < S.maxAttempts * (1 + S.maxWaitRounds) ∧
      (CancelMonotone h → ∀ d ∈ h, cancelledOf d ≠ some (i, some true))
  prepare : ∀ i, c.op = .prepare i → ¬S.breakerOpen c.vars

/-- The history `h'` is `h` with at most `n` uploads of the file `i`, and calls that are no uploads
and about no other file. -/
structure Adds (i n : ℕ) (h h' : List (SeriesDone P)) : Prop where
  subset : h ⊆ h'
  count : uploadCount h' i ≤ uploadCount h i + n
  other : ∀ j, j ≠ i → uploadCount h' j = uploadCount h j ∧ (OnlyTransient h j → OnlyTransient h' j)
  told : ∀ j, j ≠ i → toldOutcome h' j = toldOutcome h j

section History

variable {S : AlbumSendSeries P} {h h' h'' : List (SeriesDone P)} {i j n m : ℕ} {d : SeriesDone P}

theorem uploadCount_cons (d : SeriesDone P) (h : List (SeriesDone P)) (j : ℕ) :
    uploadCount (d :: h) j = uploadCount h j + if (uploadOf d).any (fun u => u.1 = j) then 1 else 0 :=
  List.countP_cons

theorem uploadCount_of_none (hd : uploadOf d = none) (j : ℕ) :
    uploadCount (d :: h) j = uploadCount h j := by
  rw [uploadCount_cons, hd]
  rfl

theorem OnlyTransient.cons (hj : OnlyTransient h j)
    (hd : ∀ ans, uploadOf d = some (j, ans) → ans = some (.failed .transient)) :
    OnlyTransient (d :: h) j := by
  intro e he ans hans
  rcases List.mem_cons.1 he with rfl | he
  · exact hd ans hans
  · exact hj e he ans hans

theorem OnlyTransient.cons_none (hj : OnlyTransient h j) (hd : uploadOf d = none) :
    OnlyTransient (d :: h) j :=
  hj.cons fun ans hans => by rw [hd] at hans; cases hans

/-- A file that was not uploaded. -/
theorem onlyTransient_of_count (hj : uploadCount h j = 0) : OnlyTransient h j := by
  intro d hd ans hans
  have hnone := List.countP_eq_zero.1 hj d hd
  simp [hans] at hnone

theorem toldOutcome_about (hd : aboutOf d = some i) :
    toldOutcome (d :: h) i = (toldOutcome h i).after d := if_pos hd

theorem toldOutcome_other (hd : aboutOf d ≠ some i) : toldOutcome (d :: h) i = toldOutcome h i :=
  if_neg hd

/-- A file that has not begun, and is not cancelled when it is asked about. -/
theorem toldOutcome_unbegun (hi : toldOutcome h i = .notStarted ∨ toldOutcome h i = .cancelled)
    (v : SeriesVars P) : toldOutcome (⟨⟨.isCancelled i, v⟩, some false⟩ :: h) i = .notStarted := by
  rw [toldOutcome_about rfl]
  rcases hi with hnot | hcancelled
  · rw [hnot]
    rfl
  · rw [hcancelled]
    rfl

theorem Adds.refl (i : ℕ) (h : List (SeriesDone P)) : Adds i 0 h h :=
  ⟨fun _ hd => hd, le_refl _, fun _ _ => ⟨rfl, id⟩, fun _ _ => rfl⟩

theorem Adds.trans (h₁ : Adds i n h h') (h₂ : Adds i m h' h'') : Adds i (n + m) h h'' where
  subset := fun _ hd => h₂.subset (h₁.subset hd)
  count := by
    have := h₁.count
    have := h₂.count
    omega
  other j hj := ⟨(h₂.other j hj).1.trans (h₁.other j hj).1,
    fun ht => (h₂.other j hj).2 ((h₁.other j hj).2 ht)⟩
  told j hj := (h₂.told j hj).trans (h₁.told j hj)

theorem Adds.mono (h₁ : Adds i n h h') (hle : n ≤ m) : Adds i m h h' :=
  ⟨h₁.subset, h₁.count.trans (Nat.add_le_add_left hle _), h₁.other, h₁.told⟩

/-- A call about this file, or about none, tells nothing of the others. -/
theorem told_of_about (hd : (aboutOf d).getD i = i) {j : ℕ} (hj : j ≠ i) :
    toldOutcome (d :: h) j = toldOutcome h j := by
  refine toldOutcome_other fun hsome => hj ?_
  rw [hsome] at hd
  exact hd

/-- A call about this file, or about none, that is no upload. -/
theorem Adds.quiet (i : ℕ) (hd : uploadOf d = none) (habout : (aboutOf d).getD i = i) :
    Adds i 0 h (d :: h) :=
  ⟨fun _ he => List.mem_cons_of_mem _ he, (uploadCount_of_none hd i).le,
    fun j _ => ⟨uploadCount_of_none hd j, fun ht => ht.cons_none hd⟩,
    fun _ hj => told_of_about habout hj⟩

/-- An upload. -/
theorem Adds.upload {ans : Option UploadAnswer} (hd : uploadOf d = some (i, ans))
    (habout : aboutOf d = some i) : Adds i 1 h (d :: h) where
  subset := fun _ he => List.mem_cons_of_mem _ he
  count := by
    rw [uploadCount_cons]
    split <;> omega
  other j hj := by
    refine ⟨?_, fun ht => ht.cons fun ans' hans => ?_⟩
    · rw [uploadCount_cons, hd]
      simp [Ne.symm hj]
    · rw [hd] at hans
      cases hans
      exact absurd rfl hj
  told _ hj := told_of_about (by rw [habout]; rfl) hj

theorem PreparedBelow.of_subset {B : ℕ} (hsub : h ⊆ h') (hB : PreparedBelow S h' B) :
    PreparedBelow S h B := fun d hd => hB d (hsub hd)

theorem HeldBelow.of_subset {v : SeriesVars P} (hv : HeldBelow S h v) (hsub : h ⊆ h') :
    HeldBelow S h' v := fun B hB => hv B (hB.of_subset hsub)

/-- Right after it was asked, the file was not cancelled before. -/
theorem not_cancelled_before (hd : cancelledOf d = some (i, some false)) :
    CancelMonotone (d :: h) → ∀ e ∈ d :: h, cancelledOf e ≠ some (i, some true) := by
  intro hmono e he htrue
  rcases List.mem_cons.1 he with rfl | he
  · rw [hd] at htrue
    cases htrue
  · obtain ⟨l₁, l₂, rfl⟩ := List.append_of_mem he
    have := hmono (d :: l₁) e l₂ i rfl htrue d List.mem_cons_self _ hd
    cases this

end History

/-! ### One file -/

/-- A call that is neither an upload nor a preparation. -/
def SeriesOp.plain : SeriesOp P → Bool
  | .upload .. => false
  | .prepare _ => false
  | _ => true

/-- What `sendWithRetries` leaves of the variables `v`: the outcome of the file is what the answers
tell. -/
structure SentFile (i : ℕ) (prepared : P) (n : ℕ) (v : SeriesVars P) (h h' : List (SeriesDone P))
    (r : Option Bool × SeriesVars P) : Prop where
  adds : Adds i n h h'
  vars : r.2 = if r.1 = some false then (v.setOutcome i (toldOutcome h' i)).pend i prepared
    else (v.setOutcome i (toldOutcome h' i)).unpend i
  transient : r.1 = some false → OnlyTransient h' i

section OneFile

variable {S : AlbumSendSeries P} {h : List (SeriesDone P)} {v : SeriesVars P} {i : ℕ} {p : P}
  {op : SeriesOp P} {α : Type} {R : List (SeriesDone P) → Option α → Prop}

/-- A call that keeps the law, and what follows it. -/
theorem obeys_call (op : SeriesOp P) {f : op.Res → SeriesTask P α} (hlaw : SeriesLaw S h ⟨op, v⟩)
    (hf : ∀ r, Obeys Answered (SeriesLaw S) R (⟨⟨op, v⟩, some r⟩ :: h) (f r)) :
    Obeys Answered (SeriesLaw S) R h ((Task.call (⟨op, v⟩ : SeriesCall P)) >>= f) := by
  refine Obeys.call_bind hlaw (fun r _ => hf r) fun hnone => ?_
  cases hnone

/-- A call that is neither an upload nor a preparation keeps the law. -/
theorem obeys_plain (op : SeriesOp P) {f : op.Res → SeriesTask P α} (hop : op.plain = true)
    (hheld : HeldBelow S h v)
    (hf : ∀ r, Obeys Answered (SeriesLaw S) R (⟨⟨op, v⟩, some r⟩ :: h) (f r)) :
    Obeys Answered (SeriesLaw S) R h ((Task.call (⟨op, v⟩ : SeriesCall P)) >>= f) := by
  refine obeys_call op ⟨hheld, ?_, ?_⟩ hf
  · rintro j p attempt rfl
    cases hop
  · rintro j rfl
    cases hop

theorem heldBytes_unpend (S : AlbumSendSeries P) (v : SeriesVars P) (i : ℕ) :
    S.heldBytes (v.unpend i) ≤ S.heldBytes v :=
  (List.filter_sublist.map _).sum_le_sum fun _ _ => Nat.zero_le _

theorem heldBytes_pend (S : AlbumSendSeries P) (v : SeriesVars P) (i : ℕ) (p : P) :
    S.heldBytes (v.pend i p) ≤ S.heldBytes v + S.sizeOf p := by
  unfold AlbumSendSeries.heldBytes SeriesVars.pend
  dsimp only
  induction v.pendingRetry with
  | nil => simp [Assoc.set]
  | cons e rest ih =>
      obtain ⟨l, q⟩ := e
      simp only [Assoc.set]
      split
      · simp only [List.map_cons, List.sum_cons]
        omega
      · simp only [List.map_cons, List.sum_cons]
        omega

theorem HeldBelow.unpend (hv : HeldBelow S h v) (i : ℕ) (o : SeriesItemOutcome) :
    HeldBelow S h ((v.setOutcome i o).unpend i) :=
  fun B hB => (heldBytes_unpend S (v.setOutcome i o) i).trans (hv B hB)

/-- The last call of `sendWithRetries` tells how it ended. -/
theorem sent_of_notify {n : ℕ} {h₀ : List (SeriesDone P)} {notice : SeriesNotice}
    {r : Option Bool × SeriesVars P} (hheld : HeldBelow S h r.2) (hsent : SentFile i p n v h₀ h r) :
    Obeys Answered (SeriesLaw S) (fun h' x => ∃ y, x = some y ∧ SentFile i p n v h₀ h' y) h
      (r.2.notify notice >>= fun _ => pure r) := by
  refine obeys_plain (.notify notice) rfl hheld fun _ => ⟨r, rfl, ?_⟩
  exact ⟨hsent.adds.trans (Adds.quiet i rfl rfl), hsent.vars,
    fun hfalse => (hsent.transient hfalse).cons_none rfl⟩

/-- One attempt, where what follows a failure on the network keeps the law. -/
theorem sendAttempt_spec {n attempt : ℕ} {again : SeriesTask P (Option Bool × SeriesVars P)}
    (hheld : HeldBelow S h v) (htransient : OnlyTransient h i)
    (hcount : uploadCount h i < S.maxAttempts * (1 + S.maxWaitRounds))
    (hagain : ∀ h₁, Adds i 1 h h₁ → OnlyTransient h₁ i → toldOutcome h₁ i = .failedUpload →
      Obeys Answered (SeriesLaw S)
        (fun h' x => ∃ r, x = some r ∧ SentFile i p (n + 1) v h h' r) h₁ again) :
    Obeys Answered (SeriesLaw S) (fun h' x => ∃ r, x = some r ∧ SentFile i p (n + 1) v h h' r) h
      (AlbumSendSeries.sendAttempt i p v attempt again) := by
  have hone : 0 + 1 ≤ n + 1 := by omega
  refine obeys_plain (.isCancelled i) rfl hheld fun cancelled => ?_
  have hasked : Adds i 0 h (⟨⟨.isCancelled i, v⟩, some cancelled⟩ :: h) := Adds.quiet i rfl rfl
  cases cancelled with
  | true =>
      have htold : toldOutcome (⟨⟨.isCancelled i, v⟩, some true⟩ :: h) i = .cancelled :=
        toldOutcome_about rfl
      exact sent_of_notify (r := (none, (v.setOutcome i .cancelled).unpend i))
        ((hheld.of_subset hasked.subset).unpend i _)
        ⟨hasked.mono (Nat.zero_le _), by rw [htold]; rfl, nofun⟩
  | false =>
      refine obeys_call (.upload i p attempt) ⟨hheld.of_subset hasked.subset, ?_, nofun⟩
        fun ans => ?_
      · rintro j q a ⟨⟩
        exact ⟨htransient.cons_none rfl, lt_of_le_of_lt hasked.count hcount,
          not_cancelled_before rfl⟩
      have huploaded := hasked.trans (Adds.upload (i := i)
        (d := (⟨⟨.upload i p attempt, v⟩, some ans⟩ : SeriesDone P)) rfl rfl)
      cases ans with
      | done =>
          have htold : toldOutcome (⟨⟨.upload i p attempt, v⟩, some .done⟩ ::
              ⟨⟨.isCancelled i, v⟩, some false⟩ :: h) i = .sent := toldOutcome_about rfl
          exact sent_of_notify (r := (some true, (v.setOutcome i .sent).unpend i))
            ((hheld.of_subset huploaded.subset).unpend i _)
            ⟨huploaded.mono hone, by rw [htold]; rfl, nofun⟩
      | failed kind =>
          refine obeys_plain (.isCancelled i) rfl (hheld.of_subset huploaded.subset)
            fun cancelled => ?_
          have hasked' := huploaded.trans (Adds.quiet i
            (d := (⟨⟨.isCancelled i, v⟩, some cancelled⟩ : SeriesDone P)) rfl rfl)
          have hfailed : toldOutcome (⟨⟨.upload i p attempt, v⟩, some (.failed kind)⟩ ::
              ⟨⟨.isCancelled i, v⟩, some false⟩ :: h) i = .failedUpload := toldOutcome_about rfl
          cases cancelled with
          | true =>
              have htold : toldOutcome (⟨⟨.isCancelled i, v⟩, some true⟩ ::
                  ⟨⟨.upload i p attempt, v⟩, some (.failed kind)⟩ ::
                  ⟨⟨.isCancelled i, v⟩, some false⟩ :: h) i = .cancelled := toldOutcome_about rfl
              exact sent_of_notify (r := (none, (v.setOutcome i .cancelled).unpend i))
                ((hheld.of_subset hasked'.subset).unpend i _)
                ⟨hasked'.mono hone, by rw [htold]; rfl, nofun⟩
          | false =>
              -- it was not cancelled before, so it has failed still
              have htold : toldOutcome (⟨⟨.isCancelled i, v⟩, some false⟩ ::
                  ⟨⟨.upload i p attempt, v⟩, some (.failed kind)⟩ ::
                  ⟨⟨.isCancelled i, v⟩, some false⟩ :: h) i = .failedUpload := by
                rw [toldOutcome_about rfl, hfailed]
                rfl
              cases kind with
              | terminal =>
                  exact sent_of_notify (r := (none, (v.setOutcome i .failedUpload).unpend i))
                    ((hheld.of_subset hasked'.subset).unpend i _)
                    ⟨hasked'.mono hone, by rw [htold]; rfl, nofun⟩
              | transient =>
                  refine hagain _ hasked' (OnlyTransient.cons_none ?_ rfl) htold
                  refine (htransient.cons_none rfl).cons fun ans hans => ?_
                  cases hans
                  rfl

/-- **One file is sent, with retries.** -/
theorem sendWithRetries_spec (delays : List ℕ) (attempt : ℕ) (hheld : HeldBelow S h v)
    (hpend : HeldBelow S h (v.pend i p)) (htransient : OnlyTransient h i)
    (hcount : uploadCount h i + (delays.length + 1) ≤ S.maxAttempts * (1 + S.maxWaitRounds)) :
    Obeys Answered (SeriesLaw S)
      (fun h' x => ∃ r, x = some r ∧ SentFile i p (delays.length + 1) v h h' r) h
      (AlbumSendSeries.sendWithRetries i p v delays attempt) := by
  induction delays generalizing attempt h with
  | nil =>
      refine sendAttempt_spec (n := 0) hheld htransient hcount
        fun h₁ hadds hstill htold => ?_
      exact sent_of_notify (r := (some false, (v.setOutcome i .failedUpload).pend i p))
        (hpend.of_subset hadds.subset) ⟨hadds, by rw [htold]; rfl, fun _ => hstill⟩
  | cons d rest ih =>
      rw [List.length_cons] at hcount
      refine sendAttempt_spec (n := rest.length + 1) hheld htransient (by omega)
        fun h₁ hadds hstill _ => ?_
      refine obeys_plain (.delay d) rfl (hheld.of_subset hadds.subset) fun _ => ?_
      have hwaited := hadds.trans
        (Adds.quiet i (d := (⟨⟨.delay d, v⟩, some ()⟩ : SeriesDone P)) rfl rfl)
      have hlt := hwaited.count
      refine (ih (attempt + 1) (hheld.of_subset hwaited.subset) (hpend.of_subset hwaited.subset)
        (hstill.cons_none rfl) (by omega)).mono ?_
      rintro h' x ⟨r, rfl, hsent⟩
      exact ⟨r, rfl, (hwaited.trans hsent.adds).mono (by omega), hsent.vars, hsent.transient⟩

end OneFile

/-! ### The loops -/

/-- The invariant of the main loop; `M` bounds the uploads of each file. -/
structure SeriesInv (S : AlbumSendSeries P) (M : ℕ → ℕ) (h : List (SeriesDone P))
    (v : SeriesVars P) : Prop where
  length : v.outcomes.length = S.count
  next_le : v.next ≤ S.count
  outcome : ∀ j, j < v.next → v.outcomes[j]? = some (some (toldOutcome h j))
  unbegun : ∀ j, v.next ≤ j → toldOutcome h j = .notStarted ∨ toldOutcome h j = .cancelled
  pending : ∀ e ∈ v.pendingRetry, e.1 < v.next ∧ OnlyTransient h e.1
  keyed : Assoc.Keyed v.pendingRetry
  fresh : ∀ j, v.next ≤ j → uploadCount h j = 0
  held : HeldBelow S h v
  count : ∀ j, uploadCount h j ≤ M j

section Loops

variable {S : AlbumSendSeries P} {M M' : ℕ → ℕ} {h h' : List (SeriesDone P)} {v v' : SeriesVars P}
  {i n : ℕ} {p : P}

/-- Calls about no file. -/
theorem SeriesInv.quiet (hinv : SeriesInv S M h v) (hadds : ∀ j, Adds j 0 h h') :
    SeriesInv S M h' v where
  length := hinv.length
  next_le := hinv.next_le
  outcome j hj := by
    rw [(hadds (j + 1)).told j (Nat.ne_of_lt (Nat.lt_succ_self _))]
    exact hinv.outcome j hj
  unbegun j hj := by
    rw [(hadds (j + 1)).told j (Nat.ne_of_lt (Nat.lt_succ_self _))]
    exact hinv.unbegun j hj
  pending e he := ⟨(hinv.pending e he).1,
    ((hadds (e.1 + 1)).other e.1 (Nat.ne_of_lt (Nat.lt_succ_self _))).2 (hinv.pending e he).2⟩
  keyed := hinv.keyed
  fresh j hj := Nat.le_zero.1 ((hadds j).count.trans (hinv.fresh j hj).le)
  held := hinv.held.of_subset (hadds 0).subset
  count j := (hadds j).count.trans (hinv.count j)

/-- A file that has not begun is asked about. -/
theorem SeriesInv.asked (hinv : SeriesInv S M h v) (hi : v.next ≤ i) (u : SeriesVars P)
    (cancelled : Bool) : SeriesInv S M (⟨⟨.isCancelled i, u⟩, some cancelled⟩ :: h) v := by
  have hadds : Adds i 0 h (⟨⟨.isCancelled i, u⟩, some cancelled⟩ :: h) := Adds.quiet i rfl rfl
  have hbefore : ∀ j, j < v.next → j ≠ i := fun j hj heq => absurd (heq ▸ hj) (Nat.not_lt.2 hi)
  refine ⟨hinv.length, hinv.next_le, fun j hj => ?_, fun j hj => ?_, fun e he => ?_, hinv.keyed,
    fun j hj => ?_, hinv.held.of_subset hadds.subset, fun j => ?_⟩
  · rw [hadds.told j (hbefore j hj)]
    exact hinv.outcome j hj
  · by_cases hji : j = i
    · subst hji
      cases cancelled with
      | true => exact .inr (toldOutcome_about rfl)
      | false => exact .inl (toldOutcome_unbegun (hinv.unbegun j hj) u)
    · rw [hadds.told j hji]
      exact hinv.unbegun j hj
  · obtain ⟨hlt, ht⟩ := hinv.pending e he
    exact ⟨hlt, ht.cons_none rfl⟩
  · exact (uploadCount_of_none rfl j).trans (hinv.fresh j hj)
  · exact (uploadCount_of_none rfl j).le.trans (hinv.count j)

/-- A file that was dealt with. -/
theorem SeriesInv.update (hinv : SeriesInv S M h v) (hadds : Adds i n h h')
    (hout : v'.outcomes = v.outcomes.set i (some (toldOutcome h' i))) (hi : i < v'.next)
    (hnext : v'.next ≤ S.count ∧ v.next ≤ v'.next ∧ ∀ j, j < v'.next → j ≠ i → j < v.next)
    (hkeyed : Assoc.Keyed v'.pendingRetry)
    (hpend : ∀ e ∈ v'.pendingRetry,
      e.1 ≠ i ∧ e ∈ v.pendingRetry ∨ e.1 = i ∧ OnlyTransient h' i)
    (hheld : HeldBelow S h' v') (hM : ∀ j, j ≠ i → M j ≤ M' j) (hMi : uploadCount h' i ≤ M' i) :
    SeriesInv S M' h' v' where
  length := by rw [hout, List.length_set, hinv.length]
  next_le := hnext.1
  outcome j hj := by
    rw [hout]
    by_cases hji : j = i
    · subst hji
      have hlen : j < v.outcomes.length := hinv.length ▸ lt_of_lt_of_le hj hnext.1
      exact List.getElem?_set_self hlen
    · rw [List.getElem?_set_ne (Ne.symm hji), hadds.told j hji]
      exact hinv.outcome j (hnext.2.2 j hj hji)
  unbegun j hj := by
    have hne : j ≠ i := fun heq => absurd (heq ▸ hi) (Nat.not_lt.2 hj)
    rw [hadds.told j hne]
    exact hinv.unbegun j (hnext.2.1.trans hj)
  pending e he := by
    rcases hpend e he with ⟨hne, hold⟩ | ⟨rfl, ht⟩
    · obtain ⟨hlt, ht⟩ := hinv.pending e hold
      exact ⟨lt_of_lt_of_le hlt hnext.2.1, (hadds.other e.1 hne).2 ht⟩
    · exact ⟨hi, ht⟩
  keyed := hkeyed
  fresh j hj := by
    have hne : j ≠ i := fun heq => absurd (heq ▸ hi) (Nat.not_lt.2 hj)
    rw [(hadds.other j hne).1]
    exact hinv.fresh j (hnext.2.1.trans hj)
  held := hheld
  count j := by
    by_cases hji : j = i
    · subst hji
      exact hMi
    · rw [(hadds.other j hji).1]
      exact (hinv.count j).trans (hM j hji)

/-- What is pending after a file was sent. -/
theorem pending_of_sent {o : SeriesItemOutcome} {ok : Option Bool}
    (hv : v' = if ok = some false then (v.setOutcome i o).pend i p else (v.setOutcome i o).unpend i)
    (hkeyed : Assoc.Keyed v.pendingRetry) (ht : ok = some false → OnlyTransient h' i) :
    Assoc.Keyed v'.pendingRetry ∧
      (∀ e ∈ v'.pendingRetry, e.1 ≠ i ∧ e ∈ v.pendingRetry ∨ e.1 = i ∧ OnlyTransient h' i) ∧
      ∀ k, k ≠ i → v'.pendingRetry.get? k = v.pendingRetry.get? k := by
  subst hv
  split
  · rename_i hok
    refine ⟨hkeyed.set i p, fun e he => ?_, fun k hk => Assoc.get?_set_of_ne _ _ hk⟩
    by_cases hne : e.1 = i
    · exact .inr ⟨hne, ht hok⟩
    · rcases Assoc.mem_set he with rfl | hold
      · exact absurd rfl hne
      · exact .inl ⟨hne, hold⟩
  · refine ⟨hkeyed.erase i, fun e he => ?_, fun k hk => ?_⟩
    · obtain ⟨hold, hne⟩ := List.mem_filter.1 he
      exact .inl ⟨of_decide_eq_true hne, hold⟩
    · exact (Assoc.get?_erase _ _ _).trans (if_neg hk)

/-- What is held after a file was sent. -/
theorem held_of_sent {o : SeriesItemOutcome} {ok : Option Bool}
    (hv : v' = if ok = some false then (v.setOutcome i o).pend i p else (v.setOutcome i o).unpend i)
    (hheld : HeldBelow S h v) (hpend : HeldBelow S h (v.pend i p)) : HeldBelow S h v' := by
  subst hv
  split
  · exact hpend
  · exact hheld.unpend i o

/-- The invariant does not read the streak and the rounds. -/
theorem SeriesInv.withCounters (hinv : SeriesInv S M h v) (streak rounds : ℕ) :
    SeriesInv S M h { v with streak := streak, rounds := rounds } :=
  ⟨hinv.length, hinv.next_le, hinv.outcome, hinv.unbegun, hinv.pending, hinv.keyed, hinv.fresh,
    hinv.held, hinv.count⟩

theorem SeriesInv.mono (hinv : SeriesInv S M h v) (hM : ∀ j, M j ≤ M' j) : SeriesInv S M' h v :=
  { hinv with count := fun j => (hinv.count j).trans (hM j) }

theorem SeriesInv.countStreak (hinv : SeriesInv S M h v) (i : ℕ) (ok : Option Bool) :
    SeriesInv S M h (AlbumSendSeries.countStreak i ok v) ∧
      (AlbumSendSeries.countStreak i ok v).rounds = v.rounds := by
  unfold AlbumSendSeries.countStreak
  split
  · exact ⟨hinv.withCounters _ _, rfl⟩
  · split
    · exact ⟨hinv.withCounters _ _, rfl⟩
    · exact ⟨hinv, rfl⟩

/-- The file that begins gets an outcome. -/
theorem SeriesInv.settle (hinv : SeriesInv S M h v) (hlt : v.next < S.count)
    (hadds : Adds v.next 0 h h') {o : SeriesItemOutcome} (htold : toldOutcome h' v.next = o) :
    SeriesInv S M h' (SeriesVars.setOutcome { v with next := v.next + 1 } v.next o) := by
  subst htold
  refine hinv.update hadds rfl (Nat.lt_succ_self _)
    ⟨hlt, Nat.le_succ _, fun j hj hne => Nat.lt_of_le_of_ne (Nat.le_of_lt_succ hj) hne⟩ hinv.keyed
    (fun e he => ?_) (hinv.held.of_subset hadds.subset) (fun _ _ => le_refl _)
    (hadds.count.trans (hinv.count _))
  exact .inl ⟨Nat.ne_of_lt (hinv.pending e he).1, he⟩

/-- A callback, and then the variables are returned. -/
theorem settled_of_notify {notice : SeriesNotice} {r : ℕ} (hinv : SeriesInv S M h v)
    (hr : v.rounds = r) :
    Obeys Answered (SeriesLaw S)
      (fun h' x => ∃ v', x = some v' ∧ SeriesInv S M h' v' ∧ v'.rounds = r) h
      (v.notify notice >>= fun _ => pure v) := by
  refine obeys_plain (.notify notice) rfl hinv.held fun _ => ⟨v, rfl, ?_, hr⟩
  exact hinv.quiet fun j => Adds.quiet j rfl rfl

/-- **The next file begins.** -/
theorem processNext_spec (hinv : SeriesInv S M h v) (hlt : v.next < S.count)
    (hopen : ¬S.breakerOpen v) (hM : ∀ j, S.maxAttempts ≤ M j) :
    Obeys Answered (SeriesLaw S)
      (fun h' x => ∃ v', x = some v' ∧ SeriesInv S M h' v' ∧ v'.rounds = v.rounds) h
      (S.processNext v.next { v with next := v.next + 1 }) := by
  have hheld : HeldBelow S h { v with next := v.next + 1 } := hinv.held
  refine obeys_plain (.isCancelled v.next) rfl hheld fun cancelled => ?_
  have hasked : Adds v.next 0 h
      (⟨⟨.isCancelled v.next, { v with next := v.next + 1 }⟩, some cancelled⟩ :: h) :=
    Adds.quiet _ rfl rfl
  cases cancelled with
  | true => exact settled_of_notify (hinv.settle hlt hasked (toldOutcome_about rfl)) rfl
  | false =>
      refine obeys_call (.prepare v.next) ⟨hheld.of_subset hasked.subset, nofun, fun _ _ => hopen⟩
        fun ans => ?_
      have hprepared := hasked.trans (Adds.quiet v.next (d := (⟨⟨.prepare v.next,
        { v with next := v.next + 1 }⟩, some ans⟩ : SeriesDone P)) rfl rfl)
      cases ans with
      | none =>
          refine obeys_plain (.isCancelled v.next) rfl (hheld.of_subset hprepared.subset)
            fun cancelled => ?_
          have hasked' := hprepared.trans (Adds.quiet v.next (d := (⟨⟨.isCancelled v.next,
            { v with next := v.next + 1 }⟩, some cancelled⟩ : SeriesDone P)) rfl rfl)
          cases cancelled with
          | true => exact settled_of_notify (hinv.settle hlt hasked' (toldOutcome_about rfl)) rfl
          | false =>
              refine settled_of_notify (hinv.settle hlt hasked' (o := .failedPrepare) ?_) rfl
              rw [toldOutcome_about rfl, toldOutcome_about rfl]
              rfl
      | some p =>
          -- the breaker was closed, so what is held grows by this file at most
          have hpend : HeldBelow S
              (⟨⟨.prepare v.next, { v with next := v.next + 1 }⟩, some (some p)⟩ ::
                ⟨⟨.isCancelled v.next, { v with next := v.next + 1 }⟩, some false⟩ :: h)
              (SeriesVars.pend { v with next := v.next + 1 } v.next p) := by
            intro B hB
            have hsize : S.sizeOf p ≤ B := hB _ List.mem_cons_self p rfl
            have hgrow := heldBytes_pend S { v with next := v.next + 1 } v.next p
            have hbefore : S.heldBytes v < S.breakerHeldBytes :=
              Nat.lt_of_not_le fun hle => hopen (.inr hle)
            have hsame : S.heldBytes { v with next := v.next + 1 } = S.heldBytes v := rfl
            omega
          have hcount := hprepared.count
          have hfresh := hinv.fresh v.next (le_refl _)
          have hmax : S.maxAttempts ≤ S.maxAttempts * (1 + S.maxWaitRounds) :=
            Nat.le_mul_of_pos_right _ (by omega)
          refine Obeys.bind (sendWithRetries_spec S.retryDelays 1 (hheld.of_subset hprepared.subset)
            hpend (onlyTransient_of_count (by omega)) ?_) ?_ ?_
          · have : S.retryDelays.length + 1 = S.maxAttempts := rfl
            omega
          · rintro h' r ⟨_, ⟨rfl⟩, hsent⟩
            have hvars := hsent.vars
            have hkept := pending_of_sent hvars hinv.keyed hsent.transient
            have hadds := hprepared.trans hsent.adds
            have hall := held_of_sent hvars ((hheld.of_subset hprepared.subset).of_subset
              hsent.adds.subset) (hpend.of_subset hsent.adds.subset)
            have hinv' : SeriesInv S M h' r.2 := by
              refine hinv.update hadds ?_ ?_ ?_ hkept.1 hkept.2.1 hall
                (fun _ _ => le_refl _) ?_
              · rw [hvars]
                split <;> rfl
              · rw [hvars]
                split <;> exact Nat.lt_succ_self _
              · have hnext : r.2.next = v.next + 1 := by
                  rw [hvars]
                  split <;> rfl
                rw [hnext]
                exact ⟨hlt, Nat.le_succ _,
                  fun j hj hne => Nat.lt_of_le_of_ne (Nat.le_of_lt_succ hj) hne⟩
              · have hle := hadds.count
                have hMi := hM v.next
                have : S.retryDelays.length + 1 = S.maxAttempts := rfl
                omega
            have hrounds : r.2.rounds = v.rounds := by
              rw [hvars]
              split <;> rfl
            obtain ⟨hcounted, hsame⟩ := hinv'.countStreak v.next r.1
            exact ⟨_, rfl, hcounted, hsame.trans hrounds⟩
          · rintro h' ⟨_, ⟨⟩, -⟩

theorem processQueue_spec (n : ℕ) (hinv : SeriesInv S M h v) (hM : ∀ j, S.maxAttempts ≤ M j) :
    Obeys Answered (SeriesLaw S)
      (fun h' x => ∃ v', x = some v' ∧ SeriesInv S M h' v' ∧ v'.rounds = v.rounds) h
      (S.processQueue n v) := by
  induction n generalizing h v with
  | zero => exact ⟨v, rfl, hinv, rfl⟩
  | succ n ih =>
      unfold AlbumSendSeries.processQueue
      split
      · rename_i hgo
        refine Obeys.bind (processNext_spec hinv hgo.1 hgo.2 hM) ?_ ?_
        · rintro h' u ⟨_, ⟨rfl⟩, hinv', hrounds⟩
          rw [← hrounds]
          exact ih hinv'
        · rintro h' ⟨_, ⟨⟩, -⟩
      · exact ⟨v, rfl, hinv, rfl⟩

theorem notCancelled_spec (js : List ℕ) (hjs : ∀ j ∈ js, v.next ≤ j) (hinv : SeriesInv S M h v) :
    Obeys Answered (SeriesLaw S) (fun h' x => ∃ l, x = some l ∧ SeriesInv S M h' v) h
      (AlbumSendSeries.notCancelled v js) := by
  induction js generalizing h with
  | nil => exact ⟨[], rfl, hinv⟩
  | cons j js ih =>
      refine obeys_plain (.isCancelled j) rfl hinv.held fun cancelled => ?_
      have hasked := hinv.asked (hjs j List.mem_cons_self) v cancelled
      refine Obeys.bind (ih (fun k hk => hjs k (List.mem_cons_of_mem _ hk)) hasked) ?_ ?_
      · rintro h' l ⟨_, ⟨rfl⟩, hinv'⟩
        exact ⟨_, rfl, hinv'⟩
      · rintro h' ⟨_, ⟨⟩, -⟩

theorem sendQueue_spec (hinv : SeriesInv S M h v) (hM : ∀ j, S.maxAttempts ≤ M j) :
    Obeys Answered (SeriesLaw S)
      (fun h' x => ∃ r, x = some r ∧ SeriesInv S M h' r.2 ∧ r.2.rounds = v.rounds) h
      (S.sendQueue v) := by
  refine Obeys.bind (processQueue_spec _ hinv hM) ?_ ?_
  · rintro h' u ⟨_, ⟨rfl⟩, hinv', hrounds⟩
    refine Obeys.bind (notCancelled_spec _ (fun j hj => (List.mem_range'_1.1 hj).1) hinv') ?_ ?_
    · rintro h'' l ⟨_, ⟨rfl⟩, hinv''⟩
      exact ⟨_, rfl, hinv'', hrounds⟩
    · rintro h'' ⟨_, ⟨⟩, -⟩
  · rintro h' ⟨_, ⟨⟩, -⟩

/-- **The files that failed are sent again**, each of those that are left with `maxAttempts` uploads
more. -/
theorem resend_spec {K : ℕ} (ks : List ℕ) (hnodup : ks.Nodup)
    (hthere : ∀ k ∈ ks, (v.pendingRetry.get? k).isSome = true)
    (hinv : SeriesInv S (fun j => if j ∈ ks then K else K + S.maxAttempts) h v)
    (hK : K + S.maxAttempts ≤ S.maxAttempts * (1 + S.maxWaitRounds)) :
    Obeys Answered (SeriesLaw S)
      (fun h' x => ∃ v', x = some v' ∧ SeriesInv S (fun _ => K + S.maxAttempts) h' v' ∧
        v'.rounds = v.rounds) h
      (S.resend ks v) := by
  induction ks generalizing h v with
  | nil => exact ⟨v, rfl, by simpa using hinv, rfl⟩
  | cons k ks ih =>
      obtain ⟨p, hp⟩ := Option.isSome_iff_exists.1 (hthere k List.mem_cons_self)
      have hmem := Assoc.mem_of_get? hp
      obtain ⟨hlt, htransient⟩ := hinv.pending _ hmem
      have hpend : HeldBelow S h (v.pend k p) := by
        have hsame : v.pend k p = v := by
          unfold SeriesVars.pend
          rw [Assoc.set_of_get? hp]
        exact hsame.symm ▸ hinv.held
      have hcount := hinv.count k
      simp only [List.mem_cons, true_or, if_true] at hcount
      have hmax : S.retryDelays.length + 1 = S.maxAttempts := rfl
      unfold AlbumSendSeries.resend
      rw [hp]
      refine Obeys.bind (sendWithRetries_spec S.retryDelays 1 hinv.held hpend htransient (by omega))
        ?_ ?_
      · rintro h' r ⟨_, ⟨rfl⟩, hsent⟩
        have hvars := hsent.vars
        obtain ⟨hkeyed, hitems, hothers⟩ := pending_of_sent hvars hinv.keyed hsent.transient
        have hheld := held_of_sent hvars (hinv.held.of_subset hsent.adds.subset)
          (hpend.of_subset hsent.adds.subset)
        have hsame : r.2.next = v.next ∧ r.2.rounds = v.rounds ∧
            r.2.outcomes = v.outcomes.set k (some (toldOutcome h' k)) := by
          rw [hvars]
          split <;> exact ⟨rfl, rfl, rfl⟩
        have hinv' : SeriesInv S (fun j => if j ∈ ks then K else K + S.maxAttempts) h' r.2 := by
          refine hinv.update hsent.adds hsame.2.2 (hsame.1 ▸ hlt)
            ⟨hsame.1 ▸ hinv.next_le, hsame.1.ge, fun j hj _ => hsame.1 ▸ hj⟩ hkeyed hitems hheld
            (fun j hj => ?_) ?_
          · simp only [List.mem_cons, hj, false_or]
            exact le_refl _
          · rw [if_neg (List.nodup_cons.1 hnodup).1]
            have := hsent.adds.count
            omega
        have hleft : ∀ j ∈ ks, (r.2.pendingRetry.get? j).isSome = true := by
          intro j hj
          have hne : j ≠ k := fun heq => (List.nodup_cons.1 hnodup).1 (heq ▸ hj)
          rw [hothers j hne]
          exact hthere j (List.mem_cons_of_mem _ hj)
        rw [← hsame.2.1]
        dsimp only
        split
        · exact ih (v := { r.2 with streak := r.2.streak + 1 }) (List.nodup_cons.1 hnodup).2 hleft
            (hinv'.withCounters _ _)
        · exact ih (List.nodup_cons.1 hnodup).2 hleft hinv'
      · rintro h' ⟨_, ⟨⟩, -⟩

/-- **The main loop**, with `n` rounds left. -/
theorem mainLoop_spec (n : ℕ)
    (hinv : SeriesInv S (fun _ => S.maxAttempts * (1 + v.rounds)) h v)
    (hrounds : v.rounds + n ≤ S.maxWaitRounds) :
    Obeys Answered (SeriesLaw S)
      (fun h' x => ∃ v' M', x = some v' ∧ SeriesInv S M' h' v') h (S.mainLoop n v) := by
  induction n generalizing h v with
  | zero =>
      refine Obeys.bind (sendQueue_spec hinv fun _ => Nat.le_mul_of_pos_right _ (by omega)) ?_ ?_
      · rintro h' r ⟨_, ⟨rfl⟩, hinv', -⟩
        exact ⟨_, _, rfl, hinv'⟩
      · rintro h' ⟨_, ⟨⟩, -⟩
  | succ n ih =>
      refine Obeys.bind (sendQueue_spec hinv fun _ => Nat.le_mul_of_pos_right _ (by omega)) ?_ ?_
      · rintro h' r ⟨_, ⟨rfl⟩, hinv', hsame⟩
        dsimp only
        split
        · exact ⟨_, _, rfl, hinv'⟩
        refine obeys_plain (.notify (.onWaiting r.1)) rfl hinv'.held fun _ => ?_
        have htold : SeriesInv S _ (⟨⟨.notify (.onWaiting r.1),
            { r.2 with rounds := r.2.rounds + 1 }⟩, some ()⟩ :: h') r.2 :=
          hinv'.quiet fun j => Adds.quiet j rfl rfl
        refine obeys_plain .waitForReconnect rfl htold.held fun back => ?_
        have hwaited : SeriesInv S _ (⟨⟨.waitForReconnect,
            { r.2 with rounds := r.2.rounds + 1 }⟩, some back⟩ :: _ :: h') r.2 :=
          htold.quiet fun j => Adds.quiet j rfl rfl
        cases back with
        | false => exact ⟨_, _, rfl, hwaited.withCounters _ _⟩
        | true =>
            have hperm :=
              List.mergeSort_perm (r.2.pendingRetry.map Prod.fst) (fun a b => decide (a ≤ b))
            have hmore : S.maxAttempts * (1 + v.rounds) + S.maxAttempts =
                S.maxAttempts * (1 + (v.rounds + 1)) := (Nat.mul_succ _ _).symm
            refine Obeys.bind (resend_spec (K := S.maxAttempts * (1 + v.rounds)) _
              (hperm.nodup_iff.2 hwaited.keyed) (fun k hk => ?_)
              ((hwaited.withCounters 0 (r.2.rounds + 1)).mono fun j => ?_) ?_) ?_ ?_
            · obtain ⟨⟨l, p⟩, he, rfl⟩ := List.mem_map.1 (hperm.mem_iff.1 hk)
              rw [hwaited.keyed.get?_of_mem he]
              rfl
            · split <;> omega
            · rw [hmore]
              exact Nat.mul_le_mul_left _ (by omega)
            · rintro h'' u ⟨_, ⟨rfl⟩, hinv'', hu⟩
              have hur : u.rounds = v.rounds + 1 := by
                rw [hu, hsame]
              refine ih (hinv''.mono fun j => ?_) (by omega)
              rw [hur]
              exact hmore.le
            · rintro h'' ⟨_, ⟨⟩, -⟩
      · rintro h' ⟨_, ⟨⟩, -⟩

/-- The files `js` are still to be given up; the others have the outcome that the answers tell. -/
structure GivingUp (S : AlbumSendSeries P) (js : List ℕ) (h : List (SeriesDone P))
    (v : SeriesVars P) : Prop where
  held : HeldBelow S h v
  length : v.outcomes.length = S.count
  nodup : js.Nodup
  unbegun : ∀ j ∈ js, toldOutcome h j = .notStarted ∨ toldOutcome h j = .cancelled
  outcome : ∀ j, j < S.count → j ∉ js → v.outcomes[j]? = some (some (toldOutcome h j))

/-- One of them gets its outcome. -/
theorem GivingUp.settle {k : ℕ} {js : List ℕ} {o : SeriesItemOutcome}
    (hg : GivingUp S (k :: js) h v) (hadds : Adds k 0 h h') (htold : toldOutcome h' k = o) :
    GivingUp S js h' (v.setOutcome k o) := by
  obtain ⟨hk, hjs⟩ := List.nodup_cons.1 hg.nodup
  refine ⟨hg.held.of_subset hadds.subset, (List.length_set ..).trans hg.length, hjs,
    fun j hj => ?_, fun j hj hnot => ?_⟩
  · rw [hadds.told j fun heq => hk (heq ▸ hj)]
    exact hg.unbegun j (List.mem_cons_of_mem _ hj)
  · change (v.outcomes.set k (some o))[j]? = _
    by_cases hjk : j = k
    · subst hjk
      rw [List.getElem?_set_self (hg.length ▸ hj), htold]
    · rw [List.getElem?_set_ne (Ne.symm hjk), hadds.told j hjk]
      exact hg.outcome j hj (by simp [hjk, hnot])

/-- The files that the series gave up get an outcome, too. -/
theorem giveUp_spec (js : List ℕ) (hg : GivingUp S js h v) :
    Obeys Answered (SeriesLaw S) (fun h' x => ∃ v', x = some v' ∧ GivingUp S [] h' v') h
      (AlbumSendSeries.giveUp js v) := by
  induction js generalizing h v with
  | nil => exact ⟨v, rfl, hg⟩
  | cons k js ih =>
      refine obeys_plain (.isCancelled k) rfl hg.held fun cancelled => ?_
      have hasked : Adds k 0 h (⟨⟨.isCancelled k, v⟩, some cancelled⟩ :: h) := Adds.quiet k rfl rfl
      cases cancelled with
      | true =>
          have htold : toldOutcome (⟨⟨.isCancelled k, v⟩, some true⟩ :: h) k = .cancelled :=
            toldOutcome_about rfl
          have hsettled := hg.settle hasked htold
          refine obeys_plain (.notify (.onCancelled k)) (v := v.setOutcome k .cancelled) rfl
            hsettled.held fun _ => ih ?_
          exact ⟨hsettled.held.of_subset (Adds.quiet (i := k) rfl rfl).subset, hsettled.length,
            hsettled.nodup, hsettled.unbegun, hsettled.outcome⟩
      | false =>
          have htold := toldOutcome_unbegun (hg.unbegun k List.mem_cons_self) v
          exact ih (hg.settle hasked htold)

theorem mapM_id_of_some {l : List (Option SeriesItemOutcome)}
    (h : ∀ j, j < l.length → ∃ o, l[j]? = some (some o)) : ∃ l', l.mapM id = some l' := by
  induction l with
  | nil => exact ⟨[], rfl⟩
  | cons a rest ih =>
      obtain ⟨o, ho⟩ := h 0 (Nat.zero_lt_succ _)
      obtain rfl : a = some o := Option.some.inj ho
      obtain ⟨l', hl'⟩ := ih fun j hj => h (j + 1) (Nat.succ_lt_succ hj)
      exact ⟨o :: l', by simp [List.mapM_cons, hl']⟩

/-- Where every file has an outcome, these are the outcomes. -/
theorem eq_map_of_mapM_id {l : List (Option SeriesItemOutcome)} {l' : List SeriesItemOutcome}
    (hl : l.mapM id = some l') : l = l'.map some := by
  induction l generalizing l' with
  | nil =>
      cases hl
      rfl
  | cons o l ih =>
      rw [List.mapM_cons] at hl
      cases o with
      | none => cases hl
      | some o =>
          cases hrest : l.mapM id with
          | none =>
              rw [hrest] at hl
              cases hl
          | some rest =>
              rw [hrest] at hl
              cases hl
              rw [ih hrest]
              rfl

end Loops

/-- The whole of `run`. -/
theorem run_spec (S : AlbumSendSeries P) :
    Obeys Answered (SeriesLaw S)
      (fun h r => ∃ outcomes, r = some outcomes ∧ outcomes.length = S.count ∧
        ∀ i, i < S.count → outcomes[i]? = some (toldOutcome h i)) [] S.run := by
  have hstart : SeriesInv S (fun _ => S.maxAttempts * (1 + S.initialVars.rounds)) []
      S.initialVars := by
    refine ⟨List.length_replicate, Nat.zero_le _, fun j hj => absurd hj (Nat.not_lt_zero j),
      fun _ _ => .inl rfl, fun e he => ?_, List.nodup_nil, fun _ _ => rfl,
      fun B _ => Nat.zero_le _, fun _ => Nat.zero_le _⟩
    cases he
  refine Obeys.bind (mainLoop_spec S.maxWaitRounds hstart (Nat.zero_add _).le) ?_ ?_
  · rintro h v ⟨_, M, ⟨rfl⟩, hinv⟩
    have hgiving : GivingUp S (S.queue v) h v := by
      refine ⟨hinv.held, hinv.length, List.nodup_range', fun j hj => ?_, fun j hj hnot => ?_⟩
      · exact hinv.unbegun j (List.mem_range'_1.1 hj).1
      · refine hinv.outcome j (Nat.lt_of_not_le fun hle => hnot ?_)
        exact List.mem_range'_1.2 ⟨hle, by omega⟩
    refine Obeys.bind (giveUp_spec (S.queue v) hgiving) ?_ ?_
    · rintro h' v' ⟨_, ⟨rfl⟩, hg⟩
      have hall : ∀ j, j < S.count → v'.outcomes[j]? = some (some (toldOutcome h' j)) :=
        fun j hj => hg.outcome j hj List.not_mem_nil
      obtain ⟨l, hl⟩ := mapM_id_of_some fun j hj => ⟨_, hall j (hg.length ▸ hj)⟩
      have hmap := eq_map_of_mapM_id hl
      have hlen : l.length = S.count := by
        rw [← hg.length, hmap, List.length_map]
      rw [hl]
      refine ⟨l, rfl, hlen, fun i hi => ?_⟩
      have houtcome := hall i hi
      rw [hmap, List.getElem?_map] at houtcome
      obtain ⟨o, ho, hsome⟩ := Option.map_eq_some_iff.1 houtcome
      rw [ho, Option.some.inj hsome]
    · rintro h' ⟨_, ⟨⟩, -⟩
  · rintro h ⟨_, _, ⟨⟩, -⟩

/-- **Every file is accounted for.**  Whatever the calls answer, the series ends with one outcome
for each file, the one that the last answer about it tells: sent where its upload was done, and so
on.  On the way a file is uploaded only where all its uploads before failed on the network and it
was not cancelled, at most `maxAttempts * (1 + maxWaitRounds)` times; no file is prepared while the
breaker is open; and what is held for another round exceeds the limit by one file at most. -/
theorem series_accounting (S : AlbumSendSeries P) :
    Obeys Answered (SeriesLaw S)
      (fun h r => ∃ outcomes, r = some outcomes ∧ outcomes.length = S.count ∧
        ∀ i, i < S.count → outcomes[i]? = some (toldOutcome h i)) [] S.run := run_spec S

end Client
end Liza
