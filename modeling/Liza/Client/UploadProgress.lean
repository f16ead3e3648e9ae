/-
# The progress of an upload

`UploadProgressTracker` of `clients/flutter/lib/utils/upload_progress_tracker.dart`, as far as the
progress and the phase of an upload go.  A phase has a scale of its own: the progress goes back to 0
when the phase changes, and within a phase it is to go forward only.

Compression reports through `reportCompressProgress`, which leaves out what would go back.  The
bytes that are sent are reported through `reportActiveProgress`, which does not: when the SDK sends
a file again from its first byte, and when the active id is that of a file in another phase, the
progress goes back.  It never does in a run exactly when no report of bytes tells less than what was
reported in its stage before (`steady_iff_forward`).

A `double` is the rational number that it stands for, and an operation is rounded by some
`Rounding`.  `clamp` puts an infinite percent, and NaN, which is above every number for it, where it
puts -1 and 101.
-/

import Liza.Client.AlbumSeries
import Liza.Lib.Rounding
import Mathlib.Algebra.Order.Field.Basic
import Mathlib.Algebra.Order.Field.Rat
import Mathlib.Logic.Function.Basic
import Mathlib.Tactic.Linarith

set_option autoImplicit false

namespace Liza
namespace Client
namespace UploadProgress

open Lib (Rounding)

/-- A transaction id. -/
abbrev Txid := String

/-- `UploadPhase`. -/
inductive UploadPhase where
  | preparing
  | compressing
  | uploading
  | waitingNetwork
deriving DecidableEq

/-- `UploadProgressTracker`; a `ValueNotifier` is its value. -/
structure Tracker where
  notifiers : Txid → Option ℚ
  phases : Txid → Option UploadPhase
  realProgressTxids : Txid → Bool
  cancelledTxids : Txid → Bool
  errorReasons : Txid → Option String
  errorKinds : Txid → Option UploadErrorKind
  activeTxid : Option Txid

/-- A call. -/
inductive Call where
  | register (txid : Txid)
  | reportPhase (txid : Txid) (phase : UploadPhase)
  | reportCompressProgress (txid : Txid) (percent : ℚ)
  | unregister (txid : Txid)
  | markActive (txid : Option Txid)
  | reportActiveProgress (sent total : ℤ)

/-- `Map.putIfAbsent`. -/
def putIfAbsent {α : Type} (m : Txid → Option α) (k : Txid) (v : α) : Txid → Option α :=
  if (m k).isSome then m else Function.update m k (some v)

/-- `x.clamp(lo, hi)`. -/
def clamp (x lo hi : ℚ) : ℚ := if x < lo then lo else if hi < x then hi else x

/-- What is reported of an upload. -/
inductive Report where
  | compressed (percent : ℚ)
  | sent (bytes total : ℤ)

/-- `sent / total`, whose arguments become doubles first. -/
def quotient (R : Rounding) (sent total : ℤ) : ℚ := R.round (R.round sent / R.round total)

/-- `0.99`. -/
def cap (R : Rounding) : ℚ := R.round (99 / 100)

/-- The part of the whole that a report tells, as far as it may show it. -/
def Report.part (R : Rounding) : Report → ℚ
  | .compressed percent => min (R.round (percent / 100)) 1
  | .sent bytes total => min (quotient R bytes total) (cap R)

namespace Tracker

variable (R : Rounding) (t : Tracker)

/-- `register`. -/
def register (txid : Txid) : Tracker :=
  { t with
    errorReasons := Function.update t.errorReasons txid none
    errorKinds := Function.update t.errorKinds txid none
    phases := putIfAbsent t.phases txid .preparing
    notifiers := putIfAbsent t.notifiers txid 0 }

/-- `reportPhase`. -/
def reportPhase (txid : Txid) (phase : UploadPhase) : Tracker :=
  match t.phases txid with
  | none => t
  | some p =>
      if p = phase then t
      else
        { t with
          phases := Function.update t.phases txid (some phase)
          notifiers := Function.update t.notifiers txid ((t.notifiers txid).map fun _ => 0) }

/-- `reportCompressProgress`. -/
def reportCompressProgress (txid : Txid) (percent : ℚ) : Tracker :=
  if t.phases txid ≠ some .compressing then t
  else match t.notifiers txid with
    | none => t
    | some v =>
        let value := clamp (R.round (percent / 100)) 0 1
        if value < v then t
        else { t with notifiers := Function.update t.notifiers txid (some value) }

/-- `unregister`. -/
def unregister (txid : Txid) : Tracker :=
  { t with
    notifiers := Function.update t.notifiers txid none
    phases := Function.update t.phases txid none
    realProgressTxids := Function.update t.realProgressTxids txid false
    cancelledTxids := Function.update t.cancelledTxids txid false
    activeTxid := if t.activeTxid = some txid then none else t.activeTxid }

/-- `reportActiveProgress`. -/
def reportActiveProgress (sent total : ℤ) : Tracker :=
  match t.activeTxid with
  | none => t
  | some txid =>
      if total ≤ 0 then t
      else match t.notifiers txid with
        | none => t
        | some _ =>
            { t with
              realProgressTxids := Function.update t.realProgressTxids txid true
              notifiers :=
                Function.update t.notifiers txid (some (clamp (quotient R sent total) 0 (cap R))) }

def step : Call → Tracker
  | .register txid => t.register txid
  | .reportPhase txid phase => t.reportPhase txid phase
  | .reportCompressProgress txid percent => t.reportCompressProgress R txid percent
  | .unregister txid => t.unregister txid
  | .markActive txid => { t with activeTxid := txid }
  | .reportActiveProgress sent total => t.reportActiveProgress R sent total

/-- The tracker after some calls. -/
def run (calls : List Call) : Tracker := calls.foldl (step R) t

/-- A call that begins a stage of `x`: `x` is registered or unregistered, or its phase changes. -/
def beginsStage (x : Txid) : Call → Bool
  | .register txid => txid = x ∧ t.notifiers x = none
  | .unregister txid => txid = x
  | .reportPhase txid phase => txid = x ∧ t.phases x ≠ none ∧ t.phases x ≠ some phase
  | _ => false

/-- None of the calls begins a stage of `x`. -/
def WithinStage (x : Txid) : Tracker → List Call → Prop
  | _, [] => True
  | t, c :: calls => t.beginsStage x c = false ∧ WithinStage x (t.step R c) calls

/-- What a call reports of the progress of `x`. -/
def report? (x : Txid) : Call → Option Report
  | .reportCompressProgress txid percent =>
      if txid = x ∧ t.phases x = some .compressing ∧ (t.notifiers x).isSome = true then
        some (.compressed percent)
      else none
  | .reportActiveProgress sent total =>
      if t.activeTxid = some x ∧ 0 < total ∧ (t.notifiers x).isSome = true then
        some (.sent sent total)
      else none
  | _ => none

/-- No upload is known. -/
def empty : Tracker :=
  ⟨fun _ => none, fun _ => none, fun _ => false, fun _ => false, fun _ => none, fun _ => none, none⟩

end Tracker

open Tracker

/-- **Progress never runs backwards within a stage**, and is a part of the whole. -/
structure Steady (R : Rounding) (calls : List Call) : Prop where
  forward : ∀ l₁ l₂ l₃, calls = l₁ ++ l₂ ++ l₃ → ∀ x v w,
    (empty.run R l₁).notifiers x = some v → (empty.run R (l₁ ++ l₂)).notifiers x = some w →
      WithinStage R x (empty.run R l₁) l₂ → v ≤ w
  range : ∀ l₁ l₂, calls = l₁ ++ l₂ → ∀ x v, (empty.run R l₁).notifiers x = some v → 0 ≤ v ∧ v ≤ 1

/-- A report of the bytes that are sent tells nothing, or no less than a report of the same upload
in the same stage that came before it. -/
def Forward (R : Rounding) (calls : List Call) : Prop :=
  ∀ l₁ a l₂ b l₃, calls = l₁ ++ a :: l₂ ++ b :: l₃ → ∀ x r sent total,
    (empty.run R l₁).report? x a = some r → WithinStage R x (empty.run R l₁) (a :: l₂) →
      (empty.run R (l₁ ++ a :: l₂)).report? x b = some (.sent sent total) →
        r.part R ≤ 0 ∨ r.part R ≤ Report.part R (.sent sent total)

/-! ### A call -/

section Step

variable {R : Rounding} {t : Tracker} {x : Txid} {v w : ℚ} {c : Call}

theorem clamp_eq {q hi : ℚ} (h : 0 ≤ hi) : clamp q 0 hi = max 0 (min q hi) := by
  unfold clamp
  split
  · rename_i hneg
    exact (max_eq_left ((min_le_left q hi).trans hneg.le)).symm
  split
  · rename_i hbig
    rw [min_eq_right hbig.le, max_eq_right h]
  · rename_i hlo hhi
    rw [min_eq_left (not_lt.1 hhi), max_eq_right (not_lt.1 hlo)]

theorem cap_nonneg (R : Rounding) : 0 ≤ cap R := Rounding.round_nonneg (by norm_num)

theorem cap_le_one (R : Rounding) : cap R ≤ 1 := Rounding.round_le_one (by norm_num)

theorem Report.part_le_one (r : Report) : r.part R ≤ 1 := by
  cases r with
  | compressed percent => exact min_le_right (R.round (percent / 100)) 1
  | sent bytes total => exact (min_le_right (quotient R bytes total) _).trans (cap_le_one R)

/-- A report of the bytes that are sent, as the progress of the active id. -/
theorem step_sent {sent total : ℤ} (h : t.report? x c = some (.sent sent total)) :
    (t.step R c).notifiers x = some (max 0 (Report.part R (.sent sent total))) := by
  cases c with
  | reportActiveProgress s n =>
      obtain ⟨⟨hactive, htotal, hsome⟩, heq⟩ := Option.ite_none_right_eq_some.1 h
      obtain ⟨rfl, rfl⟩ := Report.sent.inj (Option.some.inj heq)
      obtain ⟨v, hv⟩ := Option.isSome_iff_exists.1 hsome
      change (t.reportActiveProgress R s n).notifiers x = _
      simp only [Tracker.reportActiveProgress, hactive, hv, if_neg (not_le.2 htotal),
        Function.update_self, clamp_eq (cap_nonneg R)]
      rfl
  | reportCompressProgress y percent =>
      obtain ⟨-, heq⟩ := Option.ite_none_right_eq_some.1 h
      cases heq
  | _ => cases h

/-- **What a call does to the progress of `x`**: it begins a stage, keeps the progress, or reports
one. -/
theorem step_cases (h : (t.step R c).notifiers x = some w) :
    t.beginsStage x c = true ∧ w = 0 ∨ t.beginsStage x c = false ∧ (t.notifiers x = some w ∨
      ∃ r, t.report? x c = some r ∧ w = max 0 (r.part R)) := by
  have hother : ∀ {y : Txid} {o : Option ℚ}, x ≠ y → Function.update t.notifiers y o x = some w →
      t.notifiers x = some w := by
    intro y o hne h
    rwa [Function.update_of_ne hne] at h
  cases c with
  | register y =>
      change putIfAbsent t.notifiers y 0 x = some w at h
      by_cases hx : y = x
      · subst hx
        unfold putIfAbsent at h
        split at h
        · rename_i hsome
          exact .inr ⟨by simp [beginsStage, Option.isSome_iff_ne_none.1 hsome], .inl h⟩
        · rename_i hnone
          rw [Function.update_self] at h
          have hnone := Option.not_isSome_iff_eq_none.1 hnone
          exact .inl ⟨by simp [beginsStage, hnone], (Option.some.inj h).symm⟩
      · refine .inr ⟨by simp [beginsStage, hx], .inl ?_⟩
        unfold putIfAbsent at h
        split at h
        · exact h
        · exact hother (Ne.symm hx) h
  | reportPhase y phase =>
      change (t.reportPhase y phase).notifiers x = some w at h
      unfold Tracker.reportPhase at h
      split at h
      · rename_i hnone
        refine .inr ⟨decide_eq_false ?_, .inl h⟩
        rintro ⟨rfl, hsome, -⟩
        exact hsome hnone
      rename_i p hp
      split at h
      · rename_i hsame
        refine .inr ⟨decide_eq_false ?_, .inl h⟩
        rintro ⟨rfl, -, hne⟩
        exact hne (hsame ▸ hp)
      · rename_i hne
        by_cases hx : y = x
        · subst hx
          change Function.update t.notifiers y _ y = some w at h
          rw [Function.update_self] at h
          obtain ⟨_, -, rfl⟩ := Option.map_eq_some_iff.1 h
          exact .inl ⟨by simp [beginsStage, hp, hne], rfl⟩
        · exact .inr ⟨by simp [beginsStage, hx], .inl (hother (Ne.symm hx) h)⟩
  | reportCompressProgress y percent =>
      refine .inr ⟨rfl, ?_⟩
      change (t.reportCompressProgress R y percent).notifiers x = some w at h
      unfold Tracker.reportCompressProgress at h
      split at h
      · exact .inl h
      rename_i hphase
      split at h
      · exact .inl h
      rename_i v hv
      dsimp only at h
      split at h
      · exact .inl h
      by_cases hx : y = x
      · subst hx
        change Function.update t.notifiers y _ y = some w at h
        rw [Function.update_self, clamp_eq zero_le_one] at h
        refine .inr ⟨.compressed percent, if_pos ⟨rfl, not_not.1 hphase, ?_⟩,
          (Option.some.inj h).symm⟩
        rw [hv]
        rfl
      · exact .inl (hother (Ne.symm hx) h)
  | unregister y =>
      change Function.update t.notifiers y none x = some w at h
      by_cases hx : y = x
      · subst hx
        rw [Function.update_self] at h
        cases h
      · exact .inr ⟨by simp [beginsStage, hx], .inl (hother (Ne.symm hx) h)⟩
  | markActive y => exact .inr ⟨rfl, .inl h⟩
  | reportActiveProgress sent total =>
      refine .inr ⟨rfl, ?_⟩
      by_cases hreport : t.activeTxid = some x ∧ 0 < total ∧ (t.notifiers x).isSome = true
      · have hsent : t.report? x (.reportActiveProgress sent total) = some (.sent sent total) :=
          if_pos hreport
        rw [step_sent hsent] at h
        exact .inr ⟨_, hsent, (Option.some.inj h).symm⟩
      · refine .inl ?_
        change (t.reportActiveProgress R sent total).notifiers x = some w at h
        unfold Tracker.reportActiveProgress at h
        split at h
        · exact h
        rename_i y hy
        split at h
        · exact h
        rename_i htotal
        split at h
        · exact h
        rename_i v hv
        refine hother ?_ h
        rintro rfl
        exact hreport ⟨hy, not_le.1 htotal, by rw [hv]; rfl⟩

/-- Within a stage the progress is not lost. -/
theorem step_some (hv : t.notifiers x = some v) (hstage : t.beginsStage x c = false) :
    ∃ w, (t.step R c).notifiers x = some w := by
  have hkeep : ∀ {y : Txid} {o : Option ℚ}, (x = y → o.isSome = true) →
      ∃ w, Function.update t.notifiers y o x = some w := by
    intro y o ho
    by_cases hx : x = y
    · rw [hx, Function.update_self]
      exact Option.isSome_iff_exists.1 (ho hx)
    · exact ⟨v, by rw [Function.update_of_ne hx, hv]⟩
  cases c with
  | register y =>
      change ∃ w, putIfAbsent t.notifiers y 0 x = some w
      unfold putIfAbsent
      split
      · exact ⟨v, hv⟩
      · exact hkeep fun _ => rfl
  | reportPhase y phase =>
      change ∃ w, (t.reportPhase y phase).notifiers x = some w
      unfold Tracker.reportPhase
      split
      · exact ⟨v, hv⟩
      split
      · exact ⟨v, hv⟩
      · refine hkeep fun hx => ?_
        subst hx
        rw [hv]
        rfl
  | reportCompressProgress y percent =>
      change ∃ w, (t.reportCompressProgress R y percent).notifiers x = some w
      unfold Tracker.reportCompressProgress
      split
      · exact ⟨v, hv⟩
      split
      · exact ⟨v, hv⟩
      dsimp only
      split
      · exact ⟨v, hv⟩
      · exact hkeep fun _ => rfl
  | unregister y =>
      refine hkeep fun hx => ?_
      subst hx
      simp [beginsStage] at hstage
  | markActive y => exact ⟨v, hv⟩
  | reportActiveProgress sent total =>
      change ∃ w, (t.reportActiveProgress R sent total).notifiers x = some w
      unfold Tracker.reportActiveProgress
      split
      · exact ⟨v, hv⟩
      split
      · exact ⟨v, hv⟩
      split
      · exact ⟨v, hv⟩
      · exact hkeep fun _ => rfl

/-- A report of the compression is left out where it would go back. -/
theorem le_step_compress {percent : ℚ} (hv : t.notifiers x = some v)
    (hw : (t.step R c).notifiers x = some w) (hr : t.report? x c = some (.compressed percent)) :
    v ≤ w ∧ max 0 (Report.part R (.compressed percent)) ≤ w := by
  cases c with
  | reportCompressProgress y p =>
      obtain ⟨⟨rfl, hphase, -⟩, heq⟩ := Option.ite_none_right_eq_some.1 hr
      obtain rfl := Report.compressed.inj (Option.some.inj heq)
      change (t.reportCompressProgress R y p).notifiers y = some w at hw
      simp only [Tracker.reportCompressProgress, hphase, ne_eq, not_true_eq_false, if_false, hv]
        at hw
      have hclamp : clamp (R.round (p / 100)) 0 1 = max 0 (Report.part R (.compressed p)) :=
        clamp_eq zero_le_one
      rw [hclamp] at hw
      split at hw
      · rename_i hless
        rw [hv] at hw
        obtain rfl := Option.some.inj hw
        exact ⟨le_rfl, hless.le⟩
      · rename_i hle
        change Function.update t.notifiers y _ y = some w at hw
        rw [Function.update_self] at hw
        obtain rfl := Option.some.inj hw
        exact ⟨not_lt.1 hle, le_rfl⟩
  | reportActiveProgress sent total =>
      obtain ⟨-, heq⟩ := Option.ite_none_right_eq_some.1 hr
      cases heq
  | _ => cases hr

/-- A report that reaches an upload is at most its progress then. -/
theorem part_le_step {r : Report} (hr : t.report? x c = some r) :
    ∃ w, (t.step R c).notifiers x = some w ∧ max 0 (r.part R) ≤ w := by
  cases r with
  | sent sent total => exact ⟨_, step_sent hr, le_rfl⟩
  | compressed percent =>
      cases c with
      | reportCompressProgress y p =>
          obtain ⟨⟨rfl, -, hsome⟩, -⟩ := Option.ite_none_right_eq_some.1 hr
          obtain ⟨v, hv⟩ := Option.isSome_iff_exists.1 hsome
          obtain ⟨w, hw⟩ := step_some (R := R) (c := .reportCompressProgress y p) hv rfl
          exact ⟨w, hw, (le_step_compress hv hw hr).2⟩
      | reportActiveProgress sent total =>
          obtain ⟨-, heq⟩ := Option.ite_none_right_eq_some.1 hr
          cases heq
      | _ => cases hr

end Step

/-! ### A run -/

section Runs

variable {R : Rounding} {t : Tracker} {x : Txid} {v w : ℚ} {calls : List Call}

theorem run_append (t : Tracker) (l₁ l₂ : List Call) :
    t.run R (l₁ ++ l₂) = (t.run R l₁).run R l₂ :=
  List.foldl_append ..

theorem withinStage_append {l₁ l₂ : List Call} :
    WithinStage R x t (l₁ ++ l₂) ↔
      WithinStage R x t l₁ ∧ WithinStage R x (t.run R l₁) l₂ := by
  induction l₁ generalizing t with
  | nil => exact (true_and _).symm.to_iff
  | cons c l₁ ih => exact (and_congr_right fun _ => ih).trans and_assoc.symm

/-- Where the progress of `x` comes from: nothing is told of it in its stage, or the last report
that counted. -/
def Origin (R : Rounding) (calls : List Call) (x : Txid) (v : ℚ) : Prop :=
  v = 0 ∨ ∃ l₁ a l₂ r, calls = l₁ ++ a :: l₂ ∧ (empty.run R l₁).report? x a = some r ∧
    WithinStage R x (empty.run R l₁) (a :: l₂) ∧ v = max 0 (r.part R)

/-- **The progress is what was reported in its stage.** -/
theorem origin_run (calls : List Call) (x : Txid) (v : ℚ)
    (h : (empty.run R calls).notifiers x = some v) : Origin R calls x v := by
  induction calls using List.reverseRecOn generalizing v with
  | nil => cases h
  | append_singleton calls c ih =>
      rw [run_append] at h
      obtain ⟨-, hzero⟩ | ⟨hstage, hkept | ⟨r, hr, rfl⟩⟩ := step_cases h
      · exact .inl hzero
      · obtain hzero | ⟨l₁, a, l₂, r, rfl, hr, hwithin, rfl⟩ := ih v hkept
        · exact .inl hzero
        · refine .inr ⟨l₁, a, l₂ ++ [c], r, by simp, hr, ?_, rfl⟩
          rw [← List.cons_append, withinStage_append, ← run_append]
          exact ⟨hwithin, hstage, trivial⟩
      · exact .inr ⟨calls, c, [], r, rfl, hr, ⟨hstage, trivial⟩, rfl⟩

/-- The progress is a part of the whole. -/
theorem Origin.mem_range (h : Origin R calls x v) : 0 ≤ v ∧ v ≤ 1 := by
  obtain rfl | ⟨_, _, _, r, -, -, -, rfl⟩ := h
  · exact ⟨le_rfl, zero_le_one⟩
  · exact ⟨le_max_left _ _, max_le zero_le_one r.part_le_one⟩

/-- **A call that begins no stage of `x` keeps its progress or moves it forward**, if the reports do
not go back. -/
theorem Forward.le_step {l₁ l₂ : List Call} {c : Call} (h : Forward R (l₁ ++ c :: l₂))
    (hv : (empty.run R l₁).notifiers x = some v)
    (hw : ((empty.run R l₁).step R c).notifiers x = some w)
    (hstage : (empty.run R l₁).beginsStage x c = false) : v ≤ w := by
  obtain ⟨hbegins, -⟩ | ⟨-, hkept | ⟨r, hr, rfl⟩⟩ := step_cases hw
  · rw [hstage] at hbegins
    cases hbegins
  · exact (Option.some.inj (hv.symm.trans hkept)).le
  cases r with
  | compressed percent => exact (le_step_compress hv hw hr).1
  | sent bytes total =>
      obtain rfl | ⟨m₁, a, m₂, r, rfl, hearlier, hwithin, rfl⟩ := origin_run l₁ x v hv
      · exact le_max_left _ _
      · rcases h m₁ a m₂ c l₂ rfl x r bytes total hearlier hwithin hr with hnone | hle
        · exact max_le (le_max_left _ _) (hnone.trans (le_max_left _ _))
        · exact max_le_max_left 0 hle

/-- Within a stage the progress goes forward. -/
theorem Forward.le_run {l₁ l₂ l₃ : List Call} (h : Forward R (l₁ ++ l₂ ++ l₃))
    (hstage : WithinStage R x (empty.run R l₁) l₂) (hv : (empty.run R l₁).notifiers x = some v)
    (hw : (empty.run R (l₁ ++ l₂)).notifiers x = some w) : v ≤ w := by
  induction l₂ generalizing l₁ v with
  | nil =>
      rw [List.append_nil] at hw
      exact (Option.some.inj (hv.symm.trans hw)).le
  | cons c l₂ ih =>
      obtain ⟨u, hu⟩ := step_some (R := R) hv hstage.1
      have hle : v ≤ u := by
        rw [List.append_assoc, List.cons_append] at h
        exact h.le_step hv hu hstage.1
      have hstep : empty.run R (l₁ ++ [c]) = (empty.run R l₁).step R c := run_append _ _ _
      have hnext : Forward R (l₁ ++ [c] ++ l₂ ++ l₃) := by
        rwa [List.append_assoc l₁ [c] l₂, List.singleton_append]
      refine hle.trans (ih hnext ?_ ?_ ?_)
      · rw [hstep]
        exact hstage.2
      · rw [hstep]
        exact hu
      · rwa [List.append_assoc l₁ [c] l₂, List.singleton_append]

end Runs

/-- **When the progress never runs backwards.**  In every run of calls from the start, however the
doubles are rounded, the progress of an upload goes forward within a stage, and stays between 0 and
1, exactly when no report of the bytes sent tells less than what was reported of the same upload in
the same stage before. -/
theorem steady_iff_forward (R : Rounding) (calls : List Call) :
    Steady R calls ↔ Forward R calls := by
  constructor
  · intro hsteady l₁ a l₂ b l₃ heq x r bytes total hearlier hwithin hlater
    obtain ⟨v, hv, hpart⟩ := part_le_step (R := R) hearlier
    have hstep : empty.run R (l₁ ++ [a]) = (empty.run R l₁).step R a := run_append _ _ _
    have hend : empty.run R (l₁ ++ [a] ++ (l₂ ++ [b])) =
        (empty.run R (l₁ ++ a :: l₂)).step R b := by
      rw [← List.append_assoc, run_append, List.append_assoc l₁, List.singleton_append]
      rfl
    have hstage : WithinStage R x (empty.run R (l₁ ++ [a])) (l₂ ++ [b]) := by
      rw [withinStage_append, ← run_append, hstep, List.append_assoc, List.singleton_append]
      refine ⟨hwithin.2, ?_, trivial⟩
      cases b with
      | reportActiveProgress => rfl
      | reportCompressProgress => rfl
      | _ => cases hlater
    have hle : v ≤ max 0 (Report.part R (.sent bytes total)) :=
      hsteady.forward (l₁ ++ [a]) (l₂ ++ [b]) l₃ (by simp [heq]) x v _ (by rw [hstep, hv])
        (by rw [hend, step_sent hlater]) hstage
    rcases le_max_iff.1 ((le_max_right 0 _).trans (hpart.trans hle)) with hnone | hless
    · exact .inl hnone
    · exact .inr hless
  · intro hforward
    refine ⟨fun l₁ l₂ l₃ heq x v w hv hw hstage => ?_, fun l₁ _ _ x v hv => ?_⟩
    · exact Forward.le_run (heq ▸ hforward) hstage hv hw
    · exact (origin_run l₁ x v hv).mem_range

/-- A file is sent again from its first byte. -/
def sentAgain : List Call :=
  [.register "a", .reportPhase "a" .uploading, .markActive (some "a"),
    .reportActiveProgress 50 100, .reportActiveProgress 0 100]

/-- Half of a file is sent, and then nothing of it.  Below 1 the doubles from a half on are the
multiples of `2 ^ -53`. -/
theorem sentAgain_not_steady : ¬Steady (.grid 53) sentAgain := by
  intro h
  have hle := h.forward (sentAgain.take 4) (sentAgain.drop 4) [] rfl "a" (1 / 2) 0
    (by decide +kernel) (by decide +kernel) ⟨rfl, trivial⟩
  norm_num at hle

end UploadProgress
end Client
end Liza
