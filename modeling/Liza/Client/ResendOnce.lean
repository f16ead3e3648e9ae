/-
# No message is sent again twice at once

Taps, the album's button and the retry services all go through `FailedMediaResender`, whose
`_claim` looks at three things in one go: the event object, the ids owned by a series, and the ids
in flight.  The object may be out of date, the two sets may not: an id is in flight as long as its
resend runs (`Guarded.flight`), and the tracker has every id of a series that is going on
(`Guarded.owned`), also when another series releases its own, because no two series have an id in
common.  So of each id one resend runs at most, and none starts while a series has it.

A service starts at most one resend of an id, over all its reconnects: it remembers the id before
it asks (`Guarded.once`), and its loop does not wait between looking and remembering.  A service
that `initMatrix` puts in its place begins anew.
-/

import Liza.Client.Resending
import Mathlib.Data.List.Nodup

set_option autoImplicit false

namespace Liza
namespace Client
namespace Resending

open Lib

/-- The resends of an id that the `k`-th service has started. -/
def State.autoStarts (s : State) (k : ℕ) (id : Txid) : ℕ :=
  s.starts.countP fun x => x.id = id ∧ x.origin = .auto k

/-- The ids that the `k`-th service remembers. -/
def State.retried (s : State) (k : ℕ) : List Txid :=
  (s.services[k]?.map Service.autoRetriedTxids).getD []

/-- No doubled resend: of each id one resend runs at most, none was started while a series that was
going on had the id, and each service has started one of an id at most. -/
structure NoDoubledResend (s : State) : Prop where
  single : ∀ id, s.running.countP (fun r => r.id = id) ≤ 1
  unowned : ∀ x ∈ s.starts, x.owned = false
  once : ∀ k id, s.autoStarts k id ≤ 1

/-- The invariant. -/
structure Guarded (s : State) : Prop where
  nodup : (s.running.map Resend.id).Nodup
  flight : ∀ r ∈ s.running, r.id ∈ s.inFlight
  owned : ∀ (j : ℕ) (x : Series), s.series[j]? = some x → x.phase = .claimed →
    ∀ id ∈ x.txids, id ∈ s.ownedBySeries
  disjoint : ∀ (i j : ℕ) (x y : Series), s.series[i]? = some x → s.series[j]? = some y →
    ∀ id ∈ x.txids, id ∈ y.txids → i = j
  unowned : ∀ x ∈ s.starts, x.owned = false
  once : ∀ k id, s.autoStarts k id ≤ if id ∈ s.retried k then 1 else 0

section Step

variable {s t : State} {event : Look} {origin : Origin} {id : Txid} {k : ℕ} {v : Service}

/-- What the invariant does not look at may change; a service may remember more ids. -/
theorem Guarded.of_eq (hs : Guarded s) (hrunning : t.running = s.running)
    (hflight : t.inFlight = s.inFlight)
    (howned : t.ownedBySeries = s.ownedBySeries) (hseries : t.series = s.series)
    (hstarts : t.starts = s.starts) (hretried : ∀ k, s.retried k ⊆ t.retried k) : Guarded t where
  nodup := hrunning ▸ hs.nodup
  flight := by
    rw [hrunning, hflight]
    exact hs.flight
  owned := by
    rw [hseries, howned]
    exact hs.owned
  disjoint := by
    rw [hseries]
    exact hs.disjoint
  unowned := hstarts ▸ hs.unowned
  once k id := by
    have hle := hs.once k id
    unfold State.autoStarts at hle ⊢
    rw [hstarts]
    refine Nat.le_trans hle ?_
    split
    · case _ hid => rw [if_pos (hretried k hid)]
    · exact Nat.zero_le _

theorem retried_setService (hk : s.services[k]? = some v) (w : Service) (l : ℕ) :
    (s.setService k w).retried l = if l = k then w.autoRetriedTxids else s.retried l := by
  unfold State.retried State.setService
  dsimp only
  by_cases hl : l = k
  · subst hl
    rw [if_pos rfl, List.getElem?_set_self (List.getElem?_eq_some_iff.1 hk).1]
    rfl
  · rw [if_neg hl, List.getElem?_set_ne (Ne.symm hl)]

/-- A service is changed that goes on remembering what it remembers. -/
theorem Guarded.setService (hs : Guarded s) (hk : s.services[k]? = some v) {w : Service}
    (hw : v.autoRetriedTxids ⊆ w.autoRetriedTxids) : Guarded (s.setService k w) := by
  refine hs.of_eq rfl rfl rfl rfl rfl fun l => ?_
  rw [retried_setService hk]
  split
  · case _ hl =>
    subst hl
    unfold State.retried
    rw [hk]
    exact hw
  · exact List.Subset.refl _

/-- `_claim` takes the id, or leaves all as it is. -/
theorem claim_cases (s : State) (event : Look) :
    claim s event = (.started, { s with
        inFlight := event.eventId :: s.inFlight
        errorKinds := Function.update s.errorKinds event.eventId none }) ∧
        event.eventId ∉ s.ownedBySeries ∧ event.eventId ∉ s.inFlight ∨
      ∃ outcome, outcome ≠ .started ∧ claim s event = (outcome, s) := by
  unfold claim
  split
  · exact .inr ⟨_, by decide, rfl⟩
  split
  · exact .inr ⟨_, by decide, rfl⟩
  split
  · exact .inr ⟨_, by decide, rfl⟩
  split
  · exact .inr ⟨_, by decide, rfl⟩
  · case _ howned hflight => exact .inl ⟨rfl, howned, hflight⟩

/-- The tracker knows the ids of the series that are going on. -/
theorem Guarded.not_owns (hs : Guarded s) (hid : id ∉ s.ownedBySeries) : s.owns id = false := by
  by_contra howns
  obtain ⟨x, hx, hmem⟩ := List.any_eq_true.1 (eq_true_of_ne_false howns)
  obtain ⟨hphase, hid'⟩ := of_decide_eq_true hmem
  obtain ⟨j, hj⟩ := List.mem_iff_getElem?.1 hx
  exact hid (hs.owned j x hj hphase id hid')

/-- **A resend starts.** -/
theorem Guarded.run (hs : Guarded s) (howned : id ∉ s.ownedBySeries) (hflight : id ∉ s.inFlight)
    (hauto : ∀ k, origin = .auto k → s.autoStarts k id = 0 ∧ id ∈ s.retried k)
    (errorKinds : Txid → Option UploadErrorKind) :
    Guarded (run { s with inFlight := id :: s.inFlight, errorKinds := errorKinds } id origin) where
  nodup := by
    unfold Resending.run
    rw [List.map_append]
    refine List.nodup_append.2 ⟨hs.nodup, List.nodup_cons.2 ⟨List.not_mem_nil, List.nodup_nil⟩, ?_⟩
    rintro _ hmem _ hid rfl
    obtain ⟨r, hr, hrid⟩ := List.mem_map.1 hmem
    obtain rfl := List.mem_singleton.1 hid
    exact hflight (hrid ▸ hs.flight r hr)
  flight := by
    intro r hr
    rcases List.mem_append.1 hr with hr | hr
    · exact List.mem_cons_of_mem _ (hs.flight r hr)
    · obtain rfl := List.mem_singleton.1 hr
      exact List.mem_cons_self
  owned := hs.owned
  disjoint := hs.disjoint
  unowned := by
    intro x hx
    rcases List.mem_append.1 hx with hx | hx
    · exact hs.unowned x hx
    · obtain rfl := List.mem_singleton.1 hx
      exact hs.not_owns howned
  once := by
    intro k l
    have hle := hs.once k l
    change (s.starts ++ [_]).countP _ ≤ if l ∈ s.retried k then 1 else 0
    rw [List.countP_append, List.countP_singleton]
    split
    · case _ hnew =>
      obtain ⟨rfl, horigin⟩ := of_decide_eq_true hnew
      obtain ⟨hzero, hmem⟩ := hauto k horigin
      rw [if_pos hmem]
      exact Nat.le_of_eq (congrArg (· + 1) hzero)
    · exact hle

theorem Guarded.resend (hs : Guarded s) (event : Look) : Guarded (resend s event) := by
  unfold Resending.resend
  rcases claim_cases s event with ⟨hclaim, howned, hflight⟩ | ⟨outcome, hne, hclaim⟩
  · rw [hclaim]
    exact hs.run howned hflight (fun _ h => by cases h) _
  · rw [hclaim]
    cases outcome with
    | started => exact absurd rfl hne
    | notFailed => exact hs
    | missingMedia => exact hs
    | alreadyInFlight => exact hs
    | ownedBySeries => exact hs

theorem Guarded.resendAndWait (hs : Guarded s) (event : Look) (origin : Origin)
    (hauto : ∀ k, origin = .auto k →
      s.autoStarts k event.eventId = 0 ∧ event.eventId ∈ s.retried k) :
    Guarded (resendAndWait s event origin) := by
  unfold Resending.resendAndWait
  rcases claim_cases s event with ⟨hclaim, howned, hflight⟩ | ⟨outcome, hne, hclaim⟩
  · rw [hclaim]
    exact hs.run howned hflight hauto _
  · rw [hclaim]
    have hreturned : Guarded { s with returned := s.returned ++ [⟨event.eventId, origin⟩] } :=
      hs.of_eq rfl rfl rfl rfl rfl fun _ => List.Subset.refl _
    cases outcome with
    | started => exact absurd rfl hne
    | notFailed => exact hreturned
    | missingMedia => exact hreturned
    | alreadyInFlight => exact hreturned
    | ownedBySeries => exact hreturned

/-- The loop of `_retryNow`: the id is remembered, and then its resend is asked for. -/
theorem Guarded.retryOne (hs : Guarded s) (k : ℕ) (event : Look) :
    Guarded (retryOne k s event) := by
  unfold Resending.retryOne
  cases hk : s.services[k]? with
  | none => exact hs
  | some v =>
      dsimp only
      split
      · exact hs
      split
      · exact hs
      split
      · exact hs
      · case _ hnew _ _ =>
        refine (hs.setService hk (List.subset_cons_self _ _)).resendAndWait event (.auto k) ?_
        rintro l hl
        obtain rfl : k = l := Origin.auto.inj hl
        have hzero := hs.once k event.eventId
        have hretried : s.retried k = v.autoRetriedTxids := by
          unfold State.retried
          rw [hk]
          rfl
        rw [hretried, if_neg hnew] at hzero
        refine ⟨Nat.le_zero.1 hzero, ?_⟩
        rw [retried_setService hk, if_pos rfl]
        exact List.mem_cons_self

theorem Guarded.retryNow (hs : Guarded s) (k : ℕ) (events : List Look) :
    Guarded (retryNow s k events) := by
  unfold Resending.retryNow
  induction events generalizing s with
  | nil => exact hs
  | cons event events ih => exact ih (hs.retryOne k event)

/-- The resend of a message has ended, and no other of it runs. -/
theorem Guarded.ended {r : Resend} (hs : Guarded s) (hr : r ∈ s.running) : Guarded (ended s r) where
  nodup := hs.nodup.sublist (List.erase_sublist.map _)
  flight := by
    intro r' hr'
    have hmem := List.mem_of_mem_erase hr'
    refine List.mem_filter.2 ⟨hs.flight r' hmem, decide_eq_true fun hid => ?_⟩
    obtain rfl : r' = r := List.inj_on_of_nodup_map hs.nodup hmem hr hid
    exact (List.Nodup.of_map _ hs.nodup).not_mem_erase hr'
  owned := hs.owned
  disjoint := hs.disjoint
  unowned := hs.unowned
  once := hs.once

/-- A series of the list with one more at its end. -/
theorem series_append {l : List Series} {x y : Series} {j : ℕ} (hx : (l ++ [y])[j]? = some x) :
    l[j]? = some x ∨ j = l.length ∧ x = y := by
  rw [List.getElem?_append] at hx
  split at hx
  · exact .inl hx
  · case _ hge =>
    obtain ⟨hj, hx⟩ := List.getElem?_eq_some_iff.1 hx
    have hlen : j - l.length = 0 := Nat.lt_one_iff.1 hj
    refine .inr ⟨by omega, ?_⟩
    rw [← hx]
    simp only [hlen, List.getElem_cons_zero]

/-- A series after another phase of the `j`-th one. -/
theorem series_set {l : List Series} {x : Series} {txids : List Txid} {phase phase' : SeriesPhase}
    {i j : ℕ} (hj : l[j]? = some ⟨txids, phase⟩) (hx : (l.set j ⟨txids, phase'⟩)[i]? = some x) :
    i = j ∧ x = ⟨txids, phase'⟩ ∨ i ≠ j ∧ l[i]? = some x := by
  by_cases hi : i = j
  · subst hi
    rw [List.getElem?_set_self (List.getElem?_eq_some_iff.1 hj).1] at hx
    exact .inl ⟨rfl, (Option.some.inj hx).symm⟩
  · rw [List.getElem?_set_ne (Ne.symm hi)] at hx
    exact .inr ⟨hi, hx⟩

/-- No two series have an id in common, whatever phase the `j`-th comes to. -/
theorem Guarded.disjoint_set {txids : List Txid} {phase : SeriesPhase} {j : ℕ} (hs : Guarded s)
    (hj : s.series[j]? = some ⟨txids, phase⟩) (phase' : SeriesPhase) (i i' : ℕ) (x y : Series)
    (hx : (s.series.set j ⟨txids, phase'⟩)[i]? = some x)
    (hy : (s.series.set j ⟨txids, phase'⟩)[i']? = some y) :
    ∀ id ∈ x.txids, id ∈ y.txids → i = i' := by
  intro id hidx hidy
  have hback : ∀ {i : ℕ} {x : Series}, (s.series.set j ⟨txids, phase'⟩)[i]? = some x →
      id ∈ x.txids → ∃ x', s.series[i]? = some x' ∧ id ∈ x'.txids := by
    intro i x hx hid
    rcases series_set hj hx with ⟨rfl, rfl⟩ | ⟨-, hx⟩
    · exact ⟨_, hj, hid⟩
    · exact ⟨x, hx, hid⟩
  obtain ⟨x', hx', hidx'⟩ := hback hx hidx
  obtain ⟨y', hy', hidy'⟩ := hback hy hidy
  exact hs.disjoint i i' x' y' hx' hy' id hidx' hidy'

/-- The `j`-th series claims its ids. -/
theorem Guarded.claim {txids : List Txid} {j : ℕ} (hs : Guarded s)
    (hj : s.series[j]? = some ⟨txids, .generated⟩) :
    Guarded { s with
      ownedBySeries := txids ++ s.ownedBySeries
      series := s.series.set j ⟨txids, .claimed⟩ } where
  nodup := hs.nodup
  flight := hs.flight
  owned := by
    intro i x hx hphase id hid
    rcases series_set hj hx with ⟨-, rfl⟩ | ⟨-, hx⟩
    · exact List.mem_append_left _ hid
    · exact List.mem_append_right _ (hs.owned i x hx hphase id hid)
  disjoint := hs.disjoint_set hj .claimed
  unowned := hs.unowned
  once := hs.once

/-- The `j`-th series releases its ids; those of the others stay. -/
theorem Guarded.release {txids : List Txid} {phase : SeriesPhase} {j : ℕ} (hs : Guarded s)
    (hj : s.series[j]? = some ⟨txids, phase⟩) :
    Guarded { s with
      ownedBySeries := s.ownedBySeries.filter fun id => id ∉ txids
      series := s.series.set j ⟨txids, .released⟩ } where
  nodup := hs.nodup
  flight := hs.flight
  owned := by
    intro i x hx hphase id hid
    rcases series_set hj hx with ⟨-, rfl⟩ | ⟨hne, hx⟩
    · cases hphase
    · refine List.mem_filter.2 ⟨hs.owned i x hx hphase id hid, decide_eq_true fun hmem => ?_⟩
      exact hne (hs.disjoint i j x _ hx hj id hid hmem)
  disjoint := hs.disjoint_set hj .released
  unowned := hs.unowned
  once := hs.once

/-- The ids of a `SendFileDialog._send` that has just generated them. -/
theorem Guarded.generate {txids : List Txid} (hs : Guarded s)
    (hfresh : ∀ id ∈ txids, ∀ x ∈ s.series, id ∉ x.txids) :
    Guarded { s with series := s.series ++ [⟨txids, .generated⟩] } where
  nodup := hs.nodup
  flight := hs.flight
  owned := by
    intro j x hx hphase
    rcases series_append hx with hx | ⟨-, rfl⟩
    · exact hs.owned j x hx hphase
    · cases hphase
  disjoint := by
    intro i j x y hx hy id hidx hidy
    rcases series_append hx with hx | ⟨hi, rfl⟩ <;>
      rcases series_append hy with hy | ⟨hj, rfl⟩
    · exact hs.disjoint i j x y hx hy id hidx hidy
    · exact absurd hidx (hfresh id hidy x (List.mem_of_getElem? hx))
    · exact absurd hidy (hfresh id hidx y (List.mem_of_getElem? hy))
    · exact hi.trans hj.symm
  unowned := hs.unowned
  once := hs.once

/-- The caller of a `resendAndWait` goes on; the service still remembers the id. -/
theorem Guarded.goOn {r : Resend} (hs : Guarded s) : Guarded (goOn s r) := by
  unfold Resending.goOn
  cases r.origin with
  | tap => exact hs
  | sequence q => exact hs.of_eq rfl rfl rfl rfl rfl fun _ => List.Subset.refl _
  | auto k =>
      refine hs.of_eq rfl rfl rfl rfl rfl fun l => ?_
      unfold State.retried
      dsimp only
      rw [List.getElem?_modify]
      cases s.services[l]? with
      | none => exact List.Subset.refl _
      | some v =>
          by_cases hl : k = l
          · simp [hl]
          · simp [hl]

/-- The services are replaced: those there were remember what they remember. -/
theorem Guarded.initMatrix (hs : Guarded s) :
    Guarded { s with services := s.services.map dispose ++ [newService] } := by
  refine hs.of_eq rfl rfl rfl rfl rfl fun l => ?_
  unfold State.retried
  cases hl : s.services[l]? with
  | none => exact List.nil_subset _
  | some v =>
      have hlen := (List.getElem?_eq_some_iff.1 hl).1
      rw [List.getElem?_append_left (by rw [List.length_map]; exact hlen), List.getElem?_map, hl]
      exact List.Subset.refl _

/-- `_onStatus` leaves alone what the service remembers. -/
theorem autoRetriedTxids_onStatus (v : Service) (update : SyncStatusUpdate) :
    (onStatus v update).autoRetriedTxids = v.autoRetriedTxids := by
  unfold onStatus
  split
  · rfl
  split
  · rfl
  split <;> rfl

/-- **Every step keeps the invariant.** -/
theorem Guarded.step {a : Act} (hs : Guarded s) (h : step s a = some t) : Guarded t := by
  cases a with
  | status k update =>
      obtain ⟨v, hk, h⟩ := Option.bind_eq_some_iff.1 h
      split at h
      · obtain rfl := Option.some.inj h
        exact hs.setService hk (by rw [autoRetriedTxids_onStatus]; exact List.Subset.refl _)
      · cases h
  | timer k isForeground =>
      obtain ⟨v, hk, h⟩ := Option.bind_eq_some_iff.1 h
      split at h
      · obtain rfl := Option.some.inj h
        exact hs.setService hk (List.Subset.refl _)
      · cases h
  | listed k events =>
      obtain ⟨v, hk, h⟩ := Option.bind_eq_some_iff.1 h
      split at h
      · obtain rfl := Option.some.inj h
        refine Guarded.retryNow ?_ k events
        exact hs.setService hk (List.Subset.refl _)
      · cases h
  | listFailed k =>
      obtain ⟨v, hk, h⟩ := Option.bind_eq_some_iff.1 h
      split at h
      · obtain rfl := Option.some.inj h
        exact hs.setService hk (List.Subset.refl _)
      · cases h
  | tap event =>
      obtain rfl := Option.some.inj h
      exact hs.resend event
  | resendSequentially ids =>
      obtain rfl := Option.some.inj h
      exact hs.of_eq rfl rfl rfl rfl rfl fun _ => List.Subset.refl _
  | next q event =>
      simp only [Resending.step] at h
      split at h
      · split at h
        · obtain rfl := Option.some.inj h
          refine Guarded.resendAndWait ?_ event _ fun k hk => by cases hk
          exact hs.of_eq rfl rfl rfl rfl rfl fun _ => List.Subset.refl _
        · cases h
      · cases h
  | ended i =>
      obtain ⟨r, hr, rfl⟩ := Option.map_eq_some_iff.1 h
      exact hs.ended (List.mem_of_getElem? hr)
  | goOn i =>
      obtain ⟨r, hr, rfl⟩ := Option.map_eq_some_iff.1 h
      refine Guarded.goOn ?_
      exact hs.of_eq rfl rfl rfl rfl rfl fun _ => List.Subset.refl _
  | generate txids =>
      simp only [Resending.step] at h
      split at h
      · case _ hfresh =>
        obtain rfl := Option.some.inj h
        exact hs.generate hfresh.2
      · cases h
  | claim j =>
      simp only [Resending.step] at h
      split at h
      · case _ hj =>
        obtain rfl := Option.some.inj h
        exact hs.claim hj
      · cases h
  | release j =>
      simp only [Resending.step] at h
      split at h
      · cases h
      · case _ hj =>
        obtain rfl := Option.some.inj h
        exact hs.release hj
      · cases h
  | register id =>
      obtain rfl := Option.some.inj h
      exact hs.of_eq rfl rfl rfl rfl rfl fun _ => List.Subset.refl _
  | reportErrorKind id kind =>
      obtain rfl := Option.some.inj h
      exact hs.of_eq rfl rfl rfl rfl rfl fun _ => List.Subset.refl _
  | initMatrix =>
      obtain rfl := Option.some.inj h
      exact hs.initMatrix

/-- The invariant says that no resend is doubled. -/
theorem Guarded.noDoubledResend (hs : Guarded s) : NoDoubledResend s where
  single id := by
    have hle := List.nodup_iff_count_le_one.1 hs.nodup id
    rw [List.count_eq_countP, List.countP_map] at hle
    exact Nat.le_trans (List.countP_mono_left fun r _ hr => by simpa using hr) hle
  unowned := hs.unowned
  once k id := by
    refine Nat.le_trans (hs.once k id) ?_
    split
    · exact Nat.le_refl _
    · exact Nat.zero_le _

end Step

theorem guarded_start : Guarded start where
  nodup := List.nodup_nil
  flight r hr := by cases hr
  owned j x hx := by cases hx
  disjoint i j x y hx := by cases hx
  unowned x hx := by cases hx
  once k id := Nat.zero_le _

/-- **No message is sent again twice at once**, in any state that taps, the album's button, the
retry services and the series can come to, in any order. -/
theorem no_doubled_resend {s : State} {as : List Act}
    (h : Exec step (fun _ _ => True) start as s) : NoDoubledResend s :=
  (h.invariant guarded_start fun _ _ _ hs _ hstep => hs.step hstep).noDoubledResend

/-- A failed message as its holder sees it, with its bytes at hand. -/
def failed (id : Txid) : Look := ⟨id, true, false⟩

/-- The connection is lost and comes back, and before the service has its list the user taps on one
of the two failed messages, and later again; an album is on its way with a third. -/
def busyActs : List Act :=
  [.initMatrix, .generate ["c"], .claim 0, .status 0 ⟨.error, true⟩, .status 0 ⟨.finished, false⟩,
    .timer 0 true, .tap (failed "a"), .listed 0 [failed "a", failed "b", failed "b", failed "c"],
    .tap (failed "c"), .tap (failed "a"), .ended 0, .goOn 0, .tap (failed "a")]

theorem busy_noDoubledResend :
    ∃ s, Exec step (fun _ _ => True) start busyActs s ∧
      s.running = [⟨"b", .auto 0⟩, ⟨"a", .tap⟩] ∧ NoDoubledResend s := by
  obtain ⟨s, hs, hrunning⟩ : ∃ s, Exec step (fun _ _ => True) start busyActs s ∧
      s.running = [⟨"b", .auto 0⟩, ⟨"a", .tap⟩] := exists_exec_of_runs (by decide)
  exact ⟨s, hs, hrunning, no_doubled_resend hs⟩

end Resending
end Client
end Liza
