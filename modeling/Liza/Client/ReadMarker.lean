/-
# Sending read markers

`ReadMarkerSendCoordinator` of `clients/flutter/lib/utils/read_marker_sender.dart`.  A send that is
requested while another one is in flight waits in `_pending`, where a newer one replaces it; the
callback of the one in flight starts it.

A send function is known by the number of its request.  What it returns when it is called, a future
or null, is part of the step that calls it; a future completes at any time, and its `whenComplete`
callback runs at any time after that.  A send function does not call `request` itself.
-/

import Liza.Lib.Run

set_option autoImplicit false

namespace Liza
namespace Client
namespace ReadMarker

open Lib (Exec exec_of_runs)

/-- `ReadMarkerSendCoordinator`, with the futures it waits for and what it has done. -/
structure State where
  inFlight : Option ℕ
  pending : Option ℕ
  /-- The sends whose futures are not complete. -/
  running : List ℕ
  /-- The sends whose futures are complete, but whose callback has not run. -/
  completed : List ℕ
  /-- The number of calls of `request`. -/
  requests : ℕ
  /-- The send functions that were called, in this order. -/
  calls : List ℕ
deriving DecidableEq

/-- `isInFlight`. -/
def State.isInFlight (s : State) : Bool := s.inFlight.isSome

/-- What happens; `future` is whether the send function that is called returns a future. -/
inductive Act where
  | request (future : Bool)
  | complete (send : ℕ)
  | callback (send : ℕ) (future : Bool)
deriving DecidableEq

def Act.isRequest : Act → Bool
  | .request _ => true
  | _ => false

def init : State := ⟨none, none, [], [], 0, []⟩

/-- `_start`. -/
def start (s : State) (send : ℕ) (future : Bool) : State :=
  let s := { s with pending := none, calls := s.calls ++ [send] }
  if future then { s with inFlight := some send, running := s.running ++ [send] } else s

/-- `request`. -/
def request (s : State) (future : Bool) : State :=
  let send := s.requests
  let s := { s with requests := s.requests + 1 }
  if s.isInFlight then { s with pending := some send } else start s send future

/-- The callback of `whenComplete`. -/
def callback (s : State) (future : Bool) : State :=
  let s := { s with inFlight := none }
  match s.pending with
  | none => s
  | some pending => start { s with pending := none } pending future

def step (s : State) : Act → Option State
  | .request future => some (request s future)
  | .complete send =>
      if send ∈ s.running then
        some { s with running := s.running.erase send, completed := s.completed ++ [send] }
      else none
  | .callback send future =>
      if send ∈ s.completed then
        some (callback { s with completed := s.completed.erase send } future)
      else none

/-- The last send that was called is the one that was requested last. -/
def State.UpToDate (s : State) : Prop := s.calls.getLast? = (List.range s.requests).getLast?

/-- **The invariant.**  Where nothing is in flight nothing waits; otherwise one send is in flight,
and what waits is what was requested last. -/
structure Inv (s : State) : Prop where
  sorted : s.calls.Pairwise (· < ·)
  requested : ∀ i ∈ s.calls, i < s.requests
  idle : s.inFlight = none → s.pending = none ∧ s.running ++ s.completed = [] ∧ s.UpToDate
  busy : ∀ i, s.inFlight = some i → s.running ++ s.completed = [i]
  upToDate : s.pending = none → s.UpToDate
  waiting : ∀ p, s.pending = some p → p + 1 = s.requests ∧ ∀ i ∈ s.calls, i < p

theorem inv_init : Inv init := by
  constructor <;> simp [init, State.UpToDate]

section Step

variable {s t : State}

/-- The send that was requested last is called while nothing is in flight. -/
theorem Inv.start {send : ℕ} (future : Bool) (hsorted : s.calls.Pairwise (· < ·))
    (hlast : send + 1 = s.requests) (hless : ∀ i ∈ s.calls, i < send)
    (hidle : s.inFlight = none) (hnone : s.running ++ s.completed = []) :
    Inv (start s send future) := by
  have hcalls : (s.calls ++ [send]).Pairwise (· < ·) := by
    refine List.pairwise_append.2 ⟨hsorted, List.pairwise_singleton _ _, ?_⟩
    intro i hi j hj
    rw [List.mem_singleton.1 hj]
    exact hless i hi
  have hrequested : ∀ i ∈ s.calls ++ [send], i < s.requests := by
    intro i hi
    rcases List.mem_append.1 hi with hi | hi
    · have := hless i hi
      omega
    · rw [List.mem_singleton.1 hi]
      omega
  have hupToDate : (s.calls ++ [send]).getLast? = (List.range s.requests).getLast? := by
    rw [← hlast, List.range_succ, List.getLast?_append, List.getLast?_append]
    rfl
  obtain ⟨hrunning, hcompleted⟩ := List.append_eq_nil_iff.1 hnone
  cases future with
  | false =>
      refine ⟨hcalls, hrequested, fun _ => ⟨rfl, hnone, hupToDate⟩, fun i hi => ?_,
        fun _ => hupToDate, fun p hp => (by cases hp)⟩
      cases hidle.symm.trans hi
  | true =>
      refine ⟨hcalls, hrequested, fun hn => (by cases hn), fun i hi => ?_,
        fun _ => hupToDate, fun p hp => (by cases hp)⟩
      obtain rfl := Option.some.inj hi
      change (s.running ++ [send]) ++ s.completed = [send]
      rw [hrunning, hcompleted]
      rfl

theorem Inv.request (hs : Inv s) (future : Bool) : Inv (request s future) := by
  cases hflight : s.inFlight with
  | none =>
      have heq : ReadMarker.request s future =
          ReadMarker.start { s with requests := s.requests + 1 } s.requests future :=
        if_neg (by simp [State.isInFlight, hflight])
      obtain ⟨-, hnone, -⟩ := hs.idle hflight
      rw [heq]
      exact Inv.start future hs.sorted rfl hs.requested hflight hnone
  | some i =>
      have heq : ReadMarker.request s future =
          { s with requests := s.requests + 1, pending := some s.requests } :=
        if_pos (by simp [State.isInFlight, hflight])
      rw [heq]
      refine ⟨hs.sorted, fun j hj => ?_, fun hn => ?_, fun j hj => hs.busy j hj,
        fun hn => (by cases hn), fun p hp => ?_⟩
      · exact Nat.lt_succ_of_lt (hs.requested j hj)
      · cases hflight.symm.trans hn
      · obtain rfl := Option.some.inj hp
        exact ⟨rfl, hs.requested⟩

theorem Inv.complete {send : ℕ} (hs : Inv s) (hmem : send ∈ s.running) :
    Inv { s with running := s.running.erase send, completed := s.completed ++ [send] } := by
  have hbusy : ∀ i, s.inFlight = some i →
      s.running.erase send ++ (s.completed ++ [send]) = [i] := by
    intro i hi
    have hone := hs.busy i hi
    obtain ⟨hrunning, hcompleted⟩ : s.running = [i] ∧ s.completed = [] := by
      cases hr : s.running with
      | nil => simp [hr] at hmem
      | cons j rest =>
          rw [hr, List.cons_append, List.cons.injEq, List.append_eq_nil_iff] at hone
          exact ⟨by rw [hone.1, hone.2.1], hone.2.2⟩
    rw [hrunning, List.mem_singleton] at hmem
    rw [hrunning, hcompleted, hmem]
    simp
  refine ⟨hs.sorted, hs.requested, fun hn => ?_, hbusy, hs.upToDate, hs.waiting⟩
  obtain ⟨-, hnone, -⟩ := hs.idle hn
  rw [(List.append_eq_nil_iff.1 hnone).1] at hmem
  cases hmem

theorem callback_none {future : Bool} (h : s.pending = none) :
    callback s future = { s with inFlight := none } := by
  simp only [ReadMarker.callback, h]

theorem callback_some {p : ℕ} {future : Bool} (h : s.pending = some p) :
    callback s future =
      ReadMarker.start { s with inFlight := none, pending := none } p future := by
  simp only [ReadMarker.callback, h]

theorem Inv.callback {send : ℕ} (hs : Inv s) (hmem : send ∈ s.completed) (future : Bool) :
    Inv (callback { s with completed := s.completed.erase send } future) := by
  -- the send whose callback runs is the one in flight
  have hnone : s.running ++ s.completed.erase send = [] := by
    cases hflight : s.inFlight with
    | none =>
        obtain ⟨-, hempty, -⟩ := hs.idle hflight
        rw [(List.append_eq_nil_iff.1 hempty).2] at hmem
        cases hmem
    | some i =>
        have hone := hs.busy i hflight
        cases hr : s.running with
        | nil =>
            rw [hr, List.nil_append] at hone
            rw [hone, List.mem_singleton] at hmem
            simp [hone, hmem]
        | cons j rest =>
            rw [hr, List.cons_append, List.cons.injEq, List.append_eq_nil_iff] at hone
            rw [hone.2.2] at hmem
            cases hmem
  cases hpending : s.pending with
  | none =>
      have hupToDate := hs.upToDate hpending
      rw [callback_none rfl]
      exact ⟨hs.sorted, hs.requested, fun _ => ⟨rfl, hnone, hupToDate⟩, fun i hi => (by cases hi),
        fun _ => hupToDate, fun p hp => (by cases hp)⟩
  | some p =>
      obtain ⟨hlast, hless⟩ := hs.waiting p hpending
      rw [callback_some rfl]
      exact Inv.start future hs.sorted hlast hless rfl hnone

theorem Inv.step {a : Act} (hs : Inv s) (h : step s a = some t) : Inv t := by
  cases a with
  | request future =>
      obtain rfl := Option.some.inj h
      exact hs.request future
  | complete send =>
      obtain ⟨hmem, ht⟩ := Option.ite_none_right_eq_some.1 h
      obtain rfl := Option.some.inj ht
      exact hs.complete hmem
  | callback send future =>
      obtain ⟨hmem, ht⟩ := Option.ite_none_right_eq_some.1 h
      obtain rfl := Option.some.inj ht
      exact hs.callback hmem future

@[simp]
theorem start_requests (s : State) (send : ℕ) (future : Bool) :
    (ReadMarker.start s send future).requests = s.requests := by
  cases future <;> rfl

/-- Only `request` counts as one. -/
theorem step_requests {a : Act} (h : step s a = some t) :
    t.requests = s.requests + if a.isRequest then 1 else 0 := by
  cases a with
  | request future =>
      obtain rfl := Option.some.inj h
      unfold ReadMarker.request
      dsimp only
      split
      · rfl
      · exact start_requests _ _ _
  | complete send =>
      obtain ⟨-, ht⟩ := Option.ite_none_right_eq_some.1 h
      obtain rfl := Option.some.inj ht
      rfl
  | callback send future =>
      obtain ⟨-, ht⟩ := Option.ite_none_right_eq_some.1 h
      obtain rfl := Option.some.inj ht
      cases hpending : s.pending with
      | none =>
          rw [callback_none rfl]
          rfl
      | some p =>
          rw [callback_some rfl, start_requests]
          rfl

end Step

/-- The number of the requests of a run. -/
theorem requests_eq {s t : State} {as : List Act} (h : Exec step (fun _ _ => True) s as t) :
    t.requests = s.requests + as.countP Act.isRequest := by
  induction h with
  | nil s => rfl
  | cons _ hstep _ ih => rw [ih, step_requests hstep, List.countP_cons]; omega

/-- **The latest read marker is always sent.**  In every run at most one send is in flight, and
`isInFlight` says whether one is; each send function that is called was requested, and is called
once, in the order of the requests; and where nothing is in flight, the last one that was called is
the last one that was requested. -/
theorem latest_marker_sent {t : State} {as : List Act}
    (h : Exec step (fun _ _ => True) init as t) :
    t.requests = as.countP Act.isRequest ∧
    (t.running ++ t.completed).length ≤ 1 ∧
    (t.isInFlight = false ↔ t.running = [] ∧ t.completed = []) ∧
    t.calls.Nodup ∧ t.calls.Pairwise (· < ·) ∧ (∀ send ∈ t.calls, send < t.requests) ∧
    (t.isInFlight = false → t.calls.getLast? = (List.range t.requests).getLast?) := by
  have ht : Inv t := h.invariant inv_init fun s a t hs _ hstep => hs.step hstep
  refine ⟨(requests_eq h).trans (Nat.zero_add _), ?_, ?_,
    ht.sorted.imp fun hlt => Nat.ne_of_lt hlt, ht.sorted, ht.requested, fun hidle => ?_⟩
  · cases hflight : t.inFlight with
    | none => rw [(ht.idle hflight).2.1]; exact Nat.zero_le _
    | some i => rw [ht.busy i hflight]; exact Nat.le_refl _
  · unfold State.isInFlight
    cases hflight : t.inFlight with
    | none => simpa using List.append_eq_nil_iff.1 (ht.idle hflight).2.1
    | some i =>
        have hone := ht.busy i hflight
        simp only [Option.isSome_some, Bool.true_eq_false, false_iff, ← List.append_eq_nil_iff]
        rw [hone]
        exact List.cons_ne_nil _ _
  · exact (ht.idle (Option.isSome_eq_false_iff.1 hidle |> Option.isNone_iff_eq_none.1)).2.2

/-- Of three requests during a send only the last one is sent. -/
theorem latest_marker_sent_third :
    let t : State := ⟨none, none, [], [], 4, [0, 3]⟩
    t.isInFlight = false → t.calls.getLast? = (List.range t.requests).getLast? :=
  (@latest_marker_sent _ [.request true, .request true, .request true, .request true,
    .complete 0, .callback 0 false] (exec_of_runs (by decide))).2.2.2.2.2.2

end ReadMarker
end Client
end Liza
