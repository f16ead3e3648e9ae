/-
# The registry is fetched again

The refreshing of `AppRegistry` (`servers/synapse/modules/miniapp/_registry.py`) and
`RegistryRefreshResource` (`__init__.py`).  A call of `maybe_refresh` runs to its one `await`, the
fetcher, and is resumed when the fetcher has answered; other calls may come in between.

Beside the fields of the registry a state counts the steps and keeps when the fetch of the snapshot
in use was started, when the fetches that raised were, and which refresh requests were answered.

A request invalidates and fetches in one step, so the fetch that it starts is not older than its own
`invalidate`.  When no fetch is in flight at that moment, none that is older can complete later, and
the timestamp is moved by a newer one only (`Fresh`).  A fetch in flight is older: the request does
not start one of its own, and what the older one brings is taken for fresh.
-/

import Liza.Lib.Run
import Liza.MiniApp.InitData
import Mathlib.Algebra.Order.Ring.Rat

set_option autoImplicit false

namespace Liza
namespace MiniApp

open Lib

/-! ### The registry -/

/-- The fields of `AppRegistry` that decide when it is fetched. -/
structure RegistryCache extends AppRegistry where
  ttl : ℚ
  fetcher : Bool
  lastRefresh : ℚ
  refreshing : Bool

/-- What the fetcher comes to. -/
inductive Fetched where
  | snapshot (apps : Dict)
  | notDict
  | raises
deriving DecidableEq

/-- It is a dictionary. -/
def Fetched.isSnapshot : Fetched → Bool
  | .snapshot _ => true
  | _ => false

namespace RegistryCache

/-- `AppRegistry.__init__`. -/
def init (static : Dict) (ttl : ℚ) (fetcher : Bool) : RegistryCache :=
  ⟨⟨static, []⟩, ttl, fetcher, 0, false⟩

/-- `AppRegistry.all_listed`. -/
def allListed (g : RegistryCache) : Py Refusal Dict :=
  (g.static.update g.dynamic).filterM fun e => notSuspended e.2

/-- `AppRegistry.needs_refresh`. -/
def needsRefresh (g : RegistryCache) (now : ℚ) : Bool :=
  g.fetcher && decide (g.ttl ≤ now - g.lastRefresh)

/-- `AppRegistry.apply_snapshot`. -/
def applySnapshot (g : RegistryCache) (snapshot : Dict) (now : ℚ) : RegistryCache :=
  { g with dynamic := snapshot, lastRefresh := now }

/-- `AppRegistry.invalidate`. -/
def invalidate (g : RegistryCache) : RegistryCache := { g with lastRefresh := 0 }

/-- `AppRegistry.maybe_refresh` up to the fetcher; `none` is the early return. -/
def beginRefresh (g : RegistryCache) (now : ℚ) : Option RegistryCache :=
  if g.fetcher = false ∨ g.refreshing = true ∨ g.needsRefresh now = false then none
  else some { g with refreshing := true }

/-- `AppRegistry.maybe_refresh` after the fetcher. -/
def endRefresh (g : RegistryCache) (fetched : Fetched) (now : ℚ) : RegistryCache :=
  let g := match fetched with
    | .snapshot apps => g.applySnapshot apps now
    | .notDict => g
    | .raises => { g with lastRefresh := now }
  { g with refreshing := false }

end RegistryCache

/-! ### The calls -/

/-- A request of `RegistryRefreshResource`: the step of its `invalidate`, and whether no fetch was
in flight then. -/
structure RefreshRequest where
  invalidated : ℕ
  idle : Bool
deriving DecidableEq

/-- A call that waits for the fetcher since a step; that of a refresh request or of another one. -/
structure RefreshCall where
  started : ℕ
  request : Option RefreshRequest
deriving DecidableEq

/-- The registry, the calls in flight, and what has happened. -/
structure RefreshState where
  registry : RegistryCache
  calls : List RefreshCall
  steps : ℕ
  snapshotFrom : Option ℕ
  failed : List ℕ
  answered : List RefreshRequest

namespace RefreshState

/-- A registry that nobody has called. -/
def start (g : RegistryCache) : RefreshState := ⟨g, [], 0, none, [], []⟩

/-- The response `{"refreshed": True, …}`, unless `all_listed` raises. -/
def respond (s : RefreshState) (r : RefreshRequest) : RefreshState :=
  match s.registry.allListed with
  | .ok _ => { s with answered := r :: s.answered }
  | .error _ => s

/-- A call of `maybe_refresh`, for a refresh request or not; with the early return the request is
answered at once. -/
def maybeRefresh (s : RefreshState) (r : Option RefreshRequest) (now : ℚ) : RefreshState :=
  match s.registry.beginRefresh now with
  | some g => { s with registry := g, calls := s.calls ++ [⟨s.steps, r⟩] }
  | none =>
      match r with
      | some r => s.respond r
      | none => s

/-- `RegistryRefreshResource._handle_post`, for a request that may. -/
def handlePost (s : RefreshState) (now : ℚ) : RefreshState :=
  { s with registry := s.registry.invalidate }.maybeRefresh (some ⟨s.steps, s.calls.isEmpty⟩) now

/-- The fetcher of a call has answered. -/
def fetched (s : RefreshState) (i : ℕ) (c : RefreshCall) (f : Fetched) (now : ℚ) : RefreshState :=
  let t := { s with
    registry := s.registry.endRefresh f now
    calls := s.calls.eraseIdx i
    snapshotFrom := if f.isSnapshot then some c.started else s.snapshotFrom
    failed := if f = .raises then c.started :: s.failed else s.failed }
  match c.request with
  | some r => t.respond r
  | none => t

end RefreshState

/-- What may happen, with the reading of the clock. -/
inductive RefreshAct where
  | maybeRefresh (now : ℚ)
  | invalidate
  | handlePost (now : ℚ)
  | fetched (i : ℕ) (f : Fetched) (now : ℚ)
deriving DecidableEq

/-- One step. -/
def refreshStep (s : RefreshState) (a : RefreshAct) : Option RefreshState :=
  let next := match a with
    | .maybeRefresh now => some (s.maybeRefresh none now)
    | .invalidate => some { s with registry := s.registry.invalidate }
    | .handlePost now => some (s.handlePost now)
    | .fetched i f now => s.calls[i]?.map fun c => s.fetched i c f now
  next.map fun t => { t with steps := s.steps + 1 }

/-! ### What a step does -/

section Steps

variable {s t : RefreshState} {a : RefreshAct} {k : ℕ}

/-- The requests that were answered or wait for their fetch. -/
def RefreshState.requests (s : RefreshState) : List RefreshRequest :=
  s.answered ++ s.calls.filterMap RefreshCall.request

/-- No fetch that was started before step `k` is in flight; and the snapshot is of a later fetch, a
later fetch has failed, or the timestamp is cleared. -/
structure Fresh (k : ℕ) (s : RefreshState) : Prop where
  calls : ∀ c ∈ s.calls, k ≤ c.started
  kept : (∃ f, s.snapshotFrom = some f ∧ k ≤ f) ∨ (∃ f ∈ s.failed, k ≤ f) ∨
    s.registry.lastRefresh = 0

theorem respond_eq (s : RefreshState) (r : RefreshRequest) :
    ∃ l, l ⊆ r :: s.answered ∧ s.respond r = { s with answered := l } := by
  unfold RefreshState.respond
  split
  · exact ⟨_, List.Subset.refl _, rfl⟩
  · exact ⟨s.answered, List.subset_cons_self _ _, rfl⟩

/-- **What a call of `maybe_refresh` does before its fetch**: it starts one now, or nothing but the
answer of its request changes. -/
theorem maybeRefresh_cases (s : RefreshState) (r : Option RefreshRequest) (now : ℚ) :
    s.maybeRefresh r now = { s with
        registry := { s.registry with refreshing := true }, calls := s.calls ++ [⟨s.steps, r⟩] } ∨
      ∃ l, l ⊆ r.toList ++ s.answered ∧ s.maybeRefresh r now = { s with answered := l } := by
  unfold RefreshState.maybeRefresh RegistryCache.beginRefresh
  split
  · rename_i g hg
    split at hg
    · cases hg
    · obtain rfl := Option.some.inj hg
      exact .inl rfl
  · cases r with
    | none => exact .inr ⟨s.answered, List.Subset.refl _, rfl⟩
    | some r => exact .inr (respond_eq s r)

/-- What the end of a fetch does. -/
theorem fetched_eq (s : RefreshState) (i : ℕ) (c : RefreshCall) (f : Fetched) (now : ℚ) :
    ∃ l, l ⊆ c.request.toList ++ s.answered ∧ s.fetched i c f now = { s with
      registry := s.registry.endRefresh f now
      calls := s.calls.eraseIdx i
      snapshotFrom := if f.isSnapshot then some c.started else s.snapshotFrom
      failed := if f = .raises then c.started :: s.failed else s.failed
      answered := l } := by
  unfold RefreshState.fetched
  dsimp only
  cases c.request with
  | none => exact ⟨s.answered, List.Subset.refl _, rfl⟩
  | some r =>
      obtain ⟨l, hl, heq⟩ := respond_eq { s with
        registry := s.registry.endRefresh f now
        calls := s.calls.eraseIdx i
        snapshotFrom := if f.isSnapshot then some c.started else s.snapshotFrom
        failed := if f = .raises then c.started :: s.failed else s.failed } r
      exact ⟨l, hl, heq⟩

/-- A call leaves a registry fresh, since the fetch that it may start is a new one. -/
theorem Fresh.maybeRefresh (hs : Fresh k s) (hk : k ≤ s.steps) (r : Option RefreshRequest)
    (now : ℚ) : Fresh k (s.maybeRefresh r now) := by
  rcases maybeRefresh_cases s r now with heq | ⟨l, -, heq⟩
  · rw [heq]
    refine ⟨fun c hc => ?_, hs.kept⟩
    rcases List.mem_append.1 hc with hc | hc
    · exact hs.calls c hc
    · obtain rfl := List.mem_singleton.1 hc
      exact hk
  · rw [heq]
    exact ⟨hs.calls, hs.kept⟩

/-- The end of a fetch leaves a registry fresh, since the fetch is one of those in flight. -/
theorem Fresh.fetched (hs : Fresh k s) {i : ℕ} {c : RefreshCall} (hc : s.calls[i]? = some c)
    (f : Fetched) (now : ℚ) : Fresh k (s.fetched i c f now) := by
  obtain ⟨l, -, heq⟩ := fetched_eq s i c f now
  have hstarted : k ≤ c.started := hs.calls c (List.mem_of_getElem? hc)
  rw [heq]
  refine ⟨fun d hd => hs.calls d ((List.eraseIdx_sublist _ _).mem hd), ?_⟩
  cases f with
  | snapshot apps => exact .inl ⟨c.started, rfl, hstarted⟩
  | notDict => exact hs.kept
  | raises => exact .inr (.inl ⟨c.started, List.mem_cons_self, hstarted⟩)

/-- **A step leaves a registry fresh.** -/
theorem Fresh.step (hs : Fresh k s) (hk : k ≤ s.steps) (h : refreshStep s a = some t) : Fresh k t := by
  obtain ⟨u, hu, rfl⟩ := Option.map_eq_some_iff.1 h
  suffices hfresh : Fresh k u from ⟨hfresh.calls, hfresh.kept⟩
  cases a with
  | maybeRefresh now =>
      obtain rfl := Option.some.inj hu
      exact hs.maybeRefresh hk none now
  | invalidate =>
      obtain rfl := Option.some.inj hu
      exact ⟨hs.calls, .inr (.inr rfl)⟩
  | handlePost now =>
      obtain rfl := Option.some.inj hu
      have hcleared : Fresh k { s with registry := s.registry.invalidate } :=
        ⟨hs.calls, .inr (.inr rfl)⟩
      exact hcleared.maybeRefresh hk _ now
  | fetched i f now =>
      obtain ⟨c, hc, rfl⟩ := Option.map_eq_some_iff.1 hu
      exact hs.fetched hc f now

/-- The requests after a call of `maybe_refresh`. -/
theorem requests_maybeRefresh (s : RefreshState) (r : Option RefreshRequest) (now : ℚ) :
    (s.maybeRefresh r now).requests ⊆ r.toList ++ s.requests := by
  rcases maybeRefresh_cases s r now with heq | ⟨l, hl, heq⟩
  · rw [heq]
    intro x hx
    simp only [RefreshState.requests, List.filterMap_append, List.mem_append] at hx ⊢
    rcases hx with hx | hx | hx
    · exact .inr (.inl hx)
    · exact .inr (.inr hx)
    · left
      cases r with
      | none => simp at hx
      | some r => simpa using hx
  · rw [heq]
    intro x hx
    simp only [RefreshState.requests, List.mem_append] at hx ⊢
    rcases hx with hx | hx
    · exact (List.mem_append.1 (hl hx)).imp id .inl
    · exact .inr (.inr hx)

theorem requests_fetched {i : ℕ} {c : RefreshCall} (hc : s.calls[i]? = some c) (f : Fetched)
    (now : ℚ) : (s.fetched i c f now).requests ⊆ s.requests := by
  obtain ⟨l, hl, heq⟩ := fetched_eq s i c f now
  rw [heq]
  intro x hx
  simp only [RefreshState.requests, List.mem_append] at hx ⊢
  rcases hx with hx | hx
  · rcases List.mem_append.1 (hl hx) with hx | hx
    · right
      exact List.mem_filterMap.2 ⟨c, List.mem_of_getElem? hc, Option.mem_toList.1 hx⟩
    · exact .inl hx
  · exact .inr (((List.eraseIdx_sublist _ _).filterMap _).mem hx)

/-- **The requests after a step** are old, or the one that has just invalidated the registry: it is
fresh if no fetch was in flight. -/
theorem requests_step (h : refreshStep s a = some t) {r : RefreshRequest} (hr : r ∈ t.requests) :
    r ∈ s.requests ∨ r.invalidated = s.steps ∧ (r.idle = true → Fresh s.steps t) := by
  obtain ⟨u, hu, rfl⟩ := Option.map_eq_some_iff.1 h
  cases a with
  | maybeRefresh now =>
      obtain rfl := Option.some.inj hu
      exact .inl (requests_maybeRefresh s none now hr)
  | invalidate =>
      obtain rfl := Option.some.inj hu
      exact .inl hr
  | handlePost now =>
      obtain rfl := Option.some.inj hu
      rcases List.mem_append.1 (requests_maybeRefresh _ _ now hr) with hr | hr
      · right
        obtain rfl := Option.some.inj (Option.mem_toList.1 hr)
        refine ⟨rfl, fun hidle => ?_⟩
        have hnone : s.calls = [] := List.isEmpty_iff.1 hidle
        have hfresh : Fresh s.steps { s with registry := s.registry.invalidate } :=
          ⟨by rw [hnone]; exact fun c hc => absurd hc List.not_mem_nil, .inr (.inr rfl)⟩
        have hnext := hfresh.maybeRefresh (Nat.le_refl _) (some ⟨s.steps, s.calls.isEmpty⟩) now
        exact ⟨hnext.calls, hnext.kept⟩
      · exact .inl hr
  | fetched i f now =>
      obtain ⟨c, hc, rfl⟩ := Option.map_eq_some_iff.1 hu
      exact .inl (requests_fetched hc f now hr)

end Steps

/-! ### Every run -/

section Runs

variable {s : RefreshState} {as : List RefreshAct}

/-- **The invariant:** the registry is fresh for every request that found no fetch in flight. -/
structure Refreshed (g : RegistryCache) (s : RefreshState) : Prop where
  config : s.registry.ttl = g.ttl ∧ s.registry.fetcher = g.fetcher
  past : ∀ r ∈ s.requests, r.invalidated ≤ s.steps
  fresh : ∀ r ∈ s.requests, r.idle = true → Fresh r.invalidated s

theorem config_step {t : RefreshState} {a : RefreshAct} (h : refreshStep s a = some t) :
    t.registry.ttl = s.registry.ttl ∧ t.registry.fetcher = s.registry.fetcher := by
  have hcall : ∀ (u : RefreshState) (r : Option RefreshRequest) (now : ℚ),
      (u.maybeRefresh r now).registry.ttl = u.registry.ttl ∧
        (u.maybeRefresh r now).registry.fetcher = u.registry.fetcher := by
    intro u r now
    rcases maybeRefresh_cases u r now with heq | ⟨l, -, heq⟩ <;> rw [heq] <;> exact ⟨rfl, rfl⟩
  obtain ⟨u, hu, rfl⟩ := Option.map_eq_some_iff.1 h
  cases a with
  | maybeRefresh now =>
      obtain rfl := Option.some.inj hu
      exact hcall s none now
  | invalidate =>
      obtain rfl := Option.some.inj hu
      exact ⟨rfl, rfl⟩
  | handlePost now =>
      obtain rfl := Option.some.inj hu
      exact hcall { s with registry := s.registry.invalidate } _ now
  | fetched i f now =>
      obtain ⟨c, -, rfl⟩ := Option.map_eq_some_iff.1 hu
      obtain ⟨l, -, heq⟩ := fetched_eq s i c f now
      rw [heq]
      cases f <;> exact ⟨rfl, rfl⟩

theorem Refreshed.step {g : RegistryCache} {t : RefreshState} {a : RefreshAct} (hs : Refreshed g s)
    (h : refreshStep s a = some t) : Refreshed g t := by
  have hsteps : t.steps = s.steps + 1 := by
    obtain ⟨u, -, rfl⟩ := Option.map_eq_some_iff.1 h
    rfl
  obtain ⟨httl, hfetcher⟩ := config_step h
  refine ⟨⟨httl.trans hs.config.1, hfetcher.trans hs.config.2⟩, fun r hr => ?_, fun r hr hidle => ?_⟩
  · rcases requests_step h hr with hold | ⟨hnow, -⟩
    · have := hs.past r hold
      omega
    · omega
  · rcases requests_step h hr with hold | ⟨hnow, hfresh⟩
    · exact (hs.fresh r hold hidle).step (hs.past r hold) h
    · rw [hnow]
      exact hfresh hidle

/-- **A refresh is not lost.**  In every run of a registry with a fetcher, for every request that
was answered `refreshed: true` and found no fetch in flight: the snapshot in use is of a fetch
that was started after the `invalidate` of the request, or such a fetch has failed, or
`needs_refresh` is true at every moment from `ttl` on. -/
theorem refresh_not_lost (static : Dict) (ttl : ℚ)
    (h : Exec refreshStep (fun _ _ => True) (.start (.init static ttl true)) as s) :
    ∀ r ∈ s.answered, r.idle = true →
      (∃ f, s.snapshotFrom = some f ∧ r.invalidated ≤ f) ∨ (∃ f ∈ s.failed, r.invalidated ≤ f) ∨
        ∀ now, ttl ≤ now → s.registry.needsRefresh now = true := by
  have hstart : Refreshed (.init static ttl true) (.start (.init static ttl true)) := by
    refine ⟨⟨rfl, rfl⟩, fun r hr => ?_, fun r hr => ?_⟩ <;> cases hr
  have hs := h.invariant hstart fun s a t hs _ hstep => hs.step hstep
  intro r hr hidle
  rcases (hs.fresh r (List.mem_append_left _ hr) hidle).kept with hsnap | hfailed | hcleared
  · exact .inl hsnap
  · exact .inr (.inl hfailed)
  · refine .inr (.inr fun now hnow => ?_)
    obtain ⟨httl, hfetcher⟩ := hs.config
    simp only [RegistryCache.needsRefresh, hfetcher, httl, hcleared, sub_zero]
    exact (Bool.true_and _).trans (decide_eq_true hnow)

/-- A request fetches the registry, while another call of `maybe_refresh` comes. -/
theorem refresh_not_lost_fetched :
    ∃ s, Exec refreshStep (fun _ _ => True) (.start (.init [] 60 true))
        [.handlePost 100, .maybeRefresh 101, .fetched 0 (.snapshot [("app", .obj [])]) 102] s ∧
      s.answered = [⟨0, true⟩] ∧
      ((∃ f, s.snapshotFrom = some f ∧ 0 ≤ f) ∨ (∃ f ∈ s.failed, 0 ≤ f) ∨
        ∀ now, 60 ≤ now → s.registry.needsRefresh now = true) := by
  obtain ⟨s, hexec, hanswered⟩ : ∃ s, Exec refreshStep (fun _ _ => True) (.start (.init [] 60 true))
      [.handlePost 100, .maybeRefresh 101, .fetched 0 (.snapshot [("app", .obj [])]) 102] s ∧
      s.answered = [⟨0, true⟩] := exists_exec_of_runs (by decide +kernel)
  refine ⟨s, hexec, hanswered, refresh_not_lost [] 60 hexec ⟨0, true⟩ ?_ rfl⟩
  rw [hanswered]
  exact List.mem_cons_self

/-- **A refresh may have changed nothing.**  A fetch that fails moves the timestamp, so that the
source is left alone for a while. -/
theorem refresh_put_off :
    ∃ s, Exec refreshStep (fun _ _ => True) (.start (.init [] 60 true))
        [.handlePost 100, .fetched 0 .raises 101] s ∧
      ∃ r ∈ s.answered, (∀ f, s.snapshotFrom = some f → f < r.invalidated) ∧
        s.registry.needsRefresh 102 = false := by
  obtain ⟨s, hexec, hanswered, hsnap, hneeds⟩ : ∃ s, Exec refreshStep (fun _ _ => True)
      (.start (.init [] 60 true)) [.handlePost 100, .fetched 0 .raises 101] s ∧
      s.answered = [⟨0, true⟩] ∧ s.snapshotFrom = none ∧ s.registry.needsRefresh 102 = false :=
    exists_exec_of_runs (by decide +kernel)
  refine ⟨s, hexec, ⟨0, true⟩, by rw [hanswered]; exact List.mem_cons_self, ?_, hneeds⟩
  rw [hsnap]
  intro f hf
  cases hf

end Runs

end MiniApp
end Liza
