/-
# Who says whose handle it is

The doc comment of the service says that a handle is resolved through the
auth-proxy only, and never through the profile field.  `resolve` reads the cache
that `rememberHandle` writes, so this holds as long as `rememberHandle` is called
with answers of the auth-proxy only.  The invariant is that every entry of the
cache, in memory and in the preferences, is backed by an answer at least as late
as its `fetchedAt`.  A call with any other pair breaks it at once: the handle
resolves to that pair's user within the hour.
-/

import Liza.Client.Handles
import Mathlib.Tactic.Linarith

set_option autoImplicit false

namespace Liza
namespace Client

open Lib

/-- The auth-proxy answered `handle → mxid`, at a moment that counts. -/
def Event.answers (handle mxid : PyStr) (counts : ℕ → Bool) : Event → Bool
  | .answered h m t => h = handle && m = mxid && counts t
  | .resolved _ _ _ => false

/-- What `resolve` returned is what the auth-proxy had answered, no longer ago than the
lifetime of the cache. -/
def fromAuthority : List Event → Bool
  | [] => true
  | .resolved handle mxid now :: log =>
      log.any (Event.answers handle mxid fun t => now < t + cacheTtl) && fromAuthority log
  | .answered _ _ _ :: log => fromAuthority log

/-- A call of `rememberHandle` passes on an answer of the auth-proxy, and not later than
the answer came. -/
def Vouched (s : State) : Label → Bool
  | .rememberHandle mxid handle now => s.log.any (Event.answers handle mxid fun t => now ≤ t)
  | _ => true

/-- An entry for `handle` that an answer of the auth-proxy stands behind. -/
def Backed (log : List Event) (handle : PyStr) (entry : HandleCacheEntry) : Prop :=
  ∃ t : ℕ, .answered handle entry.mxid t ∈ log ∧ entry.fetchedAt ≤ t

/-- The invariant of the service. -/
structure Authoritative (s : State) : Prop where
  cache : ∀ e ∈ s.cache, Backed s.log e.1 e.2
  prefs : ∀ d, s.prefs = some (.obj d) → ∀ e ∈ d, ∀ entry,
    HandleCacheEntry.fromJson e.2 = some entry → Backed s.log e.1 entry
  log : fromAuthority s.log = true

variable {s t : State} {handle mxid : PyStr} {entry : HandleCacheEntry} {now : ℕ}

theorem any_answers {log : List Event} {counts : ℕ → Bool} :
    log.any (Event.answers handle mxid counts) = true ↔
      ∃ t, .answered handle mxid t ∈ log ∧ counts t = true := by
  rw [List.any_eq_true]
  constructor
  · rintro ⟨e, he, h⟩
    cases e with
    | answered h' m' t =>
        simp only [Event.answers, Bool.and_eq_true, decide_eq_true_eq] at h
        obtain ⟨⟨rfl, rfl⟩, ht⟩ := h
        exact ⟨t, he, ht⟩
    | resolved h' m' t => cases h
  · rintro ⟨t, he, ht⟩
    exact ⟨_, he, by simp [Event.answers, ht]⟩

theorem Backed.mono {log log' : List Event} (h : Backed log handle entry) (hl : log ⊆ log') :
    Backed log' handle entry := by
  obtain ⟨t, ht, hle⟩ := h
  exact ⟨t, hl ht, hle⟩

/-- An entry that is fresh enough to be returned is backed by an answer within the
lifetime of the cache. -/
theorem Backed.within {log : List Event} (h : Backed log handle entry)
    (hf : entry.fresh now = true) :
    log.any (Event.answers handle entry.mxid fun t => now < t + cacheTtl) = true := by
  obtain ⟨t, ht, hle⟩ := h
  have hlt : (now : ℤ) - entry.fetchedAt < cacheTtl := of_decide_eq_true hf
  refine any_answers.2 ⟨t, ht, decide_eq_true ?_⟩
  omega

/-- What goes through the preferences loses its microseconds only. -/
theorem fromJson_toJson (e : HandleCacheEntry) :
    HandleCacheEntry.fromJson e.toJson = some ⟨e.mxid, e.fetchedAt.tdiv 1000 * 1000⟩ := rfl

/-- An entry stays backed when it goes through the preferences. -/
theorem Backed.toJson {log : List Event} (h : Backed log handle entry) {e : HandleCacheEntry}
    (he : HandleCacheEntry.fromJson entry.toJson = some e) : Backed log handle e := by
  obtain ⟨t, ht, hle⟩ := h
  obtain rfl := Option.some.inj ((fromJson_toJson entry).symm.trans he)
  refine ⟨t, ht, ?_⟩
  show entry.fetchedAt.tdiv 1000 * 1000 ≤ t
  -- `~/` rounds towards zero, so an entry from before the epoch would move up, but not past it
  rcases le_total 0 entry.fetchedAt with h0 | h0
  · have hdiv : entry.fetchedAt.tdiv 1000 = entry.fetchedAt / 1000 := Int.tdiv_eq_ediv_of_nonneg h0
    omega
  · have hneg : (-entry.fetchedAt).tdiv 1000 = -entry.fetchedAt / 1000 :=
      Int.tdiv_eq_ediv_of_nonneg (by omega)
    rw [Int.neg_tdiv] at hneg
    omega

/-! ### What each operation keeps -/

/-- The entries after `_putCacheEntry`: the new one, and entries there were. -/
theorem mem_putCacheEntry {e : PyStr × HandleCacheEntry}
    (h : e ∈ (s.putCacheEntry handle entry).cache) : e = (handle, entry) ∨ e ∈ s.cache := by
  simp only [State.putCacheEntry] at h
  refine (Assoc.mem_set h).imp id fun h => ?_
  split at h
  · split at h
    · exact Assoc.erase_subset _ _ h
    · exact h
  · exact h

/-- The new entry is found. -/
theorem get?_putCacheEntry (s : State) (handle : PyStr) (entry : HandleCacheEntry) :
    (s.putCacheEntry handle entry).cache.get? handle = some entry :=
  Assoc.get?_set_self _ _ _

theorem Authoritative.putCacheEntry (hs : Authoritative s) (hb : Backed s.log handle entry) :
    Authoritative (s.putCacheEntry handle entry) where
  cache := by
    intro e he
    rcases mem_putCacheEntry he with rfl | he
    · exact hb
    · exact hs.cache e he
  prefs := hs.prefs
  log := hs.log

theorem Authoritative.putDecoded (d : List (PyStr × Json)) (hs : Authoritative s)
    (hd : ∀ e ∈ d, ∀ entry, HandleCacheEntry.fromJson e.2 = some entry →
      Backed s.log e.1 entry) : Authoritative (s.putDecoded d) := by
  induction d generalizing s with
  | nil => exact hs
  | cons e rest ih =>
      obtain ⟨handle, v⟩ := e
      simp only [State.putDecoded]
      split
      · rename_i entry hv
        have hb : Backed s.log handle entry := hd _ List.mem_cons_self _ hv
        exact ih (hs.putCacheEntry hb) fun e he => hd e (List.mem_cons_of_mem _ he)
      · exact hs

theorem Authoritative.ensureCacheLoaded (hs : Authoritative s) :
    Authoritative s.ensureCacheLoaded := by
  simp only [State.ensureCacheLoaded]
  split
  · rename_i d hp
    obtain ⟨hc, hp, hl⟩ := hs.putDecoded d (hs.prefs d hp)
    exact ⟨hc, hp, hl⟩
  · exact ⟨hs.cache, hs.prefs, hs.log⟩

theorem Authoritative.persistCache (hs : Authoritative s) : Authoritative s.persistCache where
  cache := hs.cache
  prefs := by
    intro d hd e he entry hentry
    obtain rfl := Json.obj.inj (Option.some.inj hd)
    obtain ⟨c, hc, rfl⟩ := List.mem_map.1 he
    exact (hs.cache c hc).toJson hentry
  log := hs.log

/-- An event that only adds to the log keeps what stands behind the entries. -/
theorem Authoritative.record (hs : Authoritative s) {e : Event}
    (he : fromAuthority (e :: s.log) = true) : Authoritative { s with log := e :: s.log } where
  cache c hc := (hs.cache c hc).mono (List.subset_cons_self _ _)
  prefs d hd c hc entry h := (hs.prefs d hd c hc entry h).mono (List.subset_cons_self _ _)
  log := he

theorem Authoritative.learn (hs : Authoritative s) (now : ℕ) (answer : PyStr × PyStr) :
    Authoritative (s.learn now answer) :=
  (hs.record (e := .answered answer.1 answer.2 now) hs.log).putCacheEntry
    ⟨now, List.mem_cons_self, le_rfl⟩

theorem Authoritative.foldl_learn (hs : Authoritative s) (now : ℕ) (l : List (PyStr × PyStr)) :
    Authoritative (l.foldl (State.learn · now) s) := by
  induction l generalizing s with
  | nil => exact hs
  | cons answer l ih => exact ih (hs.learn now answer)

theorem Authoritative.resolve (hs : Authoritative s) (handle : PyStr) (now : ℕ) :
    Authoritative (s.resolve handle now) := by
  simp only [State.resolve]
  split
  · rename_i cached hc
    split
    · rename_i hf
      have hb : Backed s.log handle cached := hs.cache _ (Assoc.mem_of_get? hc)
      exact hs.record (by simp only [fromAuthority, hb.within hf, hs.log, Bool.and_self])
    · exact ⟨hs.cache, hs.prefs, hs.log⟩
  · exact ⟨hs.cache, hs.prefs, hs.log⟩

theorem Authoritative.response (hs : Authoritative s) (handle : PyStr) (r : Response) (now : ℕ)
    (saved : Bool) : Authoritative (s.response handle r now saved) := by
  have hs' : Authoritative { s with asked := s.asked.erase handle } := ⟨hs.cache, hs.prefs, hs.log⟩
  simp only [State.response]
  split
  · exact hs'
  · rename_i mxid _
    have hl := hs'.learn now (handle, mxid)
    split
    · refine hl.persistCache.record (e := .resolved handle mxid now) ?_
      -- the answer has just been recorded
      have hany : (State.learn { s with asked := s.asked.erase handle } now (handle, mxid)).log.any
          (Event.answers handle mxid fun t => now < t + cacheTtl) = true :=
        any_answers.2 ⟨now, List.mem_cons_self, by simp [cacheTtl]⟩
      exact (Bool.and_eq_true _ _).mpr ⟨hany, hl.log⟩
    · exact hl

theorem Authoritative.setHandle (hs : Authoritative s) (userID : Option PyStr) (handle : PyStr)
    (r : Response) (now : ℕ) : Authoritative (s.setHandle userID handle r now) := by
  simp only [State.setHandle]
  split
  · exact hs.learn now _
  · exact hs

/-- **Every step keeps the invariant**, a call of `rememberHandle` when it passes on an
answer. -/
theorem Authoritative.step {a : Label} (hs : Authoritative s) (hv : Vouched s a = true)
    (h : step s a = some t) : Authoritative t := by
  cases a with
  | load =>
      obtain ⟨-, rfl⟩ : ¬s.loaded = true ∧ s.ensureCacheLoaded = t := by
        simpa [Client.step] using h
      exact hs.ensureCacheLoaded
  | resolve handle now =>
      obtain ⟨-, rfl⟩ : s.loaded = true ∧ s.resolve handle now = t := by
        simpa [Client.step] using h
      exact hs.resolve handle now
  | response handle r now saved =>
      obtain ⟨-, rfl⟩ : handle ∈ s.asked ∧ s.response handle r now saved = t := by
        simpa [Client.step] using h
      exact hs.response handle r now saved
  | persist =>
      obtain rfl := Option.some.inj h
      exact hs.persistCache
  | rememberHandle mxid handle now =>
      obtain rfl := Option.some.inj h
      obtain ⟨at', hmem, hle⟩ := any_answers.1 hv
      exact hs.putCacheEntry ⟨at', hmem, Int.ofNat_le.2 (of_decide_eq_true hle)⟩
  | search r now =>
      obtain rfl := Option.some.inj h
      exact hs.foldl_learn now r.results
  | setHandle userID handle r now =>
      obtain rfl := Option.some.inj h
      exact hs.setHandle userID handle r now
  | restart =>
      obtain rfl := Option.some.inj h
      exact ⟨by simp, hs.prefs, hs.log⟩

theorem authoritative_init : Authoritative init := ⟨by simp [init], by simp [init], rfl⟩

/-! ### Runs -/

/-- A pair that is remembered is what `resolve` returns within the hour. -/
theorem resolve_rememberHandle (s : State) (mxid handle : PyStr) {now later : ℕ}
    (h : later < now + cacheTtl) :
    (s.rememberHandle mxid handle now).resolve handle later =
      { s.rememberHandle mxid handle now with log := .resolved handle mxid later :: s.log } := by
  have hf : (⟨mxid, now⟩ : HandleCacheEntry).fresh later = true := by
    refine decide_eq_true ?_
    show (later : ℤ) - now < cacheTtl
    omega
  simp only [State.resolve, State.rememberHandle, get?_putCacheEntry, hf, if_true]
  rfl

/-- **A handle resolves to the user the auth-proxy named**, in every run in which
`rememberHandle` passes on its answers.  And the condition cannot be relaxed: a call with
another pair is answered by `resolve` with a user the auth-proxy did not name for that
handle within the lifetime of the cache. -/
theorem resolves_as_answered {as : List Label}
    (h : Exec step (fun s a => Vouched s a = true) init as s) :
    fromAuthority s.log = true ∧
      (s.loaded = true → ∀ mxid handle now, Vouched s (.rememberHandle mxid handle now) = true ↔
        ∀ later t u, step s (.rememberHandle mxid handle now) = some t →
          step t (.resolve handle later) = some u → fromAuthority u.log = true) := by
  have hs : Authoritative s :=
    h.invariant authoritative_init fun _ _ _ hs hv hstep => hs.step hv hstep
  refine ⟨hs.log, fun hloaded mxid handle now => ⟨?_, ?_⟩⟩
  · intro hv later t u ht hu
    exact ((hs.step hv ht).step rfl hu).log
  · intro hall
    -- the last moment at which the remembered pair is fresh
    have hlt : now + (cacheTtl - 1) < now + cacheTtl := by simp [cacheTtl]
    have hlog := hall (now + (cacheTtl - 1)) _ _ rfl (if_pos hloaded)
    rw [resolve_rememberHandle s mxid handle hlt] at hlog
    simp only [fromAuthority, Bool.and_eq_true] at hlog
    obtain ⟨t, hmem, ht⟩ := any_answers.1 hlog.1
    refine any_answers.2 ⟨t, hmem, decide_eq_true ?_⟩
    have := of_decide_eq_true ht
    simp only [cacheTtl] at this
    omega

/-- The auth-proxy's answer to a request for a handle. -/
def found (mxid : PyStr) : Response := ⟨200, some (.obj [("mxid", .str mxid)])⟩

/-- What another user has written into the profile. -/
def forged : Dict := [(lizaHandleField, .str " Ivanov ")]

/-- The client resolves a handle, sees the forged profile, is started anew and resolves the
handle again, all within two seconds. -/
def viewing : List Label :=
  [.load, .resolve "ivanov" 0, .response "ivanov" (found "@ivan:h") 0 true,
   .rememberHandle "@mallory:h" "ivanov" 1000, .persist, .restart, .load,
   .resolve "ivanov" 2000000]

/-- **A profile field resolves.**  The auth-proxy has said that the handle is the one
user's; the other one's profile makes it resolve to the other. -/
theorem profile_field_resolves :
    handleFromProfile forged = some "ivanov" ∧
      ∃ s, Exec step (fun _ _ => True) init viewing s ∧
        s.log = [.resolved "ivanov" "@mallory:h" 2000000, .resolved "ivanov" "@ivan:h" 0,
          .answered "ivanov" "@ivan:h" 0] ∧
        fromAuthority s.log = false :=
  ⟨by decide +kernel, exists_exec_of_runs (f := step) (C := fun _ _ => True) (s := init)
    (l := viewing) (by decide +kernel)⟩

/-- The same without the profile: the user who scans a handle is remembered once more, at
the moment of the answer. -/
def scanning : List Label :=
  [.load, .resolve "ivanov" 0, .response "ivanov" (found "@ivan:h") 5 true,
   .rememberHandle "@ivan:h" "ivanov" 5, .persist, .restart, .load, .resolve "ivanov" 2000000]

theorem scanning_resolves :
    ∃ s, Exec step (fun s a => Vouched s a = true) init scanning s ∧
      .resolved "ivanov" "@ivan:h" 2000000 ∈ s.log ∧ fromAuthority s.log = true := by
  obtain ⟨s, hs, hmem⟩ := exists_exec_of_runs (f := step) (C := fun s a => Vouched s a = true)
    (s := init) (l := scanning) (p := fun s => .resolved "ivanov" "@ivan:h" 2000000 ∈ s.log)
    (by decide +kernel)
  exact ⟨s, hs, hmem, (resolves_as_answered hs).1⟩

end Client
end Liza
