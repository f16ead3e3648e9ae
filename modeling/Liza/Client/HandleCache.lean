/-
# The two indexes of the handle cache, and what is on disk

`_cache` and `_byMxid` are written by `_putCacheEntry` alone, which keeps them inverse to each other
(`Inverse`): the pairs of a handle and a user that the service holds are a matching, and a new pair
drives out the pairs that share its handle or its user (`holds_putCacheEntry`).

Beside the state, `Traced` records every pair the client has learned, in order, and for each handle
in memory and on disk which of them its entry is.  A pair is superseded by a later one that shares
its handle or its user and not both.

The preferences are read once, at the first `resolve`.  What was learned before is driven out by
what is read, and what is written before replaces what was not read; a service that loads first
does neither (`LoadedFirst`).
-/

import Liza.Client.Resolve
import Mathlib.Data.List.Nodup

set_option autoImplicit false

namespace Liza
namespace Client

open Lib

/-! ### The two indexes -/

/-- `_cache` has the user `mxid` for the handle. -/
def State.holds (s : State) (handle mxid : PyStr) : Prop :=
  ∃ e, s.cache.get? handle = some e ∧ e.mxid = mxid

/-- `_cache` and `_byMxid` are inverse to each other. -/
def Inverse (s : State) : Prop :=
  ∀ handle mxid, s.holds handle mxid ↔ s.byMxid.get? mxid = some handle

variable {s t : State} {handle mxid h m : PyStr} {entry : HandleCacheEntry}

/-- A handle has one user. -/
theorem State.holds.user_eq {m' : PyStr} (h₁ : s.holds h m) (h₂ : s.holds h m') : m = m' := by
  obtain ⟨e, he, rfl⟩ := h₁
  obtain ⟨e', he', rfl⟩ := h₂
  rw [Option.some.inj (he.symm.trans he')]

/-- `_byMxid` after the first half of `_putCacheEntry`. -/
def State.droppedMxid (s : State) (handle : PyStr) (entry : HandleCacheEntry) : Assoc PyStr PyStr :=
  match s.cache.get? handle with
  | some previous => if previous.mxid ≠ entry.mxid then s.byMxid.erase previous.mxid else s.byMxid
  | none => s.byMxid

/-- The first half takes away the user that the handle had. -/
theorem get?_droppedMxid (hs : Inverse s) (m : PyStr) :
    (s.droppedMxid handle entry).get? m = some h ↔
      s.holds h m ∧ (h = handle → m = entry.mxid) := by
  unfold State.droppedMxid
  cases hprev : s.cache.get? handle with
  | none =>
      rw [← hs h m]
      refine ⟨fun hh => ⟨hh, ?_⟩, fun hh => hh.1⟩
      rintro rfl
      obtain ⟨e, he, -⟩ := hh
      rw [hprev] at he
      cases he
  | some previous =>
      have hold : s.holds handle previous.mxid := ⟨previous, hprev, rfl⟩
      dsimp only
      split
      · rename_i hne
        rw [Assoc.get?_erase]
        split
        · rename_i hm
          constructor
          · intro hnone
            cases hnone
          · rintro ⟨hh, himp⟩
            -- the user had the handle that is assigned, so it was that handle
            rw [hm] at hh himp
            have hsame : h = handle :=
              Option.some.inj (((hs h _).1 hh).symm.trans ((hs handle _).1 hold))
            exact absurd (himp hsame) hne
        · rename_i hm
          rw [← hs h m]
          refine ⟨fun hh => ⟨hh, ?_⟩, fun hh => hh.1⟩
          rintro rfl
          exact absurd (hh.user_eq hold) hm
      · rename_i heq
        have heq' : previous.mxid = entry.mxid := by simpa using heq
        rw [← hs h m]
        refine ⟨fun hh => ⟨hh, ?_⟩, fun hh => hh.1⟩
        rintro rfl
        rw [← heq']
        exact hh.user_eq hold

/-- The entries after `_putCacheEntry`. -/
theorem get?_cache_put (s : State) (handle : PyStr) (entry : HandleCacheEntry) (hne : h ≠ handle) :
    (s.putCacheEntry handle entry).cache.get? h =
      if (s.droppedMxid handle entry).get? entry.mxid = some h then none
      else s.cache.get? h := by
  unfold State.putCacheEntry
  simp only [Assoc.get?_set_of_ne _ _ hne]
  split
  · rename_i stale hstale
    have hdropped : (s.droppedMxid handle entry).get? entry.mxid = some stale := hstale
    rw [hdropped]
    by_cases hsame : stale = h
    · subst hsame
      rw [if_pos hne, if_pos rfl, Assoc.get?_erase, if_pos rfl]
    · rw [if_neg fun heq => hsame (Option.some.inj heq)]
      split
      · rw [Assoc.get?_erase, if_neg (Ne.symm hsame)]
      · rfl
  · rename_i hnone
    have hdropped : (s.droppedMxid handle entry).get? entry.mxid = none := hnone
    rw [hdropped, if_neg (by simp)]

/-- **What is held after `_putCacheEntry`**: the new pair, and the pairs that share nothing with
it. -/
theorem holds_putCacheEntry (hs : Inverse s) :
    (s.putCacheEntry handle entry).holds h m ↔
      (h = handle ∧ m = entry.mxid) ∨ (h ≠ handle ∧ m ≠ entry.mxid ∧ s.holds h m) := by
  by_cases hh : h = handle
  · subst hh
    unfold State.holds
    rw [get?_putCacheEntry]
    simp [eq_comm]
  · unfold State.holds
    rw [get?_cache_put s handle entry hh]
    have hiff : (s.droppedMxid handle entry).get? entry.mxid = some h ↔ s.holds h entry.mxid := by
      rw [get?_droppedMxid hs]
      exact and_iff_left fun heq => absurd heq hh
    split
    · rename_i hdrop
      have hold := hiff.1 hdrop
      constructor
      · rintro ⟨e, he, -⟩
        cases he
      · rintro (⟨heq, -⟩ | ⟨-, hne, hm⟩)
        · exact absurd heq hh
        · exact absurd (State.holds.user_eq hm hold) hne
    · rename_i hdrop
      constructor
      · intro hold
        refine .inr ⟨hh, ?_, hold⟩
        rintro rfl
        exact hdrop (hiff.2 hold)
      · rintro (⟨heq, -⟩ | ⟨-, -, hm⟩)
        · exact absurd heq hh
        · exact hm

/-- `_putCacheEntry` keeps the indexes inverse. -/
theorem Inverse.putCacheEntry (hs : Inverse s) (handle : PyStr) (entry : HandleCacheEntry) :
    Inverse (s.putCacheEntry handle entry) := by
  intro h m
  rw [holds_putCacheEntry hs]
  change _ ↔ Assoc.get? (Assoc.set (s.droppedMxid handle entry) entry.mxid handle) m = some h
  by_cases hm : m = entry.mxid
  · subst hm
    rw [Assoc.get?_set_self]
    simp [eq_comm]
  · rw [Assoc.get?_set_of_ne _ _ hm, get?_droppedMxid hs]
    constructor
    · rintro (⟨-, heq⟩ | ⟨hne, -, hold⟩)
      · exact absurd heq hm
      · exact ⟨hold, fun heq => absurd heq hne⟩
    · rintro ⟨hold, himp⟩
      exact .inr ⟨fun heq => hm (himp heq), hm, hold⟩

/-- No handle stands twice. -/
theorem keyed_putCacheEntry (hs : s.cache.Keyed) (handle : PyStr) (entry : HandleCacheEntry) :
    (s.putCacheEntry handle entry).cache.Keyed := by
  refine Assoc.Keyed.set ?_ handle entry
  split
  · split
    · exact hs.erase _
    · exact hs
  · exact hs

/-! ### What is on disk -/

/-- The entry that is read for a handle. -/
def diskEntry (prefs : Option Json) (handle : PyStr) : Option HandleCacheEntry :=
  match prefs with
  | some (.obj decoded) => (Dict.get? decoded handle).bind HandleCacheEntry.fromJson
  | _ => none

/-- The preferences have the user `mxid` for the handle. -/
def State.onDisk (s : State) (handle mxid : PyStr) : Prop :=
  ∃ e, diskEntry s.prefs handle = some e ∧ e.mxid = mxid

/-- The value that `_persistCache` writes for a cache. -/
def encoded (l : Assoc PyStr HandleCacheEntry) : Json := .obj (l.map fun e => (e.1, e.2.toJson))

/-- A value that was written for a cache: no handle and no user stands twice. -/
structure Written (l : Assoc PyStr HandleCacheEntry) : Prop where
  handles : l.Keyed
  users : (l.map fun e => e.2.mxid).Nodup

theorem diskEntry_encoded (l : Assoc PyStr HandleCacheEntry) (handle : PyStr) :
    diskEntry (some (encoded l)) handle =
      (l.get? handle).map fun e => ⟨e.mxid, e.fetchedAt.tdiv 1000 * 1000⟩ := by
  unfold diskEntry encoded
  dsimp only
  induction l with
  | nil => rfl
  | cons e rest ih =>
      obtain ⟨j, v⟩ := e
      simp only [List.map_cons, Dict.get?_cons, Assoc.get?]
      split
      · rfl
      · exact ih

/-- After a write the disk has what is held. -/
theorem onDisk_persistCache (s : State) : s.persistCache.onDisk h m ↔ s.holds h m := by
  unfold State.onDisk State.holds
  have hprefs : s.persistCache.prefs = some (encoded s.cache) := rfl
  rw [hprefs, diskEntry_encoded]
  cases s.cache.get? h with
  | none => simp
  | some e => simp

/-- What is held can be written. -/
theorem written_cache (hs : Inverse s) (hkeyed : s.cache.Keyed) : Written s.cache where
  handles := hkeyed
  users := by
    have hholds : ∀ e ∈ s.cache, s.byMxid.get? e.2.mxid = some e.1 := fun e he =>
      (hs _ _).1 ⟨e.2, hkeyed.get?_of_mem he, rfl⟩
    refine (List.nodup_map_iff_inj_on (List.Nodup.of_map _ hkeyed)).2 fun x hx y hy hxy => ?_
    have hx' := hholds x hx
    rw [hxy, hholds y hy] at hx'
    have hfst : x.1 = y.1 := (Option.some.inj hx').symm
    have hsnd := hkeyed.get?_of_mem hx
    rw [hfst, hkeyed.get?_of_mem hy] at hsnd
    exact Prod.ext hfst (Option.some.inj hsnd).symm

/-- Reading keeps the indexes inverse, and the handles apart. -/
theorem inverse_putDecoded (d : List (PyStr × Json)) (hs : Inverse s) : Inverse (s.putDecoded d) := by
  induction d generalizing s with
  | nil => exact hs
  | cons e d ih =>
      obtain ⟨k, v⟩ := e
      unfold State.putDecoded
      split
      · exact ih (hs.putCacheEntry k _)
      · exact hs

theorem keyed_putDecoded (d : List (PyStr × Json)) (hs : s.cache.Keyed) :
    (s.putDecoded d).cache.Keyed := by
  induction d generalizing s with
  | nil => exact hs
  | cons e d ih =>
      obtain ⟨k, v⟩ := e
      unfold State.putDecoded
      split
      · exact ih (keyed_putCacheEntry hs k _)
      · exact hs

/-- What is held after reading what was written: all of it, and what shares nothing with it. -/
theorem holds_putDecoded {l : Assoc PyStr HandleCacheEntry} (hl : Written l) (hs : Inverse s) :
    (s.putDecoded (l.map fun e => (e.1, e.2.toJson))).holds h m ↔
      (∃ e, (h, e) ∈ l ∧ e.mxid = m) ∨
        (s.holds h m ∧ h ∉ l.map Prod.fst ∧ m ∉ l.map fun e => e.2.mxid) := by
  induction l generalizing s with
  | nil => simp [State.putDecoded]
  | cons e rest ih =>
      obtain ⟨k, v⟩ := e
      obtain ⟨hhandles, husers⟩ := hl
      have hk := (List.nodup_cons.1 hhandles).1
      have hv := (List.nodup_cons.1 husers).1
      have hrest : Written rest := ⟨(List.nodup_cons.1 hhandles).2, (List.nodup_cons.1 husers).2⟩
      have hput : s.putDecoded (((k, v) :: rest).map fun e => (e.1, e.2.toJson)) =
          (s.putCacheEntry k ⟨v.mxid, v.fetchedAt.tdiv 1000 * 1000⟩).putDecoded
            (rest.map fun e => (e.1, e.2.toJson)) := rfl
      rw [hput, ih hrest (hs.putCacheEntry k _), holds_putCacheEntry hs]
      dsimp only at hv ⊢
      constructor
      · rintro (⟨e, he, rfl⟩ | ⟨⟨rfl, rfl⟩ | ⟨hne, hne', hold⟩, hh, hm⟩)
        · exact .inl ⟨e, List.mem_cons_of_mem _ he, rfl⟩
        · exact .inl ⟨v, List.mem_cons_self, rfl⟩
        · exact .inr ⟨hold, by simpa [hne] using hh, by simpa [hne'] using hm⟩
      · rintro (⟨e, he, rfl⟩ | ⟨hold, hh, hm⟩)
        · rcases List.mem_cons.1 he with heq | he
          · obtain ⟨rfl, rfl⟩ := Prod.mk.inj heq
            exact .inr ⟨.inl ⟨rfl, rfl⟩, hk, hv⟩
          · exact .inl ⟨e, he, rfl⟩
        · simp only [List.map_cons, List.mem_cons, not_or] at hh hm
          exact .inr ⟨.inr ⟨hh.1, hm.1, hold⟩, hh.2, hm.2⟩

/-! ### What was learned when -/

/-- The service with the pairs of a handle and a user that the client has learned, in order, and
which of them the entry of a handle is: in memory, and on disk. -/
structure Traced where
  state : State
  learned : List (PyStr × PyStr)
  seq : PyStr → ℕ
  diskSeq : PyStr → ℕ

/-- The handles that `_ensureCacheLoaded` reads. -/
def decodedHandles : List (PyStr × Json) → List PyStr
  | [] => []
  | (handle, v) :: rest =>
      match HandleCacheEntry.fromJson v with
      | some _ => handle :: decodedHandles rest
      | none => []

/-- The handles that are read from the preferences. -/
def loadedHandles (prefs : Option Json) : List PyStr :=
  match prefs with
  | some (.obj decoded) => decodedHandles decoded
  | _ => []

namespace Traced

/-- The same with another state. -/
def withState (x : Traced) (s : State) : Traced := { x with state := s }

/-- `rememberHandle`: the pair is the last that was learned. -/
def rememberHandle (x : Traced) (mxid handle : PyStr) (now : ℕ) : Traced :=
  { x with
    state := x.state.rememberHandle mxid handle now
    learned := x.learned ++ [(handle, mxid)]
    seq := fun h => if h = handle then x.learned.length else x.seq h }

/-- An answer of the auth-proxy is remembered. -/
def learn (x : Traced) (now : ℕ) (answer : PyStr × PyStr) : Traced :=
  (x.withState { x.state with log := .answered answer.1 answer.2 now :: x.state.log }).rememberHandle
    answer.2 answer.1 now

/-- `_ensureCacheLoaded`: an entry that is read is as old as it was on disk. -/
def load (x : Traced) : Traced :=
  { x with
    state := x.state.ensureCacheLoaded
    seq := fun h => if h ∈ loadedHandles x.state.prefs then x.diskSeq h else x.seq h }

/-- `_persistCache`. -/
def persist (x : Traced) : Traced := { x with state := x.state.persistCache, diskSeq := x.seq }

/-- `resolve` from the response on. -/
def response (x : Traced) (handle : PyStr) (r : Response) (now : ℕ) (saved : Bool) : Traced :=
  let x := x.withState { x.state with asked := x.state.asked.erase handle }
  match r.mxid with
  | none => x
  | some mxid =>
      let x := x.learn now (handle, mxid)
      if saved then
        x.persist.withState { x.state.persistCache with log := .resolved handle mxid now :: x.state.log }
      else x

/-- The part of `setHandle` that touches the cache. -/
def setHandle (x : Traced) (userID : Option PyStr) (handle : PyStr) (r : Response) (now : ℕ) :
    Traced :=
  match r.statusCode, userID with
  | 200, some userId => x.learn now (handle, userId)
  | _, _ => x

end Traced

/-- One step, with what it teaches. -/
def tracedStep (x : Traced) : Label → Option Traced
  | .load => if x.state.loaded then none else some x.load
  | .resolve handle now =>
      if x.state.loaded then some (x.withState (x.state.resolve handle now)) else none
  | .response handle r now saved =>
      if handle ∈ x.state.asked then some (x.response handle r now saved) else none
  | .persist => some x.persist
  | .rememberHandle mxid handle now => some (x.rememberHandle mxid handle now)
  | .search r now => some (r.results.foldl (Traced.learn · now) x)
  | .setHandle userID handle r now => some (x.setHandle userID handle r now)
  | .restart =>
      some (x.withState { x.state with cache := [], byMxid := [], loaded := false, asked := [] })

/-- A fresh installation has learned nothing. -/
def Traced.init : Traced := ⟨Client.init, [], fun _ => 0, fun _ => 0⟩

theorem state_foldl_learn (x : Traced) (now : ℕ) (l : List (PyStr × PyStr)) :
    (l.foldl (Traced.learn · now) x).state = l.foldl (State.learn · now) x.state := by
  induction l generalizing x with
  | nil => rfl
  | cons a l ih => exact ih (x.learn now a)

/-- **The trace is beside the state: its steps are those of the service.** -/
theorem state_tracedStep (x : Traced) (a : Label) :
    (tracedStep x a).map Traced.state = step x.state a := by
  cases a with
  | load =>
      simp only [tracedStep, step]
      split <;> rfl
  | resolve handle now =>
      simp only [tracedStep, step]
      split <;> rfl
  | response handle r now saved =>
      simp only [tracedStep, step]
      split
      · simp only [Option.map_some, Traced.response, State.response]
        cases r.mxid with
        | none => rfl
        | some mxid => cases saved <;> rfl
      · rfl
  | persist => rfl
  | rememberHandle mxid handle now => rfl
  | search r now => exact congrArg some (state_foldl_learn x now r.results)
  | setHandle userID handle r now =>
      simp only [tracedStep, step, Option.map_some, Traced.setHandle, State.setHandle]
      by_cases hstatus : r.statusCode = 200
      · cases userID with
        | none => simp [hstatus]
        | some userId =>
            simp only [hstatus]
            rfl
      · simp [hstatus]
  | restart => rfl

/-- A later pair shares the handle or the user, and not both. -/
def Superseded (x : Traced) (k : ℕ) (h m : PyStr) : Prop :=
  ∃ i h' m', k < i ∧ x.learned[i]? = some (h', m') ∧ (h' = h ∧ m' ≠ m ∨ m' = m ∧ h' ≠ h)

/-- What is learned and written only after the preferences were read. -/
def LoadedFirst (x : Traced) : Label → Prop
  | .rememberHandle _ _ _ => x.state.loaded = true
  | .search _ _ => x.state.loaded = true
  | .setHandle _ _ _ _ => x.state.loaded = true
  | .persist => x.state.loaded = true
  | _ => True

instance (x : Traced) : (a : Label) → Decidable (LoadedFirst x a)
  | .rememberHandle _ _ _ => inferInstanceAs (Decidable (x.state.loaded = true))
  | .search _ _ => inferInstanceAs (Decidable (x.state.loaded = true))
  | .setHandle _ _ _ _ => inferInstanceAs (Decidable (x.state.loaded = true))
  | .persist => inferInstanceAs (Decidable (x.state.loaded = true))
  | .load => .isTrue trivial
  | .resolve _ _ => .isTrue trivial
  | .response _ _ _ _ => .isTrue trivial
  | .restart => .isTrue trivial

/-- The invariant of a service that loads first: before that nothing is held; the numbers are those
of the pairs; and of what is on disk, what is not held any more was superseded. -/
structure Tracked (x : Traced) : Prop where
  inverse : Inverse x.state
  keyed : x.state.cache.Keyed
  empty : x.state.loaded = false → x.state.cache = [] ∧ x.state.byMxid = []
  asked : x.state.loaded = false → x.state.asked = []
  disk : x.state.prefs = none ∨ ∃ l, Written l ∧ x.state.prefs = some (encoded l)
  seq : ∀ h m, x.state.holds h m → x.seq h < x.learned.length
  diskSeq : ∀ h m, x.state.onDisk h m → x.diskSeq h < x.learned.length
  kept : x.state.loaded = true → ∀ h m, x.state.onDisk h m →
    (x.state.holds h m ∧ x.diskSeq h ≤ x.seq h) ∨ Superseded x (x.diskSeq h) h m

/-- What holds from one state to a later one: a pair that is held was held, or is learned since. -/
def Advances (x y : Traced) : Prop :=
  x.learned <+: y.learned ∧ ∀ h m, y.state.holds h m →
    (x.state.holds h m ∧ y.seq h = x.seq h) ∨ x.learned.length ≤ y.seq h

theorem Superseded.mono {x y : Traced} {k : ℕ} (hxy : x.learned <+: y.learned)
    (hsup : Superseded x k h m) : Superseded y k h m := by
  obtain ⟨i, h', m', hk, hi, hcase⟩ := hsup
  obtain ⟨rest, hrest⟩ := hxy
  have hlt : i < x.learned.length := (List.getElem?_eq_some_iff.1 hi).1
  refine ⟨i, h', m', hk, ?_, hcase⟩
  rw [← hrest, List.getElem?_append_left hlt, hi]

theorem Advances.refl (x : Traced) : Advances x x := ⟨List.prefix_refl _, fun _ _ hh => .inl ⟨hh, rfl⟩⟩

theorem Advances.trans {x y z : Traced} (hxy : Advances x y) (hyz : Advances y z) :
    Advances x z := by
  refine ⟨hxy.1.trans hyz.1, fun h m hh => ?_⟩
  have hle := hxy.1.length_le
  rcases hyz.2 h m hh with ⟨hy, hseq⟩ | hlate
  · rcases hxy.2 h m hy with ⟨hx, hseq'⟩ | hlate
    · exact .inl ⟨hx, hseq.trans hseq'⟩
    · exact .inr (hseq ▸ hlate)
  · exact .inr (hle.trans hlate)

/-- What is held for a user is not older later on. -/
theorem Advances.newest {x y : Traced} (hx : Tracked x) (hy : Inverse y.state)
    (hxy : Advances x y) {h' : PyStr} (hold : x.state.byMxid.get? m = some h)
    (hnew : y.state.byMxid.get? m = some h') : x.seq h ≤ y.seq h' := by
  have hheld := (hx.inverse h m).2 hold
  have hlt := hx.seq h m hheld
  rcases hxy.2 h' m ((hy h' m).2 hnew) with ⟨hheld', hseq⟩ | hlate
  · have hsame : h' = h :=
      Option.some.inj (((hx.inverse h' m).1 hheld').symm.trans hold)
    rw [hseq, hsame]
  · omega

/-! ### What each operation keeps -/

variable {x : Traced} {now : ℕ}

/-- A change of the log alone. -/
theorem Tracked.log (hx : Tracked x) (log : List Event) :
    Tracked (x.withState { x.state with log := log }) :=
  ⟨hx.inverse, hx.keyed, hx.empty, hx.asked, hx.disk, hx.seq, hx.diskSeq, hx.kept⟩

/-- A change of what is asked for, once the preferences were read. -/
theorem Tracked.setAsked (hx : Tracked x) (hloaded : x.state.loaded = true) (asked : List PyStr) :
    Tracked (x.withState { x.state with asked := asked }) := by
  refine ⟨hx.inverse, hx.keyed, hx.empty, fun hnot => ?_, hx.disk, hx.seq, hx.diskSeq, hx.kept⟩
  rw [show (x.withState { x.state with asked := asked }).state.loaded = x.state.loaded from rfl,
    hloaded] at hnot
  cases hnot

/-- A pair that is learned, once the preferences were read. -/
theorem Tracked.rememberHandle (hx : Tracked x) (hloaded : x.state.loaded = true)
    (mxid handle : PyStr) (now : ℕ) :
    Tracked (x.rememberHandle mxid handle now) ∧ Advances x (x.rememberHandle mxid handle now) := by
  have hholds : ∀ h m, (x.rememberHandle mxid handle now).state.holds h m ↔
      (h = handle ∧ m = mxid) ∨ (h ≠ handle ∧ m ≠ mxid ∧ x.state.holds h m) :=
    fun h m => holds_putCacheEntry hx.inverse
  have hnot : ¬(x.rememberHandle mxid handle now).state.loaded = false := by
    have hsame : (x.rememberHandle mxid handle now).state.loaded = x.state.loaded := rfl
    rw [hsame, hloaded]
    exact Bool.noConfusion
  have hlength : (x.rememberHandle mxid handle now).learned.length = x.learned.length + 1 :=
    List.length_append
  have hseq : (x.rememberHandle mxid handle now).seq handle = x.learned.length := if_pos rfl
  have hseqne : ∀ h, h ≠ handle → (x.rememberHandle mxid handle now).seq h = x.seq h :=
    fun h hne => if_neg hne
  refine ⟨⟨hx.inverse.putCacheEntry _ _, keyed_putCacheEntry hx.keyed _ _, fun h => absurd h hnot,
    fun h => absurd h hnot, hx.disk, ?_, ?_, ?_⟩, ⟨⟨_, rfl⟩, ?_⟩⟩
  · intro h m hh
    rw [hlength]
    rcases (hholds h m).1 hh with ⟨rfl, rfl⟩ | ⟨hne, -, hold⟩
    · rw [hseq]
      omega
    · rw [hseqne h hne]
      have hlt := hx.seq h m hold
      omega
  · intro h m hdisk
    rw [hlength]
    have hlt := hx.diskSeq h m hdisk
    exact Nat.lt_succ_of_lt hlt
  · intro _ h m hdisk
    have hlt := hx.diskSeq h m hdisk
    rcases hx.kept hloaded h m hdisk with ⟨hold, hle⟩ | hsup
    · by_cases hh : h = handle
      · by_cases hm : m = mxid
        · refine .inl ⟨(hholds h m).2 (.inl ⟨hh, hm⟩), ?_⟩
          rw [hh, hseq, ← hh]
          exact hlt.le
        · exact .inr ⟨x.learned.length, handle, mxid, hlt, List.getElem?_concat_length,
            .inl ⟨hh.symm, Ne.symm hm⟩⟩
      · by_cases hm : m = mxid
        · exact .inr ⟨x.learned.length, handle, mxid, hlt, List.getElem?_concat_length,
            .inr ⟨hm.symm, Ne.symm hh⟩⟩
        · refine .inl ⟨(hholds h m).2 (.inr ⟨hh, hm, hold⟩), ?_⟩
          rw [hseqne h hh]
          exact hle
    · exact .inr (hsup.mono ⟨_, rfl⟩)
  · intro h m hh
    rcases (hholds h m).1 hh with ⟨rfl, rfl⟩ | ⟨hne, -, hold⟩
    · exact .inr hseq.ge
    · exact .inl ⟨hold, hseqne h hne⟩

theorem Tracked.learn (hx : Tracked x) (hloaded : x.state.loaded = true) (now : ℕ)
    (answer : PyStr × PyStr) :
    Tracked (x.learn now answer) ∧ Advances x (x.learn now answer) :=
  (hx.log (.answered answer.1 answer.2 now :: x.state.log)).rememberHandle hloaded answer.2
    answer.1 now

theorem Tracked.foldl_learn (hx : Tracked x) (hloaded : x.state.loaded = true) (now : ℕ)
    (l : List (PyStr × PyStr)) :
    Tracked (l.foldl (Traced.learn · now) x) ∧ Advances x (l.foldl (Traced.learn · now) x) := by
  induction l generalizing x with
  | nil => exact ⟨hx, Advances.refl x⟩
  | cons a l ih =>
      obtain ⟨hlearn, hadvance⟩ := hx.learn hloaded now a
      obtain ⟨hrest, hadvance'⟩ := ih hlearn hloaded
      exact ⟨hrest, hadvance.trans hadvance'⟩

/-- A write, once the preferences were read. -/
theorem Tracked.persist (hx : Tracked x) (hloaded : x.state.loaded = true) :
    Tracked x.persist := by
  have hnot : ¬x.persist.state.loaded = false := by
    have hsame : x.persist.state.loaded = x.state.loaded := rfl
    rw [hsame, hloaded]
    exact Bool.noConfusion
  refine ⟨hx.inverse, hx.keyed, fun h => absurd h hnot, fun h => absurd h hnot,
    .inr ⟨_, written_cache hx.inverse hx.keyed, rfl⟩, hx.seq, ?_, ?_⟩
  · intro h m hdisk
    exact hx.seq h m ((onDisk_persistCache x.state).1 hdisk)
  · intro _ h m hdisk
    exact .inl ⟨(onDisk_persistCache x.state).1 hdisk, le_refl _⟩

/-- What a write takes from the disk was superseded. -/
theorem Tracked.kept_persist (hx : Tracked x) (hloaded : x.state.loaded = true)
    (hdisk : x.state.onDisk h m) :
    x.persist.state.onDisk h m ∨ Superseded x.persist (x.diskSeq h) h m := by
  rcases hx.kept hloaded h m hdisk with ⟨hold, -⟩ | hsup
  · exact .inl ((onDisk_persistCache x.state).2 hold)
  · exact .inr (hsup.mono (List.prefix_refl _))

/-- Reading leaves the preferences. -/
theorem prefs_putDecoded (s : State) (d : List (PyStr × Json)) :
    (s.putDecoded d).prefs = s.prefs := by
  induction d generalizing s with
  | nil => rfl
  | cons e d ih =>
      obtain ⟨k, v⟩ := e
      unfold State.putDecoded
      split
      · exact ih _
      · rfl

theorem prefs_ensureCacheLoaded (s : State) : s.ensureCacheLoaded.prefs = s.prefs := by
  unfold State.ensureCacheLoaded
  split
  · exact prefs_putDecoded s _
  · rfl

theorem loaded_ensureCacheLoaded (s : State) : s.ensureCacheLoaded.loaded = true := by
  unfold State.ensureCacheLoaded
  split <;> rfl

/-- The handles of what was written are all read. -/
theorem loadedHandles_encoded (l : Assoc PyStr HandleCacheEntry) :
    loadedHandles (some (encoded l)) = l.map Prod.fst := by
  unfold loadedHandles encoded
  dsimp only
  induction l with
  | nil => rfl
  | cons e rest ih =>
      rw [List.map_cons, List.map_cons, ← ih]
      rfl

theorem inverse_ensureCacheLoaded (hs : Inverse s) : Inverse s.ensureCacheLoaded := by
  unfold State.ensureCacheLoaded
  split
  · exact inverse_putDecoded _ hs
  · exact hs

theorem keyed_ensureCacheLoaded (hs : s.cache.Keyed) : s.ensureCacheLoaded.cache.Keyed := by
  unfold State.ensureCacheLoaded
  split
  · exact keyed_putDecoded _ hs
  · exact hs

/-- Reading into an empty cache: what is held is what is on disk. -/
theorem Tracked.holds_load (hx : Tracked x) (hloaded : x.state.loaded = false) :
    x.load.state.holds h m ↔ x.state.onDisk h m := by
  have hnone : ∀ h m, ¬x.state.holds h m := by
    rintro h m ⟨e, he, -⟩
    rw [(hx.empty hloaded).1] at he
    cases he
  change x.state.ensureCacheLoaded.holds h m ↔ _
  unfold State.ensureCacheLoaded
  rcases hx.disk with hprefs | ⟨l, hl, hprefs⟩
  · rw [hprefs]
    unfold State.onDisk
    rw [hprefs]
    refine ⟨fun hh => absurd hh (hnone h m), ?_⟩
    rintro ⟨e, he, -⟩
    cases he
  · rw [hprefs]
    unfold State.onDisk
    rw [hprefs, diskEntry_encoded]
    change (x.state.putDecoded (l.map fun e => (e.1, e.2.toJson))).holds h m ↔ _
    rw [holds_putDecoded hl hx.inverse]
    constructor
    · rintro (⟨e, he, rfl⟩ | ⟨hold, -⟩)
      · rw [hl.handles.get?_of_mem he]
        exact ⟨_, rfl, rfl⟩
      · exact absurd hold (hnone h m)
    · rintro ⟨e, he, rfl⟩
      obtain ⟨e', he', rfl⟩ := Option.map_eq_some_iff.1 he
      exact .inl ⟨e', Assoc.mem_of_get? he', rfl⟩

/-- An entry that is read is as old as it was on disk. -/
theorem Tracked.seq_load (hx : Tracked x) (hdisk : x.state.onDisk h m) :
    x.load.seq h = x.diskSeq h := by
  refine if_pos ?_
  obtain ⟨e, he, -⟩ := hdisk
  rcases hx.disk with hprefs | ⟨l, -, hprefs⟩
  · rw [hprefs] at he
    cases he
  · rw [hprefs, diskEntry_encoded] at he
    rw [hprefs, loadedHandles_encoded]
    obtain ⟨e', he', -⟩ := Option.map_eq_some_iff.1 he
    exact List.mem_map.2 ⟨_, Assoc.mem_of_get? he', rfl⟩

/-- The preferences are read. -/
theorem Tracked.load (hx : Tracked x) (hloaded : x.state.loaded = false) : Tracked x.load := by
  have hnot : ¬x.load.state.loaded = false := by
    rw [show x.load.state.loaded = true from loaded_ensureCacheLoaded x.state]
    exact Bool.noConfusion
  have hprefs : x.load.state.prefs = x.state.prefs := prefs_ensureCacheLoaded x.state
  have hdisk : ∀ h m, x.load.state.onDisk h m ↔ x.state.onDisk h m := by
    intro h m
    unfold State.onDisk
    rw [hprefs]
  refine ⟨inverse_ensureCacheLoaded hx.inverse, keyed_ensureCacheLoaded hx.keyed,
    fun h => absurd h hnot, fun h => absurd h hnot, ?_, ?_, ?_, ?_⟩
  · rw [hprefs]
    exact hx.disk
  · intro h m hh
    have hd := (hx.holds_load hloaded).1 hh
    rw [hx.seq_load hd]
    exact hx.diskSeq h m hd
  · intro h m hd
    exact hx.diskSeq h m ((hdisk h m).1 hd)
  · intro _ h m hd
    have hd' := (hdisk h m).1 hd
    refine .inl ⟨(hx.holds_load hloaded).2 hd', ?_⟩
    rw [hx.seq_load hd']
    exact le_refl _

/-- The process ends. -/
theorem Tracked.restart (hx : Tracked x) : Tracked (x.withState
    { x.state with cache := [], byMxid := [], loaded := false, asked := [] }) := by
  refine ⟨?_, List.nodup_nil, fun _ => ⟨rfl, rfl⟩, fun _ => rfl, hx.disk, ?_, hx.diskSeq, ?_⟩
  · intro h m
    constructor
    · rintro ⟨e, he, -⟩
      cases he
    · intro hh
      cases hh
  · rintro h m ⟨e, he, -⟩
    cases he
  · intro hloaded
    cases hloaded

/-! ### Runs -/

/-- What a step of the service owes: a user is not given an older handle, and what is taken from
the disk was superseded. -/
structure StepKeeps (x y : Traced) : Prop where
  newest : ∀ m h h', x.state.byMxid.get? m = some h → y.state.byMxid.get? m = some h' →
    x.seq h ≤ y.seq h'
  kept : ∀ h m, x.state.onDisk h m → y.state.onDisk h m ∨ Superseded y (x.diskSeq h) h m

/-- A step that writes nothing and only learns. -/
theorem StepKeeps.of_advances {y : Traced} (hx : Tracked x) (hy : Tracked y) (hxy : Advances x y)
    (hprefs : y.state.prefs = x.state.prefs) : StepKeeps x y where
  newest := fun _ _ _ hold hnew => hxy.newest hx hy.inverse hold hnew
  kept := by
    intro h m hdisk
    left
    unfold State.onDisk at hdisk ⊢
    rwa [hprefs]

theorem prefs_foldl_learn (x : Traced) (now : ℕ) (l : List (PyStr × PyStr)) :
    (l.foldl (Traced.learn · now) x).state.prefs = x.state.prefs := by
  induction l generalizing x with
  | nil => rfl
  | cons a l ih => exact ih (x.learn now a)

/-- A write after what was learned. -/
theorem StepKeeps.persist {y : Traced} (hx : Tracked x) (hy : Tracked y)
    (hloaded : y.state.loaded = true) (hxy : Advances x y)
    (hprefs : y.state.prefs = x.state.prefs) (hseq : y.diskSeq = x.diskSeq) :
    StepKeeps x y.persist where
  newest := fun _ _ _ hold hnew => hxy.newest hx hy.inverse hold hnew
  kept := by
    intro h m hdisk
    have hdisk' : y.state.onDisk h m := by
      unfold State.onDisk at hdisk ⊢
      rwa [hprefs]
    rw [← hseq]
    exact hy.kept_persist hloaded hdisk'

/-- The rest of `resolve`. -/
theorem Tracked.response (hx : Tracked x) (hloaded : x.state.loaded = true) (handle : PyStr)
    (r : Response) (now : ℕ) (saved : Bool) :
    Tracked (x.response handle r now saved) ∧ StepKeeps x (x.response handle r now saved) := by
  have hasked := hx.setAsked hloaded (x.state.asked.erase handle)
  unfold Traced.response
  cases r.mxid with
  | none => exact ⟨hasked, .of_advances hx hasked (Advances.refl x) rfl⟩
  | some mxid =>
      obtain ⟨hlearn, hadvance⟩ := hasked.learn hloaded now (handle, mxid)
      cases saved with
      | false => exact ⟨hlearn, .of_advances hx hlearn hadvance rfl⟩
      | true =>
          have hkeeps := StepKeeps.persist hx hlearn hloaded hadvance rfl rfl
          exact ⟨(hlearn.persist hloaded).log _, ⟨hkeeps.newest, hkeeps.kept⟩⟩

/-- **A step of a service that loads first keeps the invariant, and what is owed.** -/
theorem Tracked.step {y : Traced} {a : Label} (hx : Tracked x) (hC : LoadedFirst x a)
    (hstep : tracedStep x a = some y) : Tracked y ∧ StepKeeps x y := by
  cases a with
  | load =>
      simp only [tracedStep] at hstep
      split at hstep
      · cases hstep
      · rename_i hnot
        obtain rfl := Option.some.inj hstep
        have hloaded : x.state.loaded = false := by simpa using hnot
        refine ⟨hx.load hloaded, ?_, ?_⟩
        · intro m h h' hold
          rw [(hx.empty hloaded).2] at hold
          cases hold
        · intro h m hdisk
          left
          unfold State.onDisk at hdisk ⊢
          rwa [show x.load.state.prefs = x.state.prefs from prefs_ensureCacheLoaded x.state]
  | resolve handle now =>
      simp only [tracedStep] at hstep
      split at hstep
      · rename_i hloaded
        obtain rfl := Option.some.inj hstep
        have hasked := hx.setAsked hloaded (handle :: x.state.asked)
        unfold State.resolve
        split
        · split
          · have hlog := hx.log (.resolved handle ‹HandleCacheEntry›.mxid now :: x.state.log)
            exact ⟨hlog, .of_advances hx hlog (Advances.refl x) rfl⟩
          · exact ⟨hasked, .of_advances hx hasked (Advances.refl x) rfl⟩
        · exact ⟨hasked, .of_advances hx hasked (Advances.refl x) rfl⟩
      · cases hstep
  | response handle r now saved =>
      simp only [tracedStep] at hstep
      split at hstep
      · rename_i hmem
        obtain rfl := Option.some.inj hstep
        have hloaded : x.state.loaded = true := by
          by_contra hnot
          rw [hx.asked (by simpa using hnot)] at hmem
          cases hmem
        exact hx.response hloaded handle r now saved
      · cases hstep
  | persist =>
      obtain rfl := Option.some.inj hstep
      exact ⟨hx.persist hC, .persist hx hx hC (Advances.refl x) rfl rfl⟩
  | rememberHandle mxid handle now =>
      obtain rfl := Option.some.inj hstep
      obtain ⟨htracked, hadvance⟩ := hx.rememberHandle hC mxid handle now
      exact ⟨htracked, .of_advances hx htracked hadvance rfl⟩
  | search r now =>
      obtain rfl := Option.some.inj hstep
      obtain ⟨htracked, hadvance⟩ := hx.foldl_learn hC now r.results
      exact ⟨htracked, .of_advances hx htracked hadvance (prefs_foldl_learn x now r.results)⟩
  | setHandle userID handle r now =>
      obtain rfl := Option.some.inj hstep
      unfold Traced.setHandle
      split
      · obtain ⟨htracked, hadvance⟩ := hx.learn hC now (handle, ‹PyStr›)
        exact ⟨htracked, .of_advances hx htracked hadvance rfl⟩
      · exact ⟨hx, .of_advances hx hx (Advances.refl x) rfl⟩
  | restart =>
      obtain rfl := Option.some.inj hstep
      refine ⟨hx.restart, ?_, fun h m hdisk => .inl hdisk⟩
      intro m h h' _ hnew
      cases hnew

theorem tracked_init : Tracked Traced.init := by
  refine ⟨?_, List.nodup_nil, fun _ => ⟨rfl, rfl⟩, fun _ => rfl, .inl rfl, ?_, ?_, ?_⟩
  · intro h m
    constructor
    · rintro ⟨e, he, -⟩
      cases he
    · intro hh
      cases hh
  · rintro h m ⟨e, he, -⟩
    cases he
  · rintro h m ⟨e, he, -⟩
    cases he
  · intro hloaded
    cases hloaded

/-- Every step keeps the indexes inverse, whether the preferences were read or not. -/
theorem Inverse.step {a : Label} (hs : Inverse s) (hstep : Client.step s a = some t) :
    Inverse t := by
  have hlearn : ∀ (s : State) (now : ℕ) (p : PyStr × PyStr), Inverse s → Inverse (s.learn now p) :=
    fun s now p hs => hs.putCacheEntry p.1 ⟨p.2, now⟩
  cases a with
  | load =>
      simp only [Client.step] at hstep
      split at hstep
      · cases hstep
      · obtain rfl := Option.some.inj hstep
        exact inverse_ensureCacheLoaded hs
  | resolve handle now =>
      simp only [Client.step] at hstep
      split at hstep
      · obtain rfl := Option.some.inj hstep
        unfold State.resolve
        split
        · split <;> exact hs
        · exact hs
      · cases hstep
  | response handle r now saved =>
      simp only [Client.step] at hstep
      split at hstep
      · obtain rfl := Option.some.inj hstep
        unfold State.response
        dsimp only
        split
        · exact hs
        · have hnew := hlearn { s with asked := s.asked.erase handle } now (handle, ‹PyStr›) hs
          split <;> exact hnew
      · cases hstep
  | persist =>
      obtain rfl := Option.some.inj hstep
      exact hs
  | rememberHandle mxid handle now =>
      obtain rfl := Option.some.inj hstep
      exact hs.putCacheEntry handle ⟨mxid, now⟩
  | search r now =>
      obtain rfl := Option.some.inj hstep
      exact List.foldlRecOn r.results (State.learn · now) hs fun s' hs' p _ => hlearn s' now p hs'
  | setHandle userID handle r now =>
      obtain rfl := Option.some.inj hstep
      unfold State.setHandle
      split
      · exact hlearn s now (handle, ‹PyStr›) hs
      · exact hs
  | restart =>
      obtain rfl := Option.some.inj hstep
      exact tracked_init.inverse

/-- **The handle cache is consistent.**  In every run the two indexes are inverse to each other;
and in a run whose pairs are learned and written after the preferences were read, no step gives a
user an older handle, and what a step takes from the disk was superseded. -/
theorem handle_cache_consistent (as : List Label) :
    (∀ t, Exec step (fun _ _ => True) init as t → Inverse t) ∧
      ∀ x a y, Exec tracedStep LoadedFirst Traced.init as x → LoadedFirst x a →
        tracedStep x a = some y → Inverse y.state ∧ StepKeeps x y := by
  constructor
  · intro t hexec
    exact hexec.invariant tracked_init.inverse fun s a t hs _ hstep => hs.step hstep
  · intro x a y hexec hC hstep
    have hx : Tracked x := hexec.invariant tracked_init fun x a y hx hC hstep => (hx.step hC hstep).1
    obtain ⟨hy, hkeeps⟩ := hx.step hC hstep
    exact ⟨hy.inverse, hkeeps⟩

/-- A user is remembered, and the application starts anew. -/
def remembered : List Label :=
  [.load, .rememberHandle "@ivan:liza.ru" "ivanov" 1, .persist, .restart]

/-- After the preferences are read, the new handle replaces the old one. -/
theorem handle_replaced_after_load :
    ∃ x y, Exec tracedStep LoadedFirst Traced.init (remembered ++ [Label.load]) x ∧
      tracedStep x (.rememberHandle "@ivan:liza.ru" "petrov" 2) = some y ∧
      Inverse y.state ∧ StepKeeps x y := by
  obtain ⟨x, y, hexec, hstep, hloaded⟩ : ∃ x y,
      Exec tracedStep LoadedFirst Traced.init (remembered ++ [Label.load]) x ∧
        tracedStep x (.rememberHandle "@ivan:liza.ru" "petrov" 2) = some y ∧
        x.state.loaded = true :=
    exists_step_of_runs (p := fun x _ : Traced => x.state.loaded = true) (by decide)
  exact ⟨x, y, hexec, hstep, (handle_cache_consistent _).2 x
    (.rememberHandle "@ivan:liza.ru" "petrov" 2) y hexec hloaded hstep⟩

/-- **Before the preferences are read, a new handle is replaced by the one from the disk, and a
write takes from the disk what was never superseded.** -/
theorem handle_lost_before_load :
    (∃ x y, Exec tracedStep (fun _ _ => True) Traced.init
        (remembered ++ [Label.rememberHandle "@ivan:liza.ru" "petrov" 2]) x ∧
      tracedStep x .load = some y ∧ ¬StepKeeps x y) ∧
    ∃ x y, Exec tracedStep (fun _ _ => True) Traced.init
        (remembered ++ [Label.rememberHandle "@olga:liza.ru" "orlova" 2]) x ∧
      tracedStep x .persist = some y ∧ ¬StepKeeps x y := by
  constructor
  · obtain ⟨x, y, hexec, hstep, hold, hnew, hseq⟩ : ∃ x y, Exec tracedStep (fun _ _ => True)
        Traced.init (remembered ++ [Label.rememberHandle "@ivan:liza.ru" "petrov" 2]) x ∧
      tracedStep x .load = some y ∧
      x.state.byMxid.get? "@ivan:liza.ru" = some (py "petrov") ∧
      y.state.byMxid.get? "@ivan:liza.ru" = some (py "ivanov") ∧
      y.seq "ivanov" < x.seq "petrov" :=
      exists_step_of_runs (p := fun x y : Traced =>
        x.state.byMxid.get? "@ivan:liza.ru" = some (py "petrov") ∧
        y.state.byMxid.get? "@ivan:liza.ru" = some (py "ivanov") ∧
        y.seq "ivanov" < x.seq "petrov") (by decide)
    refine ⟨x, y, hexec, hstep, fun hkeeps => ?_⟩
    have hle := hkeeps.newest _ _ _ hold hnew
    omega
  · obtain ⟨x, y, hexec, hstep, hold, hnew, hlearned⟩ : ∃ x y, Exec tracedStep (fun _ _ => True)
        Traced.init (remembered ++ [Label.rememberHandle "@olga:liza.ru" "orlova" 2]) x ∧
      tracedStep x .persist = some y ∧
      (diskEntry x.state.prefs "ivanov").map HandleCacheEntry.mxid = some (py "@ivan:liza.ru") ∧
      diskEntry y.state.prefs "ivanov" = none ∧
      ∀ p ∈ y.learned, ¬(p.1 = py "ivanov" ∧ p.2 ≠ py "@ivan:liza.ru" ∨
        p.2 = py "@ivan:liza.ru" ∧ p.1 ≠ py "ivanov") :=
      exists_step_of_runs (p := fun x y : Traced =>
        (diskEntry x.state.prefs "ivanov").map HandleCacheEntry.mxid = some (py "@ivan:liza.ru") ∧
        diskEntry y.state.prefs "ivanov" = none ∧
        ∀ p ∈ y.learned, ¬(p.1 = py "ivanov" ∧ p.2 ≠ py "@ivan:liza.ru" ∨
          p.2 = py "@ivan:liza.ru" ∧ p.1 ≠ py "ivanov")) (by decide)
    refine ⟨x, y, hexec, hstep, fun hkeeps => ?_⟩
    obtain ⟨e, he, hmxid⟩ := Option.map_eq_some_iff.1 hold
    rcases hkeeps.kept _ _ ⟨e, he, hmxid⟩ with ⟨e', he', -⟩ | ⟨i, h', m', -, hi, hcase⟩
    · rw [hnew] at he'
      cases he'
    · exact hlearned (h', m') (List.mem_of_getElem? hi) hcase

end Client
end Liza
