/-
# Which stories were seen

`clients/flutter/lib/utils/stories/stories_seen_store.dart`: `StoriesSeenStore`.  Every screen has
an instance of its own over the same `SharedPreferences`; `ι` are the instances with one scope, and
`prefs` is the list under their key.

`SharedPreferences` keeps all values in memory.  `setStringList` changes that copy at once and hands
the list to the platform, which writes the lists in the order they were handed over and may fail to;
a mark has completed when its list is written (`marked`).

An instance writes its whole cache back, so a mark keeps what is stored only where the cache has all
of it (`upToDate`).
-/

import Liza.Lib.Run
import Mathlib.Data.List.Dedup

set_option autoImplicit false

namespace Liza
namespace Client

open Lib

/-- A list that is being written, with the ids whose marks wait for it. -/
structure SeenWrite where
  ids : List String
  seen : List String
deriving DecidableEq

/-- The instances of `StoriesSeenStore` with one scope, and what is stored. -/
structure SeenStores (ι : Type) where
  prefs : List String
  writes : List SeenWrite
  disk : List String
  cache : ι → Option (List String)
  marked : List String

/-- `Set.add`. -/
def addSeen (seen : List String) (eventId : String) : List String :=
  if eventId ∈ seen then seen else seen ++ [eventId]

/-- `Set.addAll`. -/
def addAllSeen (seen : List String) (eventIds : List String) : List String :=
  eventIds.foldl addSeen seen

namespace SeenStores

variable {ι : Type}

/-- `_seen`, as the getter returns it. -/
def seen (s : SeenStores ι) (i : ι) : List String := (s.cache i).getD s.prefs.eraseDups

/-- `_prefs.setStringList`, for the marks of `ids`. -/
def setStringList (s : SeenStores ι) (ids seen : List String) : SeenStores ι :=
  { s with prefs := seen, writes := s.writes ++ [⟨ids, seen⟩] }

/-- The start: the list is loaded, and no instance has read it. -/
def loaded (stored : List String) : SeenStores ι := ⟨stored, [], stored, fun _ => none, []⟩

variable [DecidableEq ι]

/-- `_cache = seen` of an instance. -/
def setCache (s : SeenStores ι) (i : ι) (seen : Option (List String)) : SeenStores ι :=
  { s with cache := fun j => if j = i then seen else s.cache j }

/-- `isSeen`, which fills the cache. -/
def isSeen (s : SeenStores ι) (i : ι) (eventId : String) : SeenStores ι × Bool :=
  (s.setCache i (some (s.seen i)), eventId ∈ s.seen i)

/-- `hasUnseen`, which fills the cache. -/
def hasUnseen (s : SeenStores ι) (i : ι) (eventIds : List String) : SeenStores ι × Bool :=
  (s.setCache i (some (s.seen i)), eventIds.any fun id => id ∉ s.seen i)

/-- `markSeen`, up to the answer of the platform. -/
def markSeen (s : SeenStores ι) (i : ι) (eventId : String) : SeenStores ι :=
  let seen := addSeen (s.seen i) eventId
  (s.setCache i (some seen)).setStringList [eventId] seen

/-- `markAllSeen`, up to the answer of the platform. -/
def markAllSeen (s : SeenStores ι) (i : ι) (eventIds : List String) : SeenStores ι :=
  let seen := addAllSeen (s.seen i) eventIds
  (s.setCache i (some seen)).setStringList eventIds seen

/-- `invalidateCache`. -/
def invalidateCache (s : SeenStores ι) (i : ι) : SeenStores ι := s.setCache i none

end SeenStores

/-- What happens next: a call on an instance, or the platform has written the oldest list, or has
failed to. -/
inductive SeenAction (ι : Type) where
  | isSeen (i : ι) (eventId : String)
  | hasUnseen (i : ι) (eventIds : List String)
  | markSeen (i : ι) (eventId : String)
  | markAllSeen (i : ι) (eventIds : List String)
  | invalidateCache (i : ι)
  | written
  | failed

variable {ι : Type}

/-- The cache of the instance, where it has one, has all that is stored. -/
def upToDate (s : SeenStores ι) (i : ι) : Prop := ∀ seen ∈ s.cache i, s.prefs ⊆ seen

instance (s : SeenStores ι) (i : ι) : Decidable (upToDate s i) :=
  inferInstanceAs (Decidable (∀ seen ∈ s.cache i, s.prefs ⊆ seen))

/-- The condition on a step: only an instance that is up to date marks. -/
def MarksUpToDate (s : SeenStores ι) : SeenAction ι → Prop
  | .markSeen i _ => upToDate s i
  | .markAllSeen i _ => upToDate s i
  | _ => True

instance (s : SeenStores ι) : (a : SeenAction ι) → Decidable (MarksUpToDate s a)
  | .markSeen i _ => inferInstanceAs (Decidable (upToDate s i))
  | .markAllSeen i _ => inferInstanceAs (Decidable (upToDate s i))
  | .isSeen _ _ => .isTrue trivial
  | .hasUnseen _ _ => .isTrue trivial
  | .invalidateCache _ => .isTrue trivial
  | .written => .isTrue trivial
  | .failed => .isTrue trivial

theorem mem_addSeen {seen : List String} {x eventId : String} :
    x ∈ addSeen seen eventId ↔ x ∈ seen ∨ x = eventId := by
  unfold addSeen
  split
  · rename_i hmem
    constructor
    · exact fun h => .inl h
    · rintro (h | rfl)
      · exact h
      · exact hmem
  · simp

theorem mem_addAllSeen {seen eventIds : List String} {x : String} :
    x ∈ addAllSeen seen eventIds ↔ x ∈ seen ∨ x ∈ eventIds := by
  unfold addAllSeen
  induction eventIds generalizing seen with
  | nil => simp
  | cons id ids ih =>
      rw [List.foldl_cons, ih, mem_addSeen, List.mem_cons]
      tauto

/-- What is stored is nowhere lost: the lists that are being written grow from what is on disk to
what is in memory, each with the ids it is written for, and what was marked is on disk. -/
structure Growing (s : SeenStores ι) : Prop where
  chain : List.Pairwise (· ⊆ ·) (s.disk :: (s.writes.map SeenWrite.seen ++ [s.prefs]))
  ids : ∀ w ∈ s.writes, w.ids ⊆ w.seen
  marked : s.marked ⊆ s.disk

theorem growing_loaded (stored : List String) :
    Growing (SeenStores.loaded stored : SeenStores ι) where
  chain := by simp [SeenStores.loaded]
  ids := by simp [SeenStores.loaded]
  marked := by simp [SeenStores.loaded]

/-- An instance that is up to date sees all that is stored. -/
theorem prefs_subset_seen {s : SeenStores ι} {i : ι} (h : upToDate s i) : s.prefs ⊆ s.seen i := by
  unfold SeenStores.seen
  cases hcache : s.cache i with
  | none =>
      intro x hx
      exact List.mem_eraseDups.2 hx
  | some seen => exact h seen hcache

/-- A list that has all that is stored may be handed to the platform. -/
theorem growing_setStringList {s : SeenStores ι} (h : Growing s) {ids seen : List String}
    (hprefs : s.prefs ⊆ seen) (hids : ids ⊆ seen) : Growing (s.setStringList ids seen) where
  chain := by
    have hchain := h.chain
    have hall : ∀ l ∈ s.disk :: (s.writes.map SeenWrite.seen ++ [s.prefs]), l ⊆ seen := by
      intro l hl
      rw [← List.cons_append, List.mem_append, List.mem_singleton] at hl
      rcases hl with hl | rfl
      · rw [← List.cons_append, List.pairwise_append] at hchain
        exact List.Subset.trans (hchain.2.2 l hl s.prefs (List.mem_singleton.2 rfl)) hprefs
      · exact hprefs
    have hinit : List.Pairwise (· ⊆ ·) (s.disk :: s.writes.map SeenWrite.seen) := by
      rw [← List.cons_append, List.pairwise_append] at hchain
      exact hchain.1
    simp only [SeenStores.setStringList, List.map_append, List.map_cons, List.map_nil]
    rw [← List.cons_append, ← List.cons_append, List.append_assoc, List.pairwise_append]
    refine ⟨hinit, by simp, ?_⟩
    intro l hl l' hl'
    have hmem : l ∈ s.disk :: (s.writes.map SeenWrite.seen ++ [s.prefs]) := by
      rw [← List.cons_append]
      exact List.mem_append_left _ hl
    have hsame : l' = seen := by simpa using hl'
    rw [hsame]
    exact hall l hmem
  ids := by
    intro w hw
    rcases List.mem_append.1 hw with hw | hw
    · exact h.ids w hw
    · rw [List.mem_singleton.1 hw]
      exact hids
  marked := h.marked

section Steps

variable [DecidableEq ι]

/-- One step. -/
def seenStep (s : SeenStores ι) : SeenAction ι → Option (SeenStores ι)
  | .isSeen i eventId => some (s.isSeen i eventId).1
  | .hasUnseen i eventIds => some (s.hasUnseen i eventIds).1
  | .markSeen i eventId => some (s.markSeen i eventId)
  | .markAllSeen i eventIds => some (s.markAllSeen i eventIds)
  | .invalidateCache i => some (s.invalidateCache i)
  | .written =>
      match s.writes with
      | [] => none
      | w :: writes => some { s with disk := w.seen, writes := writes, marked := s.marked ++ w.ids }
  | .failed =>
      match s.writes with
      | [] => none
      | _ :: writes => some { s with writes := writes }

/-- **A step keeps what is stored, if the instance that marks is up to date.** -/
theorem growing_step {s t : SeenStores ι} {a : SeenAction ι} (h : Growing s)
    (hC : MarksUpToDate s a) (hstep : seenStep s a = some t) : Growing t := by
  have hcache : ∀ i c', Growing (s.setCache i c') := fun i c' => ⟨h.chain, h.ids, h.marked⟩
  cases a with
  | isSeen i eventId =>
      obtain rfl := Option.some.inj hstep
      exact hcache i _
  | hasUnseen i eventIds =>
      obtain rfl := Option.some.inj hstep
      exact hcache i _
  | invalidateCache i =>
      obtain rfl := Option.some.inj hstep
      exact hcache i _
  | markSeen i eventId =>
      obtain rfl := Option.some.inj hstep
      refine growing_setStringList (hcache i _) ?_ ?_
      · exact fun x hx => mem_addSeen.2 (.inl (prefs_subset_seen hC hx))
      · exact fun x hx => mem_addSeen.2 (.inr (List.mem_singleton.1 hx))
  | markAllSeen i eventIds =>
      obtain rfl := Option.some.inj hstep
      refine growing_setStringList (hcache i _) ?_ ?_
      · exact fun x hx => mem_addAllSeen.2 (.inl (prefs_subset_seen hC hx))
      · exact fun x hx => mem_addAllSeen.2 (.inr hx)
  | written =>
      simp only [seenStep] at hstep
      split at hstep
      · cases hstep
      · rename_i w writes hwrites
        obtain rfl := Option.some.inj hstep
        have hchain := h.chain
        rw [hwrites, List.map_cons, List.cons_append, List.pairwise_cons] at hchain
        refine ⟨hchain.2, fun w' hw' => h.ids w' ?_, ?_⟩
        · rw [hwrites]
          exact List.mem_cons_of_mem _ hw'
        · intro x hx
          rcases List.mem_append.1 hx with hx | hx
          · exact hchain.1 w.seen List.mem_cons_self (h.marked hx)
          · exact h.ids w (hwrites ▸ List.mem_cons_self) hx
  | failed =>
      simp only [seenStep] at hstep
      split at hstep
      · cases hstep
      · rename_i w writes hwrites
        obtain rfl := Option.some.inj hstep
        have hchain := h.chain
        rw [hwrites, List.map_cons, List.cons_append] at hchain
        refine ⟨hchain.sublist (List.Sublist.cons_cons _ (List.sublist_cons_self _ _)),
          fun w' hw' => h.ids w' ?_, h.marked⟩
        rw [hwrites]
        exact List.mem_cons_of_mem _ hw'

/-- **A seen story stays seen, in every run whose marks are made by instances that are up to date:**
it is in the stored list, in memory and on disk, and an instance finds it after its cache is
dropped. -/
theorem marked_stays {stored : List String} {as : List (SeenAction ι)} {t : SeenStores ι}
    (h : Exec seenStep MarksUpToDate (SeenStores.loaded stored) as t) :
    ∀ eventId ∈ t.marked, eventId ∈ t.disk ∧ eventId ∈ t.prefs ∧
      ∀ i, ((t.invalidateCache i).isSeen i eventId).2 = true := by
  have hgrowing : Growing t :=
    h.invariant (growing_loaded stored) fun s a t hs hC hstep => growing_step hs hC hstep
  intro eventId hmarked
  have hdisk := hgrowing.marked hmarked
  have hprefs : eventId ∈ t.prefs := by
    have hchain := hgrowing.chain
    rw [List.pairwise_cons] at hchain
    exact hchain.1 t.prefs (List.mem_append_right _ (List.mem_singleton.2 rfl)) hdisk
  refine ⟨hdisk, hprefs, fun i => ?_⟩
  have hnone : (t.invalidateCache i).cache i = none := if_pos rfl
  simp only [SeenStores.isSeen, SeenStores.seen, hnone, Option.getD_none, decide_eq_true_eq]
  exact List.mem_eraseDups.2 hprefs

end Steps

/-- The viewer marks a story, the bar drops its cache and marks another. -/
theorem marked_stays_after_invalidating :
    ∃ t, Exec seenStep MarksUpToDate (SeenStores.loaded [] : SeenStores Bool)
        [.isSeen true "$a", .markSeen false "$a", .written, .invalidateCache true,
          .markAllSeen true ["$b"], .written] t ∧
      "$a" ∈ t.marked ∧ "$a" ∈ t.disk := by
  obtain ⟨t, ht, hmarked⟩ : ∃ t, Exec seenStep MarksUpToDate
      (SeenStores.loaded [] : SeenStores Bool)
        [.isSeen true "$a", .markSeen false "$a", .written, .invalidateCache true,
          .markAllSeen true ["$b"], .written] t ∧ "$a" ∈ t.marked :=
    exists_exec_of_runs (by decide)
  exact ⟨t, ht, hmarked, (marked_stays ht "$a" hmarked).1⟩

/-- **The bar reads the empty list, the viewer marks a story, the bar marks another: the first is
gone.** -/
theorem mark_overwritten :
    ∃ t, Exec seenStep (fun _ _ => True) (SeenStores.loaded [] : SeenStores Bool)
        [.isSeen true "$a", .markSeen false "$a", .written, .markSeen true "$b", .written] t ∧
      "$a" ∈ t.marked ∧ "$a" ∉ t.disk ∧ "$a" ∉ t.prefs :=
  exists_exec_of_runs
    (p := fun t : SeenStores Bool => "$a" ∈ t.marked ∧ "$a" ∉ t.disk ∧ "$a" ∉ t.prefs) (by decide)

end Client
end Liza
