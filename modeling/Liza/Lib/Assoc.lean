/-
# Maps in insertion order

A map whose keys are read back in the order of their first insertion (a Dart
`Map`), as the list of its items.  `Assoc.set` replaces the value of a key in
place and appends a new key.  An invariant of the items of a map is kept by
whatever keeps or drops items (`erase_subset`) and by an assignment that adds a
good one (`mem_set`).
-/

import Mathlib.Data.List.Basic

set_option autoImplicit false

namespace Liza
namespace Lib

/-- A map in insertion order. -/
abbrev Assoc (κ ν : Type*) := List (κ × ν)

namespace Assoc

variable {κ ν : Type*} [DecidableEq κ] {m : Assoc κ ν} {k l : κ} {v w : ν}

/-- `m[k]`, with `none` for a missing key. -/
def get? (m : Assoc κ ν) (k : κ) : Option ν :=
  match m with
  | [] => none
  | (l, v) :: rest => if l = k then some v else get? rest k

/-- `m[k] = v`. -/
def set (m : Assoc κ ν) (k : κ) (v : ν) : Assoc κ ν :=
  match m with
  | [] => [(k, v)]
  | (l, w) :: rest => if l = k then (k, v) :: rest else (l, w) :: set rest k v

/-- `m.remove(k)`. -/
def erase (m : Assoc κ ν) (k : κ) : Assoc κ ν := m.filter fun e => e.1 ≠ k

/-- A value that is found is an item. -/
theorem mem_of_get? (h : get? m k = some v) : (k, v) ∈ m := by
  induction m with
  | nil => cases h
  | cons e rest ih =>
      obtain ⟨l, w⟩ := e
      simp only [get?] at h
      split at h
      · rename_i hl
        rw [← hl, Option.some.inj h]
        exact List.mem_cons_self
      · exact List.mem_cons_of_mem _ (ih h)

/-- A value that was assigned is found. -/
@[simp]
theorem get?_set_self (m : Assoc κ ν) (k : κ) (v : ν) : get? (set m k v) k = some v := by
  induction m with
  | nil => simp [set, get?]
  | cons e rest ih =>
      obtain ⟨l, w⟩ := e
      by_cases h : l = k
      · simp [set, h, get?]
      · simp [set, h, get?, ih]

/-- The items after an assignment: the assigned one, and items there were. -/
theorem mem_set {e : κ × ν} (h : e ∈ set m k v) : e = (k, v) ∨ e ∈ m := by
  induction m with
  | nil => exact .inl (List.mem_singleton.1 h)
  | cons f rest ih =>
      obtain ⟨l, w⟩ := f
      simp only [set] at h
      split at h
      · exact (List.mem_cons.1 h).imp id (List.mem_cons_of_mem _)
      · rcases List.mem_cons.1 h with h | h
        · exact .inr (h ▸ List.mem_cons_self)
        · exact (ih h).imp id (List.mem_cons_of_mem _)

/-- The items of other keys are still there after an assignment. -/
theorem mem_set_of_ne {e : κ × ν} (h : e ∈ m) (hne : e.1 ≠ k) : e ∈ set m k v := by
  induction m with
  | nil => cases h
  | cons f rest ih =>
      obtain ⟨l, w⟩ := f
      simp only [set]
      split
      · case _ hl =>
        rcases List.mem_cons.1 h with rfl | h
        · exact absurd hl hne
        · exact List.mem_cons_of_mem _ h
      · rcases List.mem_cons.1 h with rfl | h
        · exact List.mem_cons_self
        · exact List.mem_cons_of_mem _ (ih h)

/-- Removing a key adds no item. -/
theorem erase_subset (m : Assoc κ ν) (k : κ) : erase m k ⊆ m :=
  List.filter_subset_self m

/-- The other keys keep their values. -/
theorem get?_set_of_ne (m : Assoc κ ν) (v : ν) (h : l ≠ k) : get? (set m k v) l = get? m l := by
  induction m with
  | nil => simp [set, get?, h.symm]
  | cons e rest ih =>
      obtain ⟨j, w⟩ := e
      by_cases hj : j = k
      · subst hj
        simp [set, get?, h.symm]
      · simp only [set, hj, if_false, get?, ih]

/-- A key that was removed is gone, and the others keep their values. -/
theorem get?_erase (m : Assoc κ ν) (k l : κ) :
    get? (erase m k) l = if l = k then none else get? m l := by
  induction m with
  | nil => simp [erase, get?]
  | cons e rest ih =>
      obtain ⟨j, w⟩ := e
      by_cases hj : j = k
      · have herase : erase ((j, w) :: rest) k = erase rest k := by simp [erase, hj]
        rw [herase, ih]
        by_cases hl : l = k
        · simp [hl]
        · simp [hl, get?, hj, Ne.symm hl]
      · have herase : erase ((j, w) :: rest) k = (j, w) :: erase rest k := by simp [erase, hj]
        rw [herase]
        simp only [get?, ih]
        by_cases hl : l = k
        · simp [hl, hj]
        · simp [hl]

/-- Assignments to other keys, one after the other. -/
theorem get?_foldl_set_of_ne {α : Type*} (f : α → κ) (g : α → ν) {l : List α} (m : Assoc κ ν) {k : κ}
    (h : ∀ a ∈ l, k ≠ f a) : get? (l.foldl (fun m a => set m (f a) (g a)) m) k = get? m k := by
  induction l generalizing m with
  | nil => rfl
  | cons a l ih =>
      rw [List.foldl_cons, ih _ fun b hb => h b (List.mem_cons_of_mem _ hb),
        get?_set_of_ne _ _ (h a List.mem_cons_self)]

/-- Assignments to different keys, one after the other. -/
theorem get?_foldl_set_of_mem {α : Type*} {f : α → κ} (hf : Function.Injective f) (g : α → ν)
    {l : List α} (m : Assoc κ ν) {a : α} (h : a ∈ l) :
    get? (l.foldl (fun m a => set m (f a) (g a)) m) (f a) = some (g a) := by
  induction l generalizing m with
  | nil => cases h
  | cons b l ih =>
      rw [List.foldl_cons]
      by_cases hmem : a ∈ l
      · exact ih _ hmem
      · obtain rfl := (List.mem_cons.1 h).resolve_right hmem
        have hne : ∀ c ∈ l, f a ≠ f c := fun c hc heq => hmem (hf heq ▸ hc)
        rw [get?_foldl_set_of_ne f g _ hne, get?_set_self]

/-- Assigning the value that is there changes nothing. -/
theorem set_of_get? (h : get? m k = some v) : set m k v = m := by
  induction m with
  | nil => cases h
  | cons e rest ih =>
      obtain ⟨l, w⟩ := e
      by_cases hl : l = k
      · subst hl
        simp only [get?, if_true, Option.some.injEq] at h
        simp [set, h]
      · simp only [get?, hl, if_false] at h
        simp [set, hl, ih h]

/-- Changing the values of a map, each by its key. -/
theorem get?_map (m : Assoc κ ν) (f : κ × ν → κ × ν) (hf : ∀ e, (f e).1 = e.1) (k : κ) :
    get? (m.map f) k = (get? m k).map fun v => (f (k, v)).2 := by
  induction m with
  | nil => rfl
  | cons e rest ih =>
      obtain ⟨l, v⟩ := e
      have hl : f (l, v) = (l, (f (l, v)).2) := Prod.ext (hf (l, v)) rfl
      rw [List.map_cons, hl]
      simp only [get?]
      split
      · rename_i heq
        rw [heq, Option.map_some]
      · exact ih

/-- No key stands twice. -/
def Keyed (m : Assoc κ ν) : Prop := (m.map Prod.fst).Nodup

theorem Keyed.erase (h : Keyed m) (k : κ) : Keyed (Assoc.erase m k) :=
  h.sublist (List.filter_sublist.map Prod.fst)

theorem Keyed.set (h : Keyed m) (k : κ) (v : ν) : Keyed (Assoc.set m k v) := by
  induction m with
  | nil => simp [Keyed, Assoc.set]
  | cons e rest ih =>
      obtain ⟨j, w⟩ := e
      have hrest : Keyed rest := (List.nodup_cons.1 h).2
      have hj : j ∉ rest.map Prod.fst := (List.nodup_cons.1 h).1
      by_cases hjk : j = k
      · subst hjk
        simpa [Keyed, Assoc.set] using h
      · simp only [Keyed, Assoc.set, hjk, if_false, List.map_cons, List.nodup_cons]
        refine ⟨fun hmem => ?_, ih hrest⟩
        obtain ⟨⟨l, u⟩, hlu, rfl⟩ := List.mem_map.1 hmem
        rcases mem_set hlu with heq | hold
        · exact hjk (Prod.mk.inj heq).1
        · exact hj (List.mem_map.2 ⟨_, hold, rfl⟩)

/-- Assigning to a key that is there keeps the keys. -/
theorem map_fst_set_of_mem (v : ν) (h : k ∈ m.map Prod.fst) :
    (Assoc.set m k v).map Prod.fst = m.map Prod.fst := by
  induction m with
  | nil => cases h
  | cons e rest ih =>
      obtain ⟨j, w⟩ := e
      by_cases hjk : j = k
      · simp [Assoc.set, hjk]
      · have hrest : k ∈ rest.map Prod.fst :=
          (List.mem_cons.1 h).resolve_left (Ne.symm hjk)
        simp [Assoc.set, hjk, ih hrest]

/-- Assigning to a new key adds an item at the end. -/
theorem set_of_notMem (v : ν) (h : k ∉ m.map Prod.fst) : Assoc.set m k v = m ++ [(k, v)] := by
  induction m with
  | nil => rfl
  | cons e rest ih =>
      obtain ⟨j, w⟩ := e
      rw [List.map_cons, List.mem_cons, not_or] at h
      rw [Assoc.set, if_neg (Ne.symm h.1), ih h.2]
      rfl

/-- Assignments to new keys, one after the other. -/
theorem Keyed.foldl_set {n : Assoc κ ν} (h : Keyed (m ++ n)) :
    n.foldl (fun m e => Assoc.set m e.1 e.2) m = m ++ n := by
  induction n generalizing m with
  | nil => simp
  | cons e rest ih =>
      have hnew : e.1 ∉ m.map Prod.fst := by
        rw [Keyed, List.map_append, List.map_cons] at h
        exact fun hmem => (List.nodup_append.1 h).2.2 _ hmem _ List.mem_cons_self rfl
      have hassoc : m ++ e :: rest = m ++ [e] ++ rest := by simp
      rw [List.foldl_cons, set_of_notMem e.2 hnew, hassoc]
      exact ih (hassoc ▸ h)

/-- Where no key stands twice, an item is the value of its key. -/
theorem Keyed.get?_of_mem (h : Keyed m) (hmem : (k, v) ∈ m) : get? m k = some v := by
  induction m with
  | nil => cases hmem
  | cons e rest ih =>
      obtain ⟨j, w⟩ := e
      rcases List.mem_cons.1 hmem with heq | hrest
      · obtain ⟨rfl, rfl⟩ := Prod.mk.inj heq
        simp [get?]
      · have hne : j ≠ k := by
          rintro rfl
          exact (List.nodup_cons.1 h).1 (List.mem_map.2 ⟨_, hrest, rfl⟩)
        simp [get?, hne, ih (List.nodup_cons.1 h).2 hrest]

theorem get?_of_notMem (h : k ∉ m.map Prod.fst) : get? m k = none := by
  induction m with
  | nil => rfl
  | cons e rest ih =>
      obtain ⟨j, w⟩ := e
      rw [List.map_cons, List.mem_cons, not_or] at h
      rw [get?, if_neg (Ne.symm h.1), ih h.2]

/-- `m.update(n)`: the values of `n` win. -/
theorem Keyed.get?_foldl_set {n : Assoc κ ν} (h : Keyed n) (m : Assoc κ ν) (k : κ) :
    get? (n.foldl (fun m e => Assoc.set m e.1 e.2) m) k = (get? n k).or (get? m k) := by
  induction n generalizing m with
  | nil => rfl
  | cons e rest ih =>
      obtain ⟨j, w⟩ := e
      obtain ⟨hj, hrest⟩ := List.nodup_cons.1 h
      rw [List.foldl_cons, ih hrest]
      by_cases hjk : j = k
      · subst hjk
        simp [get?_of_notMem hj, get?]
      · simp [get?, hjk, get?_set_of_ne m w (Ne.symm hjk)]

end Assoc

end Lib
end Liza
