/-
# The first rows in an order

`ORDER BY key ASC LIMIT n`: `earliest key n l` are the elements of `l` with the least keys, in
order, `n` of them at most.  Where the keys differ, it has with an element all that come before that
(`mem_earliest_of_le`), and fewer than `n` are all there are (`mem_earliest_of_lt`).
-/

import Mathlib.Data.List.Sort

set_option autoImplicit false

namespace Liza
namespace Lib

variable {α κ : Type*} [LinearOrder κ] {key : α → κ} {n : ℕ} {l : List α} {x y : α}

/-- One key is at most another. -/
def KeyLe (key : α → κ) (x y : α) : Prop := key x ≤ key y

instance decidableRelKeyLe (key : α → κ) : DecidableRel (KeyLe key) :=
  fun x y => inferInstanceAs (Decidable (key x ≤ key y))

instance totalKeyLe (key : α → κ) : Std.Total (KeyLe key) := ⟨fun x y => le_total (key x) (key y)⟩

instance isTransKeyLe (key : α → κ) : IsTrans α (KeyLe key) := ⟨fun _ _ _ h h' => le_trans h h'⟩

/-- The elements with the least keys, in order. -/
def earliest (key : α → κ) (n : ℕ) (l : List α) : List α := (l.insertionSort (KeyLe key)).take n

theorem mem_of_mem_earliest (h : x ∈ earliest key n l) : x ∈ l :=
  (List.mem_insertionSort _).1 (List.mem_of_mem_take h)

theorem length_earliest (key : α → κ) (n : ℕ) (l : List α) :
    (earliest key n l).length = min n l.length := by
  rw [earliest, List.length_take, List.length_insertionSort]

/-- The elements are in order, strictly if the keys differ. -/
theorem pairwise_earliest (hkeys : (l.map key).Nodup) :
    (earliest key n l).Pairwise fun x y => key x < key y := by
  have hle : (l.insertionSort (KeyLe key)).Pairwise (KeyLe key) := List.pairwise_insertionSort _ l
  have hne : (l.insertionSort (KeyLe key)).Pairwise fun x y => key x ≠ key y :=
    List.pairwise_map.1 (((List.perm_insertionSort _ l).map key).nodup_iff.2 hkeys)
  exact ((hle.and hne).imp fun h => lt_of_le_of_ne h.1 h.2).sublist (List.take_sublist _ _)

/-- **What comes before an element is there too.** -/
theorem mem_earliest_of_le (hkeys : (l.map key).Nodup) (hy : y ∈ earliest key n l) (hx : x ∈ l)
    (hle : key x ≤ key y) : x ∈ earliest key n l := by
  have hsorted : (l.insertionSort (KeyLe key)).Pairwise (KeyLe key) :=
    List.pairwise_insertionSort _ l
  have hmem : x ∈ l.insertionSort (KeyLe key) := (List.mem_insertionSort _).2 hx
  rw [← List.take_append_drop n (l.insertionSort (KeyLe key))] at hsorted hmem
  rcases List.mem_append.1 hmem with hmem | hmem
  · exact hmem
  · -- it is no less than what was taken, so it has the same key
    have hge : key y ≤ key x := (List.pairwise_append.1 hsorted).2.2 y hy x hmem
    obtain rfl := List.inj_on_of_nodup_map hkeys hx (mem_of_mem_earliest hy) (hle.antisymm hge)
    exact hy

theorem mem_earliest_of_length_le (hlength : l.length ≤ n) (hx : x ∈ l) : x ∈ earliest key n l := by
  rw [earliest, List.take_of_length_le]
  · exact (List.mem_insertionSort _).2 hx
  · rwa [List.length_insertionSort]

/-- **Fewer than `n` are all there are.** -/
theorem mem_earliest_of_lt (hlt : (earliest key n l).length < n) (hx : x ∈ l) :
    x ∈ earliest key n l := by
  rw [length_earliest] at hlt
  exact mem_earliest_of_length_le (by omega) hx

end Lib
end Liza
