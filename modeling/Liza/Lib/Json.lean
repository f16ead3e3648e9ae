/-
# JSON values and Python dictionaries

What `json.loads` returns: `None`, `bool`, `int`, `float`, `str`, `list` and
`dict`.  Python tells an `int` from a `float`, so the two are separate here; a
float is carried as the text its `repr` prints, the only thing about it that a
program without float arithmetic observes.

A `dict` is the list of its items in insertion order.  `Dict.set` replaces the
value of a key in place and appends a new key, `Dict.erase` is `del`, and
`Dict.update` is `dict.update` (and `{**d, **e}`).  Everything a program reads
of a dictionary goes through `Dict.get?`, so the lemmas below are about what
each operation does to it.
-/

import Liza.Lib.PyStr
import Mathlib.Data.Int.Notation

set_option autoImplicit false

namespace Liza
namespace Lib

/-- A JSON value as Python holds it. -/
inductive Json where
  | null
  | bool (b : Bool)
  | int (n : ℤ)
  | float (repr : PyStr)
  | str (s : PyStr)
  | arr (l : List Json)
  | obj (d : List (PyStr × Json))
deriving Inhabited

/-- A Python `dict` with string keys, in insertion order. -/
abbrev Dict := List (PyStr × Json)

mutual

/-- Structural equality of two values, as a test. -/
def Json.beq : Json → Json → Bool
  | .null, .null => true
  | .bool a, .bool b => a == b
  | .int a, .int b => a == b
  | .float a, .float b => a == b
  | .str a, .str b => a == b
  | .arr a, .arr b => Json.beqList a b
  | .obj a, .obj b => Json.beqDict a b
  | _, _ => false

/-- Structural equality of two lists of values. -/
def Json.beqList : List Json → List Json → Bool
  | [], [] => true
  | a :: as, b :: bs => Json.beq a b && Json.beqList as bs
  | _, _ => false

/-- Structural equality of two dictionaries, order included. -/
def Json.beqDict : List (PyStr × Json) → List (PyStr × Json) → Bool
  | [], [] => true
  | (k, a) :: as, (l, b) :: bs => k == l && (Json.beq a b && Json.beqDict as bs)
  | _, _ => false

end

mutual

theorem Json.beq_iff : ∀ a b : Json, Json.beq a b = true ↔ a = b
  | .arr a, .arr b => by simp [Json.beq, Json.beqList_iff a b]
  | .obj a, .obj b => by simp [Json.beq, Json.beqDict_iff a b]
  | .null, b => by cases b <;> simp [Json.beq]
  | .bool a, b => by cases b <;> simp [Json.beq]
  | .int a, b => by cases b <;> simp [Json.beq]
  | .float a, b => by cases b <;> simp [Json.beq]
  | .str a, b => by cases b <;> simp [Json.beq]
  | .arr a, .null | .arr a, .bool _ | .arr a, .int _ | .arr a, .float _ | .arr a, .str _
  | .arr a, .obj _ => by simp [Json.beq]
  | .obj a, .null | .obj a, .bool _ | .obj a, .int _ | .obj a, .float _ | .obj a, .str _
  | .obj a, .arr _ => by simp [Json.beq]

theorem Json.beqList_iff : ∀ a b : List Json, Json.beqList a b = true ↔ a = b
  | [], [] => by simp [Json.beqList]
  | [], _ :: _ => by simp [Json.beqList]
  | _ :: _, [] => by simp [Json.beqList]
  | a :: as, b :: bs => by simp [Json.beqList, Json.beq_iff a b, Json.beqList_iff as bs]

theorem Json.beqDict_iff : ∀ a b : List (PyStr × Json), Json.beqDict a b = true ↔ a = b
  | [], [] => by simp [Json.beqDict]
  | [], _ :: _ => by simp [Json.beqDict]
  | _ :: _, [] => by simp [Json.beqDict]
  | (k, a) :: as, (l, b) :: bs => by
      simp [Json.beqDict, Json.beq_iff a b, Json.beqDict_iff as bs, and_assoc]

end

instance : DecidableEq Json := fun a b => decidable_of_iff _ (Json.beq_iff a b)

/-- `bool(v)`. -/
def Json.truthy : Json → Bool
  | .null => false
  | .bool b => b
  | .int n => n ≠ 0
  | .float r => r ≠ py "0.0" && r ≠ py "-0.0"
  | .str s => !s.isEmpty
  | .arr l => !l.isEmpty
  | .obj d => !d.isEmpty

namespace Dict

/-- The value of a key, with `none` for a missing key. -/
def get? (d : Dict) (k : PyStr) : Option Json :=
  match d with
  | [] => none
  | (l, v) :: rest => if l = k then some v else get? rest k

/-- `d[k] = v`. -/
def set (d : Dict) (k : PyStr) (v : Json) : Dict :=
  match d with
  | [] => [(k, v)]
  | (l, w) :: rest => if l = k then (k, v) :: rest else (l, w) :: set rest k v

/-- `d` without the key `k`: `del d[k]` for a key that is there. -/
def erase (d : Dict) (k : PyStr) : Dict := d.filter fun e => e.1 ≠ k

/-- `d.update(e)`, and `{**d, **e}`. -/
def update (d e : Dict) : Dict := e.foldl (fun acc kv => set acc kv.1 kv.2) d

/-- `k in d`. -/
def contains (d : Dict) (k : PyStr) : Bool := (get? d k).isSome

/-- `d.get(k)`: Python's `None` for a missing key as for a stored one. -/
def get (d : Dict) (k : PyStr) : Json := (get? d k).getD .null

variable {d e : Dict} {k l : PyStr} {v : Json}

@[simp]
theorem get?_nil : get? [] k = none := rfl

theorem get?_cons (l : PyStr) (w : Json) (rest : Dict) :
    get? ((l, w) :: rest) k = if l = k then some w else get? rest k := rfl

/-- A value that is found is an item. -/
theorem mem_of_get? (h : get? d k = some v) : (k, v) ∈ d := by
  induction d with
  | nil => cases h
  | cons e rest ih =>
      obtain ⟨l, w⟩ := e
      rw [get?_cons] at h
      split at h
      · rename_i hl
        rw [← hl, Option.some.inj h]
        exact List.mem_cons_self
      · exact List.mem_cons_of_mem _ (ih h)

/-- The items after an assignment: the assigned one, and items there were. -/
theorem mem_set {e : PyStr × Json} (h : e ∈ set d k v) : e = (k, v) ∨ e ∈ d := by
  induction d with
  | nil => exact .inl (List.mem_singleton.1 h)
  | cons f rest ih =>
      obtain ⟨l, w⟩ := f
      simp only [set] at h
      split at h
      · exact (List.mem_cons.1 h).imp id (List.mem_cons_of_mem _)
      · rcases List.mem_cons.1 h with h | h
        · exact .inr (h ▸ List.mem_cons_self)
        · exact (ih h).imp id (List.mem_cons_of_mem _)

@[simp]
theorem get?_set_self (d : Dict) (k : PyStr) (v : Json) : get? (set d k v) k = some v := by
  induction d with
  | nil => simp [set, get?]
  | cons kv rest ih =>
      obtain ⟨l, w⟩ := kv
      by_cases h : l = k
      · simp [set, h, get?]
      · simp [set, h, get?, ih]

theorem get?_set_of_ne (d : Dict) (v : Json) (h : l ≠ k) : get? (set d k v) l = get? d l := by
  induction d with
  | nil => simp [set, get?, h.symm]
  | cons kv rest ih =>
      obtain ⟨m, w⟩ := kv
      by_cases hm : m = k
      · subst hm
        simp [set, get?, h.symm]
      · simp only [set, hm, if_false, get?_cons, ih]

/-- One lemma for both cases of a read after a write. -/
theorem get?_set (d : Dict) (k l : PyStr) (v : Json) :
    get? (set d k v) l = if l = k then some v else get? d l := by
  by_cases h : l = k
  · subst h
    simp
  · simp [h, get?_set_of_ne d v h]

/-- Writing a key twice keeps the last value only. -/
@[simp]
theorem set_set (d : Dict) (k : PyStr) (v w : Json) : set (set d k v) k w = set d k w := by
  induction d with
  | nil => simp [set]
  | cons kv rest ih =>
      obtain ⟨l, u⟩ := kv
      by_cases h : l = k
      · simp [set, h]
      · simp [set, h, ih]

/-- Writing the value that is there changes nothing. -/
theorem set_of_get? (h : get? d k = some v) : set d k v = d := by
  induction d with
  | nil => simp at h
  | cons kv rest ih =>
      obtain ⟨l, u⟩ := kv
      by_cases hl : l = k
      · subst hl
        simp only [get?_cons, if_true, Option.some.injEq] at h
        simp [set, h]
      · simp only [get?_cons, hl, if_false] at h
        simp [set, hl, ih h]

/-- A key that is there is written in place, so writing another key commutes with it. -/
theorem set_comm_of_mem (h : (get? d k).isSome = true) (hne : k ≠ l) (v w : Json) :
    set (set d k v) l w = set (set d l w) k v := by
  induction d with
  | nil => simp at h
  | cons kv rest ih =>
      obtain ⟨m, u⟩ := kv
      by_cases hk : m = k
      · subst hk
        simp [set, hne]
      · have hrest : (get? rest k).isSome = true := by simpa [get?_cons, hk] using h
        by_cases hl : m = l
        · subst hl
          have hlk : ¬m = k := hk
          simp [set, hlk]
        · simp [set, hk, hl, ih hrest]

/-- An update leaves the keys that it does not write. -/
theorem get?_update_of_ne (d : Dict) {e : Dict} (h : ∀ kv ∈ e, kv.1 ≠ k) :
    get? (update d e) k = get? d k := by
  induction e generalizing d with
  | nil => rfl
  | cons kv rest ih =>
      have hne : k ≠ kv.1 := (h kv List.mem_cons_self).symm
      have hrest : get? (update (set d kv.1 kv.2) rest) k = get? (set d kv.1 kv.2) k :=
        ih _ fun kv' hkv' => h kv' (List.mem_cons_of_mem _ hkv')
      exact hrest.trans (get?_set_of_ne d kv.2 hne)

/-- A key that is there is written in place, before an update as after it. -/
theorem set_update_comm (h : (get? d k).isSome = true) (he : ∀ kv ∈ e, kv.1 ≠ k) (v : Json) :
    update (set d k v) e = set (update d e) k v := by
  induction e generalizing d with
  | nil => rfl
  | cons kv rest ih =>
      have hne : k ≠ kv.1 := (he kv List.mem_cons_self).symm
      have hthere : (get? (set d kv.1 kv.2) k).isSome = true := by
        rwa [get?_set_of_ne d kv.2 hne]
      have hrest := ih hthere fun kv' hkv' => he kv' (List.mem_cons_of_mem _ hkv')
      change update (set (set d k v) kv.1 kv.2) rest = set (update (set d kv.1 kv.2) rest) k v
      rw [← hrest, set_comm_of_mem h hne]

end Dict

end Lib
end Liza
