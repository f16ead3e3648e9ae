/-
# Python's operations on JSON values

What a program does with a value of unknown type either works or raises: `v[0:n]`,
`k in v`, `v[k]`, `s.encode()`.  `Py E α` is the result of such a program, where `E` are
the exceptions the program raises itself, beside those of the language.

`Safe x` says that `x` returns or raises an exception of its own: no operation was
applied to a value it does not fit.  It is compositional in both directions
(`safe_bind`), so that the exact condition for a program to be safe is found by going
through its text.

`copy.deepcopy` and `json.dumps` also raise where a value exceeds a limit of the interpreter;
the limits are parameters.
-/

import Liza.Lib.Json
import Mathlib.Algebra.Ring.Nat
import Mathlib.Data.List.Infix

set_option autoImplicit false

namespace Liza
namespace Lib

/-- The exceptions of the language, and those of the program.  `limitError` is what is raised
where a limit of the interpreter is reached: `RecursionError`, and the `ValueError` of a number
with too many digits. -/
inductive Exn (E : Type) where
  | typeError
  | attributeError
  | keyError
  | indexError
  | unicodeEncodeError
  | limitError
  | user (e : E)
deriving DecidableEq

/-- The result of a program that may raise. -/
abbrev Py (E α : Type) := Except (Exn E) α

namespace Py

variable {E α β : Type}

/-- Raise an exception of the language or of the program. -/
def throw (e : Exn E) : Py E α := .error e

/-- The program returns, or raises an exception of its own. -/
def Safe : Py E α → Prop
  | .ok _ => True
  | .error (.user _) => True
  | .error _ => False

instance : (x : Py E α) → Decidable (Safe x)
  | .ok _ => .isTrue trivial
  | .error (.user _) => .isTrue trivial
  | .error .typeError => .isFalse id
  | .error .attributeError => .isFalse id
  | .error .keyError => .isFalse id
  | .error .indexError => .isFalse id
  | .error .unicodeEncodeError => .isFalse id
  | .error .limitError => .isFalse id

@[simp]
theorem safe_ok (a : α) : Safe (.ok a : Py E α) := trivial

@[simp]
theorem safe_pure (a : α) : Safe (pure a : Py E α) := trivial

@[simp]
theorem safe_user (e : E) : Safe (throw (.user e) : Py E α) := trivial

@[simp]
theorem not_safe_typeError : ¬Safe (throw .typeError : Py E α) := id

@[simp]
theorem not_safe_attributeError : ¬Safe (throw .attributeError : Py E α) := id

@[simp]
theorem not_safe_keyError : ¬Safe (throw .keyError : Py E α) := id

@[simp]
theorem not_safe_indexError : ¬Safe (throw .indexError : Py E α) := id

@[simp]
theorem not_safe_unicodeEncodeError : ¬Safe (throw .unicodeEncodeError : Py E α) := id

@[simp]
theorem not_safe_limitError : ¬Safe (throw .limitError : Py E α) := id

@[simp]
theorem ok_bind (a : α) (f : α → Py E β) : ((.ok a : Py E α) >>= f) = f a := rfl

@[simp]
theorem throw_bind (e : Exn E) (f : α → Py E β) : ((throw e : Py E α) >>= f) = throw e := rfl

/-- **Two programs in sequence are safe exactly when the first is, and the second is
for what the first returns.** -/
theorem safe_bind {x : Py E α} {f : α → Py E β} :
    Safe (x >>= f) ↔ Safe x ∧ ∀ a, x = .ok a → Safe (f a) := by
  cases x with
  | ok a =>
      change Safe (f a) ↔ _
      refine ⟨fun h => ⟨trivial, fun b hb => ?_⟩, fun h => h.2 a rfl⟩
      obtain rfl := Except.ok.inj hb
      exact h
  | error e =>
      change Safe (.error e : Py E β) ↔ _
      have hsame : Safe (.error e : Py E β) ↔ Safe (.error e : Py E α) := by cases e <;> exact Iff.rfl
      rw [hsame]
      exact ⟨fun h => ⟨h, fun a ha => by cases ha⟩, fun h => h.1⟩

/-- What a sequence returns, its first part has made. -/
theorem bind_eq_ok {x : Py E α} {f : α → Py E β} {b : β} (h : (x >>= f) = .ok b) :
    ∃ a, x = .ok a ∧ f a = .ok b := by
  cases x with
  | ok a => exact ⟨a, rfl, h⟩
  | error e => cases h

/-- The program raises no exception of its own. -/
def Plain (x : Py E α) : Prop := ∀ e, x ≠ .error (.user e)

/-- A program that is safe and raises nothing of its own returns. -/
theorem Plain.exists_ok {x : Py E α} (hx : Plain x) (h : Safe x) : ∃ a, x = .ok a := by
  cases x with
  | ok a => exact ⟨a, rfl⟩
  | error e =>
      cases e with
      | user e => exact absurd rfl (hx e)
      | _ => exact h.elim

@[simp]
theorem plain_ok (a : α) : Plain (.ok a : Py E α) := fun _ h => by cases h

@[simp]
theorem plain_typeError : Plain (throw .typeError : Py E α) := fun _ h => by cases h

@[simp]
theorem plain_attributeError : Plain (throw .attributeError : Py E α) := fun _ h => by cases h

@[simp]
theorem plain_unicodeEncodeError : Plain (throw .unicodeEncodeError : Py E α) :=
  fun _ h => by cases h

@[simp]
theorem plain_limitError : Plain (throw .limitError : Py E α) := fun _ h => by cases h

theorem Plain.bind {x : Py E α} {f : α → Py E β} (hx : Plain x) (hf : ∀ a, Plain (f a)) :
    Plain (x >>= f) := by
  cases x with
  | ok a => exact hf a
  | error e =>
      intro e' h
      have he : e = .user e' := Except.error.inj h
      exact hx e' (by rw [he])

/-- **Where the condition for the second part does not depend on what the first returns,
a sequence is safe exactly when both conditions hold.** -/
theorem Plain.safe_bind_iff {x : Py E α} {f : α → Py E β} {P : Prop} (hx : Plain x)
    (hf : ∀ a, x = .ok a → (Safe (f a) ↔ P)) : Safe (x >>= f) ↔ Safe x ∧ P := by
  rw [safe_bind]
  refine and_congr_right fun hsafe => ?_
  obtain ⟨a, ha⟩ := hx.exists_ok hsafe
  constructor
  · intro h
    exact (hf a ha).1 (h a ha)
  · intro h b hb
    exact (hf b hb).2 h

end Py

/-! ### Strings as bytes -/

/-- A code point that UTF-8 does not encode. -/
def isSurrogate (c : CodePoint) : Bool := 0xD800 ≤ c.val ∧ c.val ≤ 0xDFFF

/-- A string without lone surrogates. -/
def encodable (s : PyStr) : Bool := s.all fun c => !isSurrogate c

/-- The number of bytes of a code point in UTF-8. -/
def utf8Size (c : CodePoint) : ℕ :=
  if c.val < 0x80 then 1 else if c.val < 0x800 then 2 else if c.val < 0x10000 then 3 else 4

/-- The number of bytes of a string in UTF-8. -/
def utf8Length (s : PyStr) : ℕ := (s.map utf8Size).sum

/-- The longest part of a string, from its start, that fits into `n` bytes. -/
def takeBytes : ℕ → PyStr → PyStr
  | _, [] => []
  | n, c :: s => if utf8Size c ≤ n then c :: takeBytes (n - utf8Size c) s else []

/-- `s.encode()`, of which only the length is used. -/
def encode {E : Type} (s : PyStr) : Py E ℕ :=
  if encodable s then .ok (utf8Length s) else Py.throw .unicodeEncodeError

theorem plain_encodeStr {E : Type} (s : PyStr) : (encode s : Py E ℕ).Plain := by
  unfold encode
  split <;> simp

@[simp]
theorem safe_encode {E : Type} (s : PyStr) : (encode s : Py E ℕ).Safe ↔ encodable s = true := by
  unfold encode
  split
  · simp [*]
  · simp [*]

/-- A literal has no lone surrogate, as no character is one. -/
@[simp]
theorem encodable_py (s : String) : encodable (py s) = true := by
  refine List.all_eq_true.2 fun x hx => ?_
  obtain ⟨c, -, rfl⟩ := List.mem_map.1 hx
  have hc := c.valid
  simp only [UInt32.isValidChar, Nat.isValidChar] at hc
  rw [Bool.not_eq_true', isSurrogate, codePoint_val, decide_eq_false_iff_not]
  change ¬(0xD800 ≤ c.val.toNat ∧ c.val.toNat ≤ 0xDFFF)
  omega

/-- A part of an encodable string is encodable. -/
theorem encodable_of_subset {s t : PyStr} (h : t ⊆ s) (hs : encodable s = true) :
    encodable t = true := by
  simp only [encodable, List.all_eq_true] at hs ⊢
  exact fun c hc => hs c (h hc)

theorem utf8Size_pos (c : CodePoint) : 0 < utf8Size c := by
  unfold utf8Size
  split_ifs <;> omega

/-- A string that is not empty has at least one byte. -/
theorem utf8Length_pos {s : PyStr} : 0 < utf8Length s ↔ s ≠ [] := by
  cases s with
  | nil => simp [utf8Length]
  | cons c s =>
      have hc := utf8Size_pos c
      simp only [utf8Length, List.map_cons, List.sum_cons]
      exact ⟨fun _ => List.cons_ne_nil c s, fun _ => by omega⟩

mutual

/-- No string and no key of the value has a lone surrogate: `json.dumps(v,
ensure_ascii=False).encode()` does not raise. -/
def Json.encodable : Json → Bool
  | .str s => Lib.encodable s
  | .arr l => Json.encodableList l
  | .obj d => Json.encodableDict d
  | _ => true

/-- The same of the elements of a list. -/
def Json.encodableList : List Json → Bool
  | [] => true
  | v :: l => Json.encodable v && Json.encodableList l

/-- The same of the items of a dictionary. -/
def Json.encodableDict : List (PyStr × Json) → Bool
  | [] => true
  | (k, v) :: d => Lib.encodable k && (Json.encodable v && Json.encodableDict d)

end

/-- A list can be encoded when its elements can. -/
theorem Json.encodableList_iff (l : List Json) :
    Json.encodableList l = true ↔ ∀ v ∈ l, v.encodable = true := by
  induction l with
  | nil => simp [Json.encodableList]
  | cons v l ih => simp [Json.encodableList, ih]

/-- A value of a dictionary that can be encoded. -/
theorem Json.encodable_of_get? {d : Dict} {k : PyStr} {v : Json}
    (hd : Json.encodableDict d = true) (h : Dict.get? d k = some v) : v.encodable = true := by
  induction d with
  | nil => simp at h
  | cons kv rest ih =>
      obtain ⟨l, w⟩ := kv
      simp only [Json.encodableDict, Bool.and_eq_true] at hd
      rw [Dict.get?_cons] at h
      split at h
      · obtain rfl := Option.some.inj h
        exact hd.2.1
      · exact ih hd.2.2 h

/-- Writing an item that can be encoded. -/
theorem Json.encodableDict_set {d : Dict} {k : PyStr} {v : Json}
    (hd : Json.encodableDict d = true) (hk : Lib.encodable k = true) (hv : v.encodable = true) :
    Json.encodableDict (Dict.set d k v) = true := by
  induction d with
  | nil => simp [Dict.set, Json.encodableDict, hk, hv]
  | cons kv rest ih =>
      obtain ⟨l, w⟩ := kv
      simp only [Json.encodableDict, Bool.and_eq_true] at hd
      unfold Dict.set
      split
      · simp [Json.encodableDict, hk, hv, hd.2.2]
      · simp [Json.encodableDict, hd.1, hd.2.1, ih hd.2.2]

/-! ### The limits of the interpreter -/

mutual

/-- `copy.deepcopy(v)` gets through with the stack for values of this depth, where a value that
is no list and no dictionary is one deep. -/
def Json.copies : ℕ → Json → Bool
  | 0, _ => false
  | n + 1, .arr l => Json.copiesList n l
  | n + 1, .obj d => Json.copiesDict n d
  | _ + 1, _ => true

/-- The same of the elements of a list. -/
def Json.copiesList : ℕ → List Json → Bool
  | _, [] => true
  | n, v :: l => Json.copies n v && Json.copiesList n l

/-- The same of the items of a dictionary, whose keys are strings. -/
def Json.copiesDict : ℕ → List (PyStr × Json) → Bool
  | _, [] => true
  | n, (_, v) :: d => Json.copies n v && Json.copiesDict n d

end

/-- `copy.deepcopy(v)`, which is another dictionary with the same content. -/
def deepcopy {E : Type} (depth : ℕ) (v : Json) : Py E Json :=
  if v.copies depth then .ok v else Py.throw .limitError

theorem plain_deepcopy {E : Type} (depth : ℕ) (v : Json) :
    (deepcopy depth v : Py E Json).Plain := by
  unfold deepcopy
  split <;> simp

theorem safe_deepcopy {E : Type} (depth : ℕ) (v : Json) :
    (deepcopy depth v : Py E Json).Safe ↔ v.copies depth = true := by
  unfold deepcopy
  split <;> simp [*]

theorem of_deepcopy {E : Type} {depth : ℕ} {v w : Json}
    (h : (deepcopy depth v : Py E Json) = .ok w) : w = v := by
  unfold deepcopy at h
  split at h
  · exact (Except.ok.inj h).symm
  · cases h

mutual

/-- `json.dumps(v)` gets through with the stack for values of this depth, where only lists and
dictionaries count, and every number has at most as many digits as are written. -/
def Json.within (digits : ℕ) : ℕ → Json → Bool
  | _, .int k => k.natAbs < 10 ^ digits
  | 0, .arr _ => false
  | n + 1, .arr l => Json.withinList digits n l
  | 0, .obj _ => false
  | n + 1, .obj d => Json.withinDict digits n d
  | _, _ => true

/-- The same of the elements of a list. -/
def Json.withinList (digits : ℕ) : ℕ → List Json → Bool
  | _, [] => true
  | n, v :: l => Json.within digits n v && Json.withinList digits n l

/-- The same of the items of a dictionary. -/
def Json.withinDict (digits : ℕ) : ℕ → List (PyStr × Json) → Bool
  | _, [] => true
  | n, (_, v) :: d => Json.within digits n v && Json.withinDict digits n d

end

section Within

variable {digits n : ℕ} {d : Dict} {k : PyStr} {v : Json}

@[simp]
theorem Json.within_str (digits n : ℕ) (s : PyStr) : (Json.str s).within digits n = true := by
  cases n <;> rfl

/-- A dictionary leaves one level less to its values. -/
theorem Json.within_obj_iff :
    (Json.obj d).within digits n = true ↔ ∃ m, n = m + 1 ∧ Json.withinDict digits m d = true := by
  cases n with
  | zero => simp [Json.within]
  | succ m => simp [Json.within]

/-- A list leaves one level less to its elements. -/
theorem Json.within_arr_iff {l : List Json} :
    (Json.arr l).within digits n = true ↔ ∃ m, n = m + 1 ∧ ∀ v ∈ l, v.within digits m = true := by
  have hlist : ∀ (m : ℕ) (l : List Json),
      Json.withinList digits m l = true ↔ ∀ v ∈ l, v.within digits m = true := by
    intro m l
    induction l with
    | nil => simp [Json.withinList]
    | cons v l ih => simp [Json.withinList, ih]
  cases n with
  | zero => simp [Json.within]
  | succ m => simp [Json.within, hlist]

/-- A value of a dictionary within the limits. -/
theorem Json.within_of_get? (hd : Json.withinDict digits n d = true)
    (h : Dict.get? d k = some v) : v.within digits n = true := by
  induction d with
  | nil => simp at h
  | cons kv rest ih =>
      obtain ⟨l, w⟩ := kv
      simp only [Json.withinDict, Bool.and_eq_true] at hd
      rw [Dict.get?_cons] at h
      split at h
      · obtain rfl := Option.some.inj h
        exact hd.1
      · exact ih hd.2 h

/-- Writing an item within the limits. -/
theorem Json.withinDict_set (hd : Json.withinDict digits n d = true)
    (hv : v.within digits n = true) : Json.withinDict digits n (Dict.set d k v) = true := by
  induction d with
  | nil => simp [Dict.set, Json.withinDict, hv]
  | cons kv rest ih =>
      obtain ⟨l, w⟩ := kv
      simp only [Json.withinDict, Bool.and_eq_true] at hd
      unfold Dict.set
      split
      · simp [Json.withinDict, hv, hd.2]
      · simp [Json.withinDict, hd.1, ih hd.2]

end Within

/-! ### The text of a value -/

/-- The number of bytes of a code point inside the quotes of a JSON text. -/
def quotedSize (c : CodePoint) : ℕ :=
  if c = codePoint '"' ∨ c = codePoint '\\' ∨ c.val = 8 ∨ c.val = 9 ∨ c.val = 10 ∨ c.val = 12 ∨
    c.val = 13 then 2
  else if c.val < 0x20 then 6
  else utf8Size c

/-- The number of bytes of a string of a JSON text. -/
def quotedLength (s : PyStr) : ℕ := 2 + (s.map quotedSize).sum

/-- The number of bytes of a float, whose infinities `json.dumps` spells out. -/
def floatLength (repr : PyStr) : ℕ :=
  if repr = py "inf" then 8 else if repr = py "-inf" then 9 else repr.length

mutual

/-- `len(json.dumps(v, ensure_ascii=False).encode())`, for a value that can be encoded. -/
def Json.length : Json → ℕ
  | .null => 4
  | .bool b => if b then 4 else 5
  | .int n => (toString n).length
  | .float r => floatLength r
  | .str s => quotedLength s
  | .arr l => 2 + (Json.lengthList l - 2)
  | .obj d => 2 + (Json.lengthDict d - 2)

/-- The same of the elements of a list, each with a separator. -/
def Json.lengthList : List Json → ℕ
  | [] => 0
  | v :: l => Json.length v + 2 + Json.lengthList l

/-- The same of the items of a dictionary, each with its separators. -/
def Json.lengthDict : List (PyStr × Json) → ℕ
  | [] => 0
  | (k, v) :: d => quotedLength k + 2 + Json.length v + 2 + Json.lengthDict d

end

/-! ### Operations that may raise -/

namespace Json

variable {E : Type}

/-- `v[0:n]`. -/
def slice (n : ℕ) : Json → Py E Json
  | .str s => .ok (.str (s.take n))
  | .arr l => .ok (.arr (l.take n))
  | _ => Py.throw .typeError

/-- The value can be sliced. -/
def sliceable : Json → Bool
  | .str _ => true
  | .arr _ => true
  | _ => false

/-- `k in v`. -/
def has (k : PyStr) : Json → Py E Bool
  | .obj d => .ok (Dict.contains d k)
  | .arr l => .ok (l.contains (.str k))
  | .str s => .ok (k <:+: s)
  | _ => Py.throw .typeError

theorem has_obj (k : PyStr) (d : Dict) : (has k (.obj d) : Py E Bool) = .ok (d.contains k) := rfl

/-- `in` can be asked of the value. -/
def container : Json → Bool
  | .obj _ => true
  | .arr _ => true
  | .str _ => true
  | _ => false

/-- `v[k]` for a string `k`. -/
def item (k : PyStr) : Json → Py E Json
  | .obj d =>
      match Dict.get? d k with
      | some v => .ok v
      | none => Py.throw .keyError
  | _ => Py.throw .typeError

/-- `v.get(k)`. -/
def getAttr (k : PyStr) : Json → Py E Json
  | .obj d => .ok (Dict.get d k)
  | _ => Py.throw .attributeError

/-- `len(v)`. -/
def len : Json → Py E ℕ
  | .str s => .ok s.length
  | .arr l => .ok l.length
  | .obj d => .ok d.length
  | _ => Py.throw .typeError

/-- `v[i]` for a number `i`; a dictionary has string keys only. -/
def index (i : ℕ) : Json → Py E Json
  | .str s =>
      match s[i]? with
      | some c => .ok (.str [c])
      | none => Py.throw .indexError
  | .arr l =>
      match l[i]? with
      | some v => .ok v
      | none => Py.throw .indexError
  | .obj _ => Py.throw .keyError
  | _ => Py.throw .typeError

/-- `v[k] = w` for a string `k`. -/
def setItem (v : Json) (k : PyStr) (w : Json) : Py E Json :=
  match v with
  | .obj d => .ok (.obj (Dict.set d k w))
  | _ => Py.throw .typeError

/-- `v[i] = w` for a number `i` that `v[i]` has been read at, so never of a dictionary. -/
def setIndex (v : Json) (i : ℕ) (w : Json) : Py E Json :=
  match v with
  | .arr l => .ok (.arr (l.set i w))
  | _ => Py.throw .typeError

/-- `v[:-1]`. -/
def dropLast : Json → Py E Json
  | .str s => .ok (.str s.dropLast)
  | .arr l => .ok (.arr l.dropLast)
  | _ => Py.throw .typeError

/-- `v.encode()`: only a string has it. -/
def encode : Json → Py E ℕ
  | .str s => Lib.encode s
  | _ => Py.throw .attributeError

/-- `a or b`. -/
def or (a b : Json) : Json := if a.truthy then a else b

/-- The value is a dictionary. -/
def isObj : Json → Bool
  | .obj _ => true
  | _ => false

/-- The value is a string. -/
def isStr : Json → Bool
  | .str _ => true
  | _ => false

/-- The value can be a member of a set. -/
def hashable : Json → Bool
  | .arr _ => false
  | .obj _ => false
  | _ => true

@[simp]
theorem safe_slice (n : ℕ) (v : Json) : (slice n v : Py E Json).Safe ↔ v.sliceable = true := by
  cases v <;> simp [slice, sliceable]

@[simp]
theorem safe_has (k : PyStr) (v : Json) : (has k v : Py E Bool).Safe ↔ v.container = true := by
  cases v <;> simp [has, container]

@[simp]
theorem safe_getAttr (k : PyStr) (v : Json) : (getAttr k v : Py E Json).Safe ↔ v.isObj = true := by
  cases v <;> simp [getAttr, isObj]

/-- A value with a length in bytes is a string. -/
theorem encode_eq_ok {v : Json} {n : ℕ} (h : (v.encode : Py E ℕ) = .ok n) :
    ∃ s, v = .str s ∧ Lib.encodable s = true ∧ n = utf8Length s := by
  cases v with
  | str s =>
      simp only [encode, Lib.encode] at h
      split at h
      · rename_i hs
        exact ⟨s, rfl, hs, (Except.ok.inj h).symm⟩
      · cases h
  | _ => cases h

/-- Only a dictionary has items. -/
theorem item_eq_ok {k : PyStr} {v w : Json} (h : (item k v : Py E Json) = .ok w) :
    ∃ d, v = .obj d ∧ Dict.get? d k = some w := by
  cases v with
  | obj d =>
      refine ⟨d, rfl, ?_⟩
      simp only [item] at h
      split at h
      · rename_i u hu
        rw [hu, Except.ok.inj h]
      · cases h
  | _ => cases h

/-- An item of a dictionary. -/
theorem item_of_get? {k : PyStr} {d : Dict} {w : Json} (h : Dict.get? d k = some w) :
    (item k (.obj d) : Py E Json) = .ok w := by
  simp only [item, h]

theorem plain_item (k : PyStr) (v : Json) : (item k v : Py E Json).Plain := by
  intro e h
  cases v with
  | obj d =>
      simp only [item] at h
      split at h <;> cases h
  | _ => cases h

theorem plain_has (k : PyStr) (v : Json) : (has k v : Py E Bool).Plain := by
  intro e h
  cases v <;> cases h

theorem plain_len (v : Json) : (v.len : Py E ℕ).Plain := by
  intro e h
  cases v <;> cases h

theorem plain_index (i : ℕ) (v : Json) : (index i v : Py E Json).Plain := by
  intro e h
  cases v with
  | str s =>
      simp only [index] at h
      split at h <;> cases h
  | arr l =>
      simp only [index] at h
      split at h <;> cases h
  | _ => cases h

theorem plain_encode (v : Json) : (v.encode : Py E ℕ).Plain := by
  cases v with
  | str s => exact plain_encodeStr s
  | _ => exact Py.plain_attributeError

theorem plain_slice (n : ℕ) (v : Json) : (slice n v : Py E Json).Plain := by
  cases v <;> simp [slice]

end Json

end Lib
end Liza
