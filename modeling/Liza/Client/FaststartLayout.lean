/-
# The layout of the new file

The atoms of a file follow one another without gaps (`Contiguous`).  `process` lays them out
anew: `ftyp`, the first `moov`, and all the others in their order (`layout`).  Each atom keeps
its bytes, the entries of the tables in `moov` apart, so the new file is read as that layout
(`topLevelAtoms_relaid`), and a byte of the old file has a place in the new one
(`relocate`).
-/

import Liza.Client.FaststartTables
import Mathlib.Data.List.Nodup

set_option autoImplicit false

namespace Liza
namespace Client
namespace Faststart

open Lib

/-! ### Atoms without gaps -/

/-- The atoms follow one another from `s` to `e`, and none is empty. -/
def Contiguous : ℕ → List Atom → ℕ → Prop
  | s, [], e => s = e
  | s, a :: l, e => a.start = s ∧ a.start < a.stop ∧ Contiguous a.stop l e

/-- The sizes of the atoms, added. -/
def total (l : List Atom) : ℕ := (l.map Atom.size).sum

@[simp]
theorem total_nil : total [] = 0 := rfl

@[simp]
theorem total_cons (a : Atom) (l : List Atom) : total (a :: l) = a.size + total l := rfl

@[simp]
theorem total_append (l l' : List Atom) : total (l ++ l') = total l + total l' := by
  simp [total]

variable {data r : Buffer} {atoms l l' : List Atom} {a : Atom} {s e m n v v' : ℕ}

theorem Contiguous.total_eq (h : Contiguous s l e) : s + total l = e := by
  induction l generalizing s with
  | nil => exact h
  | cons a l ih =>
      obtain ⟨hs, hlt, hrest⟩ := h
      have := ih hrest
      rw [total_cons, Atom.size]
      omega

theorem contiguous_append :
    Contiguous s (l ++ l') e ↔ ∃ m, Contiguous s l m ∧ Contiguous m l' e := by
  induction l generalizing s with
  | nil => simp [Contiguous]
  | cons a l ih => simp [Contiguous, ih, and_assoc]

theorem Contiguous.bounds (h : Contiguous s l e) (ha : a ∈ l) :
    s ≤ a.start ∧ a.start < a.stop ∧ a.stop ≤ e := by
  induction l generalizing s with
  | nil => cases ha
  | cons b l ih =>
      have hend := h.total_eq
      obtain ⟨hs, hlt, hrest⟩ := h
      rw [total_cons, Atom.size] at hend
      rcases List.mem_cons.1 ha with rfl | ha
      · omega
      · have := ih hrest ha
        omega

/-- The atoms are all different. -/
theorem Contiguous.nodup (h : Contiguous s l e) : l.Nodup := by
  induction l generalizing s with
  | nil => exact List.nodup_nil
  | cons a l ih =>
      obtain ⟨hs, hlt, hrest⟩ := h
      refine List.nodup_cons.2 ⟨fun ha => ?_, ih hrest⟩
      have := hrest.bounds ha
      omega

/-- The atom is what is read of the file at its start. -/
structure ReadAt (data : Buffer) (a : Atom) : Prop where
  box : boxAt data a.start data.length = some ⟨a.size, a.headerSize, a.type⟩
  ascii : isAsciiType a.type = true

/-- What is read at one offset. -/
theorem topLevelAtoms_cases (h : topLevelAtoms data n = some atoms) :
    (n = data.length ∧ atoms = []) ∨ ∃ x rest, n + 8 ≤ data.length ∧
      boxAt data n data.length = some x ∧ isAsciiType x.type = true ∧
      topLevelAtoms data (n + x.size) = some rest ∧
      atoms = ⟨x.type, n, n + x.size, x.headerSize⟩ :: rest := by
  rw [topLevelAtoms] at h
  split at h
  · rename_i h8
    split at h
    · cases h
    · rename_i x hx
      split at h
      · rename_i hascii
        obtain ⟨rest, hrest, rfl⟩ := Option.map_eq_some_iff.1 h
        exact .inr ⟨x, rest, h8, hx, hascii, hrest, rfl⟩
      · cases h
  · split at h
    · rename_i hn
      exact .inl ⟨hn, (Option.some.inj h).symm⟩
    · cases h

/-- **The atoms of a file follow one another to its end.** -/
theorem contiguous_of_topLevelAtoms (h : topLevelAtoms data n = some atoms) :
    Contiguous n atoms data.length ∧ ∀ a ∈ atoms, ReadAt data a := by
  induction atoms generalizing n with
  | nil =>
      obtain ⟨hn, -⟩ | ⟨x, rest, -, -, -, -, hcons⟩ := topLevelAtoms_cases h
      · exact ⟨hn, fun a ha => by cases ha⟩
      · cases hcons
  | cons a atoms ih =>
      obtain ⟨-, hnil⟩ | ⟨x, rest, h8, hx, hascii, hrest, hcons⟩ := topLevelAtoms_cases h
      · cases hnil
      · obtain ⟨rfl, rfl⟩ := List.cons.inj hcons
        obtain ⟨-, -, hhead, hle, hend⟩ := boxAt_spec hx
        obtain ⟨hcont, hread⟩ := ih hrest
        refine ⟨⟨rfl, show n < n + x.size by omega, hcont⟩, fun b hb => ?_⟩
        rcases List.mem_cons.1 hb with rfl | hb
        · refine ⟨?_, hascii⟩
          have hsize : n + x.size - n = x.size := by omega
          simpa [Atom.size, hsize] using hx
        · exact hread b hb

/-! ### The order of the new file -/

/-- The first atom of a type. -/
def firstOf (type : String) (atoms : List Atom) : Option Atom :=
  atoms.find? fun a => a.type = fourCC type

/-- `ftyp` if there is one, the first `moov`, and all other atoms in their order. -/
def layout (atoms : List Atom) : List Atom :=
  (firstOf "ftyp" atoms).toList ++ (firstOf "moov" atoms).toList ++
    atoms.filter fun a => firstOf "ftyp" atoms ≠ some a ∧ firstOf "moov" atoms ≠ some a

/-- The atoms laid out from `n` on. -/
def rebase : ℕ → List Atom → List Atom
  | _, [] => []
  | n, a :: l => ⟨a.type, n, n + a.size, a.headerSize⟩ :: rebase (n + a.size) l

/-- The place in the new file, from `n` on, of byte `v` of the old one. -/
def relocate : List Atom → ℕ → ℕ → Option ℕ
  | [], _, _ => none
  | a :: l, n, v =>
      if a.start ≤ v ∧ v < a.stop then some (n + (v - a.start)) else relocate l (n + a.size) v

theorem firstOf_spec {type : String} (h : firstOf type atoms = some a) :
    a ∈ atoms ∧ a.type = fourCC type :=
  ⟨List.mem_of_find?_eq_some h, by simpa using List.find?_some h⟩

/-- The atoms that stay where they are, among the others. -/
def stays (atoms : List Atom) (a : Atom) : Bool :=
  firstOf "ftyp" atoms ≠ some a ∧ firstOf "moov" atoms ≠ some a

theorem others_eq_filter {skip : ℕ → Bool} {keep : Atom → Bool} {i : ℕ}
    (h : ∀ j a, l[j]? = some a → (skip (i + j) = true ↔ keep a = false)) :
    others skip i l = l.filter keep := by
  induction l generalizing i with
  | nil => rfl
  | cons a l ih =>
      have hfirst : skip i = true ↔ keep a = false := h 0 a rfl
      have hrest : others skip (i + 1) l = l.filter keep := by
        refine ih fun j b hb => ?_
        have := h (j + 1) b (by simpa using hb)
        rwa [show i + 1 + j = i + (j + 1) from by omega]
      rw [others, hrest]
      cases hk : keep a with
      | false => rw [if_pos (hfirst.2 hk), List.filter_cons_of_neg (by simp [hk])]
      | true =>
          have hskip : ¬skip i = true := fun hs => by
            have := hfirst.1 hs
            rw [hk] at this
            cases this
          rw [if_neg hskip, List.filter_cons_of_pos hk]

/-- The loop over the indices leaves out the two atoms that are moved. -/
theorem others_eq {i : ℕ} (hnodup : atoms.Nodup)
    (hmoov : atoms.findIdx? (fun a => a.type = fourCC "moov") = some i) :
    others (fun j => atoms.findIdx? (fun a => a.type = fourCC "ftyp") = some j ∨ j = i) 0 atoms =
      atoms.filter (stays atoms) := by
  have hfirst : ∀ type : String, firstOf type atoms =
      (atoms.findIdx? fun a => a.type = fourCC type).bind fun i => atoms[i]? := fun type =>
    List.find?_eq_bind_findIdx?_getElem?
  -- An atom has one index.
  have hindex : ∀ (type : String) (j : ℕ) (a : Atom), atoms[j]? = some a →
      (firstOf type atoms = some a ↔
        atoms.findIdx? (fun a => a.type = fourCC type) = some j) := by
    intro type j a ha
    rw [hfirst]
    constructor
    · intro h
      obtain ⟨k, hk, hka⟩ := Option.bind_eq_some_iff.1 h
      have hj : j < atoms.length := by
        by_contra hge
        rw [List.getElem?_eq_none (by omega)] at ha
        cases ha
      rw [hk, (List.getElem?_inj hj hnodup).1 (ha.trans hka.symm)]
    · intro h
      rw [h]
      exact ha
  refine others_eq_filter fun j a ha => ?_
  rw [Nat.zero_add]
  have hm : j = i ↔ firstOf "moov" atoms = some a := by
    rw [hindex "moov" j a ha, hmoov, Option.some.injEq]
    exact eq_comm
  simp only [stays, decide_eq_true_eq, decide_eq_false_iff_not, hindex "ftyp" j a ha, hm, ne_eq,
    not_and_or, not_not]

/-- The first atom that does not satisfy a test. -/
theorem split_first {keep : Atom → Bool} (h : ∃ a ∈ l, keep a = false) :
    ∃ k x rest, l = k ++ x :: rest ∧ (∀ a ∈ k, keep a = true) ∧ keep x = false := by
  induction l with
  | nil =>
      obtain ⟨a, ha, -⟩ := h
      cases ha
  | cons b l ih =>
      cases hb : keep b with
      | false => exact ⟨[], b, l, rfl, fun _ ha => absurd ha List.not_mem_nil, hb⟩
      | true =>
          obtain ⟨a, ha, hka⟩ := h
          have ha' : a ∈ l := by
            rcases List.mem_cons.1 ha with rfl | ha
            · rw [hb] at hka
              cases hka
            · exact ha
          obtain ⟨k, x, rest, rfl, hk, hx⟩ := ih ⟨a, ha', hka⟩
          refine ⟨b :: k, x, rest, rfl, fun c hc => ?_, hx⟩
          rcases List.mem_cons.1 hc with rfl | hc
          · exact hb
          · exact hk c hc

/-! ### Where a byte goes -/

theorem relocate_append (l l' : List Atom) (n v : ℕ) :
    relocate (l ++ l') n v = (relocate l n v).or (relocate l' (n + total l) v) := by
  induction l generalizing n with
  | nil => simp [relocate]
  | cons a l ih =>
      rw [List.cons_append, relocate, relocate, ih, total_cons, Nat.add_assoc]
      split
      · rfl
      · rfl

theorem relocate_eq_none (h : ∀ a ∈ l, v < a.start ∨ a.stop ≤ v) : relocate l n v = none := by
  induction l generalizing n with
  | nil => rfl
  | cons a l ih =>
      have ha := h a List.mem_cons_self
      rw [relocate, if_neg (by omega), ih fun b hb => h b (List.mem_cons_of_mem _ hb)]

theorem relocate_lt (h : relocate l n v = some v') : v' < n + total l := by
  induction l generalizing n with
  | nil => cases h
  | cons a l ih =>
      rw [relocate] at h
      rw [total_cons]
      split at h
      · obtain rfl := Option.some.inj h
        rw [Atom.size]
        omega
      · have := ih h
        omega

/-- Atoms without gaps move together. -/
theorem Contiguous.relocate (h : Contiguous s l e) (hs : s ≤ v) (he : v < e) :
    relocate l n v = some (n + (v - s)) := by
  induction l generalizing s n with
  | nil =>
      have : s = e := h
      omega
  | cons a l ih =>
      obtain ⟨rfl, hlt, hrest⟩ := h
      rw [Faststart.relocate]
      split
      · rfl
      · rw [ih hrest (by omega), Atom.size]
        congr 1
        omega

/-- Leaving out atoms moves the rest of them back. -/
theorem Contiguous.relocate_filter_le {keep : Atom → Bool} (h : Contiguous s l e)
    (hv : Faststart.relocate (l.filter keep) n v = some v') : s ≤ v ∧ v' ≤ n + (v - s) := by
  induction l generalizing s n with
  | nil => cases hv
  | cons a l ih =>
      obtain ⟨rfl, hlt, hrest⟩ := h
      cases hk : keep a with
      | false =>
          rw [List.filter_cons_of_neg (by simp [hk])] at hv
          have := ih hrest hv
          omega
      | true =>
          rw [List.filter_cons_of_pos hk, Faststart.relocate] at hv
          split at hv
          · obtain rfl := Option.some.inj hv
            omega
          · have := ih hrest hv
            rw [Atom.size] at this
            omega

/-! ### The bytes of the new file -/

/-- The bytes of an atom in the new file. -/
def piece (data : Buffer) (moov : Atom) (patched : Buffer) (a : Atom) : Buffer :=
  if a = moov then patched else slice data a.start a.stop

theorem length_slice (h : s ≤ e) (he : e ≤ data.length) : (slice data s e).length = e - s := by
  rw [slice, List.length_drop, List.length_take]
  omega

/-- Every atom keeps its size. -/
structure Sized (data : Buffer) (moov : Atom) (patched : Buffer) (l : List Atom) : Prop where
  patched : patched.length = moov.size
  bounds : ∀ a ∈ l, a.start < a.stop ∧ a.stop ≤ data.length

variable {moov mdat : Atom} {patched : Buffer}

theorem Sized.length_piece (h : Sized data moov patched l) (ha : a ∈ l) :
    (piece data moov patched a).length = a.size := by
  unfold piece
  split
  · rename_i heq
    rw [h.patched, heq]
  · have := h.bounds a ha
    rw [length_slice (by omega) this.2, Atom.size]

theorem Sized.mono (h : Sized data moov patched l) (hl : ∀ a ∈ l', a ∈ l) :
    Sized data moov patched l' := ⟨h.patched, fun a ha => h.bounds a (hl a ha)⟩

theorem Sized.length_flatMap (h : Sized data moov patched l) :
    (l.flatMap (piece data moov patched)).length = total l := by
  induction l with
  | nil => rfl
  | cons a l ih =>
      rw [List.flatMap_cons, List.length_append, h.length_piece List.mem_cons_self, total_cons,
        ih (h.mono fun b hb => List.mem_cons_of_mem _ hb)]

/-- The bytes of an atom stand where the sizes before it add up to. -/
theorem Sized.getElem?_flatMap {i : ℕ} (h : Sized data moov patched (l ++ a :: l'))
    (hi : i < a.size) :
    ((l ++ a :: l').flatMap (piece data moov patched))[total l + i]? =
      (piece data moov patched a)[i]? := by
  have hl := (h.mono fun b hb => List.mem_append_left _ hb : Sized data moov patched l).length_flatMap
  have ha := h.length_piece (a := a) (by simp)
  rw [List.flatMap_append, List.flatMap_cons, List.getElem?_append_right (by omega), hl,
    Nat.add_sub_cancel_left, List.getElem?_append_left (by omega)]

/-- A byte outside `moov` is found again where it goes. -/
theorem Sized.getElem?_relocate (h : Sized data moov patched l) (hl : ∀ a ∈ l, a ≠ moov ∨
    v < a.start ∨ a.stop ≤ v) (hv : relocate l n v = some v') :
    n ≤ v' ∧ (l.flatMap (piece data moov patched))[v' - n]? = data[v]? := by
  induction l generalizing n with
  | nil => cases hv
  | cons a l ih =>
      have ha := h.length_piece List.mem_cons_self
      rw [relocate] at hv
      rw [List.flatMap_cons]
      split at hv
      · rename_i hin
        obtain rfl := Option.some.inj hv
        have hne : a ≠ moov := by
          have := hl a List.mem_cons_self
          rcases this with hne | hout
          · exact hne
          · omega
        refine ⟨by omega, ?_⟩
        have hsize : v - a.start < a.size := by
          rw [Atom.size]
          omega
        rw [show n + (v - a.start) - n = v - a.start from by omega,
          List.getElem?_append_left (by omega), piece, if_neg hne, getElem?_slice,
          show a.start + (v - a.start) = v from by omega, if_pos hin.2]
      · obtain ⟨hle, hbyte⟩ := ih (h.mono fun b hb => List.mem_cons_of_mem _ hb)
          (fun b hb => hl b (List.mem_cons_of_mem _ hb)) hv
        refine ⟨by omega, ?_⟩
        rw [List.getElem?_append_right (by omega), ha, ← hbyte]
        congr 1
        omega

/-- The size field of an atom says "to the end". -/
def Open (data : Buffer) (a : Atom) : Prop := readBE data a.start 4 = some 0

/-- An atom whose size is "to the end" ends there. -/
theorem ReadAt.stop_of_open (h : ReadAt data a) (ho : Open data a) (hlt : a.start < a.stop)
    (he : a.stop ≤ data.length) : a.stop = data.length := by
  obtain ⟨hsize, -, -, -, -⟩ := boxAt_spec h.box
  rw [sizeAt, show readBE data a.start 4 = some 0 from ho] at hsize
  have hs := (Prod.mk.inj (Option.some.inj hsize)).1
  rw [Atom.size] at hs
  simp only at hs
  omega

/-- **A box is read the same in another place**, if it ends within the file; one "to the end"
has to end there. -/
theorem boxAt_moved {x : Box} {off : ℕ} (h : boxAt data off data.length = some x)
    (hbytes : ∀ i < min 16 x.size, r[n + i]? = data[off + i]?) (hend : n + x.size ≤ r.length)
    (hopen : readBE data off 4 = some 0 → n + x.size = r.length) :
    boxAt r n r.length = some x := by
  obtain ⟨hsize, htype, hhead, hle, hstop⟩ := boxAt_spec h
  have h4 : readBE r n 4 = readBE data off 4 := readBE_congr fun i hi => hbytes i (by omega)
  have htype' : typeAt r n = typeAt data off := by
    refine List.ext_getElem? fun i => ?_
    rw [typeAt, typeAt, getElem?_slice, getElem?_slice]
    by_cases hi : i < 4
    · rw [if_pos (by omega), if_pos (by omega), Nat.add_assoc, Nat.add_assoc,
        hbytes (4 + i) (by omega)]
    · rw [if_neg (by omega), if_neg (by omega)]
  have hsize' : sizeAt r n r.length = some (x.size, x.headerSize) := by
    unfold sizeAt at hsize ⊢
    rw [h4]
    obtain ⟨size32, hread, hsize⟩ := Option.bind_eq_some_iff.1 hsize
    rw [hread] at hopen ⊢
    show (if size32 = 1 then _ else _) = _
    by_cases h1 : size32 = 1
    · rw [if_pos h1] at hsize ⊢
      split at hsize
      · cases hsize
      · obtain ⟨m, hm, hpair⟩ := Option.map_eq_some_iff.1 hsize
        obtain ⟨rfl, hh⟩ := Prod.mk.inj hpair
        have h8 : readBE r (n + 8) 8 = readBE data (off + 8) 8 := by
          refine readBE_congr fun i hi => ?_
          rw [Nat.add_assoc, Nat.add_assoc, hbytes (8 + i) (by omega)]
        rw [if_neg (by omega), h8, hm]
        rw [Option.map_some, hh]
    · rw [if_neg h1] at hsize ⊢
      by_cases h0 : size32 = 0
      · rw [if_pos h0] at hsize ⊢
        have := hopen (by rw [h0])
        obtain ⟨-, hh⟩ := Prod.mk.inj (Option.some.inj hsize)
        rw [show r.length - n = x.size from by omega, ← hh]
      · rw [if_neg h0] at hsize ⊢
        exact hsize
  rw [boxAt, hsize']
  show (if x.size < x.headerSize ∨ n + x.size > r.length then _ else _) = _
  rw [if_neg (by omega), htype', ← htype]

/-- The header of an atom is that of the old file: `moov` is patched behind it. -/
theorem getElem?_piece (hheader : ∀ i < 16, patched[i]? = (slice data moov.start moov.stop)[i]?)
    {i : ℕ} (hi : i < min 16 a.size) : (piece data moov patched a)[i]? = data[a.start + i]? := by
  have hslice : (slice data a.start a.stop)[i]? = data[a.start + i]? := by
    rw [getElem?_slice, if_pos (by rw [Atom.size] at hi; omega)]
  unfold piece
  split
  · rename_i heq
    rw [hheader i (by omega), ← heq, hslice]
  · exact hslice

/-- **The new file is read as its layout**, when only its last atom is one "to the end". -/
theorem topLevelAtoms_relaid {all : List Atom} (hsized : Sized data moov patched all)
    (hread : ∀ a ∈ all, ReadAt data a)
    (hheader : ∀ i < 16, patched[i]? = (slice data moov.start moov.stop)[i]?)
    (hopen : ∀ l₁ a l₂, all = l₁ ++ a :: l₂ → Open data a → l₂ = []) (l l' : List Atom)
    (hall : all = l ++ l') :
    topLevelAtoms (all.flatMap (piece data moov patched)) (total l) = some (rebase (total l) l') := by
  have hlength := hsized.length_flatMap
  induction l' generalizing l with
  | nil =>
      rw [List.append_nil] at hall
      rw [topLevelAtoms, hlength, hall, if_neg (by omega), if_pos rfl]
      rfl
  | cons a l' ih =>
      have ha : a ∈ all := by simp [hall]
      obtain ⟨hsize, -, hhead, hle, -⟩ := boxAt_spec (hread a ha).box
      simp only at hle hhead
      have htotal : total all = total l + (a.size + total l') := by rw [hall]; simp
      have hbox : boxAt (all.flatMap (piece data moov patched)) (total l)
          (all.flatMap (piece data moov patched)).length = some ⟨a.size, a.headerSize, a.type⟩ := by
        refine boxAt_moved (hread a ha).box (fun i hi => ?_) ?_ fun ho => ?_
        · have hi' : i < min 16 a.size := hi
          have hat := (hall ▸ hsized : Sized data moov patched (l ++ a :: l')).getElem?_flatMap
            (show i < a.size by omega)
          rw [← hall] at hat
          rw [hat, getElem?_piece hheader hi']
        · rw [hlength, htotal]
          show total l + a.size ≤ _
          omega
        · rw [hlength, htotal, hopen l a l' hall ho]
          simp
      have hrest := ih (l ++ [a]) (by simp [hall])
      have hnext : total (l ++ [a]) = total l + a.size := by simp
      rw [hnext] at hrest
      rw [topLevelAtoms, if_pos (by omega)]
      split
      · rename_i hnone
        rw [hbox] at hnone
        cases hnone
      · rename_i x hx
        rw [hbox] at hx
        obtain rfl := Option.some.inj hx
        rw [if_pos (hread a ha).ascii, hrest]
        rfl

/-- What the layout says of the atom at one place, when the file is read so. -/
theorem boxAt_of_rebase (h : topLevelAtoms r n = some (rebase n (a :: l))) :
    boxAt r n r.length = some ⟨a.size, a.headerSize, a.type⟩ ∧
      topLevelAtoms r (n + a.size) = some (rebase (n + a.size) l) := by
  obtain ⟨-, hnil⟩ | ⟨x, rest, -, hx, -, hrest, hcons⟩ := topLevelAtoms_cases h
  · cases hnil
  · obtain ⟨hatom, rfl⟩ := List.cons.inj hcons
    obtain ⟨htype, -, hstop, hhead⟩ := Atom.mk.inj hatom
    have hsize : a.size = x.size := by omega
    rw [hsize] at hrest
    rw [hsize, hhead, htype]
    exact ⟨hx, hrest⟩

end Faststart
end Client
end Liza
