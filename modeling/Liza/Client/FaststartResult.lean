/-
# What `process` has done

When `process` returns a file, it is made of the pieces of the old one in the new order
(`Remux.file_eq`): `mdat` starts behind the index and what stands before it (`Remux.nm_eq`), so
it is moved by the size of the index at least, and the distance it is moved by is added to the
entries of the tables (`Remux.patched_spec`).
-/

import Liza.Client.FaststartLayout
import Liza.Lib.Run

set_option autoImplicit false

namespace Liza
namespace Client
namespace Faststart

open Lib

variable {data r : Buffer} {atoms l l' : List Atom} {a moov mdat : Atom} {patched : Buffer}
  {n v v' d : ℕ}

/-! ### What `process` has done -/

/-- What is known when `process` returns a file: `nm` is the new start of `mdat`. -/
structure Remux (data r : Buffer) (atoms : List Atom) (moov mdat : Atom) (nm : ℕ)
    (patched : Buffer) : Prop where
  length_le : data.length ≤ maxBytes
  parse : topLevelAtoms data 0 = some atoms
  moov_eq : firstOf "moov" atoms = some moov
  mdat_eq : firstOf "mdat" atoms = some mdat
  before : mdat.start ≤ moov.start
  unique : (atoms.filter fun a => a.type = fourCC "mdat").length = 1
  start : mdatStart (firstOf "ftyp" atoms).toList.length
    (slice data moov.start moov.stop).length 0 0 none
    ((firstOf "ftyp" atoms).toList ++ atoms.filter (stays atoms)) = some nm
  patch : patchChunkOffsets ((nm : ℤ) - mdat.start) mdat.start
    (data.length + ((nm : ℤ) - mdat.start)) (slice data moov.start moov.stop) = some patched
  file : r = assemble data patched (firstOf "ftyp" atoms).toList.length 0
    ((firstOf "ftyp" atoms).toList ++ atoms.filter (stays atoms))
  length_eq : r.length = data.length

/-- Atoms at growing indices start at growing offsets. -/
theorem Contiguous.start_le {s e i j : ℕ} {b : Atom} (h : Contiguous s l e) (hij : i ≤ j)
    (ha : l[i]? = some a) (hb : l[j]? = some b) : a.start ≤ b.start := by
  induction l generalizing s i j with
  | nil => simp at ha
  | cons c l ih =>
      obtain ⟨rfl, hlt, hrest⟩ := h
      cases i with
      | zero =>
          obtain rfl := Option.some.inj ha
          cases j with
          | zero =>
              obtain rfl := Option.some.inj hb
              exact le_rfl
          | succ j =>
              have := hrest.bounds (List.mem_of_getElem? hb)
              omega
      | succ i =>
          obtain ⟨j, rfl⟩ : ∃ k, j = k + 1 := ⟨j - 1, by omega⟩
          exact ih hrest (by omega) ha hb

theorem remux_of_process (h : process data = some r) :
    ∃ atoms moov mdat nm patched, Remux data r atoms moov mdat nm patched := by
  obtain ⟨_, hlen, h₁⟩ := Option.bind_eq_some_iff.1 h
  obtain ⟨atoms, hatoms, h₂⟩ := Option.bind_eq_some_iff.1 h₁
  obtain ⟨i, hi, h₃⟩ := Option.bind_eq_some_iff.1 h₂
  obtain ⟨j, hj, h₄⟩ := Option.bind_eq_some_iff.1 h₃
  obtain ⟨_, hji, h₅⟩ := Option.bind_eq_some_iff.1 h₄
  obtain ⟨_, hone, h₆⟩ := Option.bind_eq_some_iff.1 h₅
  obtain ⟨_, _, h₇⟩ := Option.bind_eq_some_iff.1 h₆
  obtain ⟨moov, hmoov, h₈⟩ := Option.bind_eq_some_iff.1 h₇
  obtain ⟨mdat, hmdat, h₉⟩ := Option.bind_eq_some_iff.1 h₈
  obtain ⟨_, _, h₁₀⟩ := Option.bind_eq_some_iff.1 h₉
  obtain ⟨_, _, h₁₁⟩ := Option.bind_eq_some_iff.1 h₁₀
  obtain ⟨nm, hnm, h₁₂⟩ := Option.bind_eq_some_iff.1 h₁₁
  obtain ⟨_, _, h₁₃⟩ := Option.bind_eq_some_iff.1 h₁₂
  obtain ⟨patched, hpatched, h₁₄⟩ := Option.bind_eq_some_iff.1 h₁₃
  obtain ⟨_, hlength, h₁₅⟩ := Option.bind_eq_some_iff.1 h₁₄
  obtain rfl := Option.some.inj h₁₅
  obtain ⟨hcont, -⟩ := contiguous_of_topLevelAtoms hatoms
  have hfirst : ∀ (type : String) (k : ℕ) (b : Atom),
      atoms.findIdx? (fun a => a.type = fourCC type) = some k → atoms[k]? = some b →
      firstOf type atoms = some b := by
    intro type k b hk hb
    rw [firstOf, List.find?_eq_bind_findIdx?_getElem?, hk]
    exact hb
  have hftyp : ((atoms.findIdx? fun a => a.type = fourCC "ftyp").bind fun i => atoms[i]?) =
      firstOf "ftyp" atoms := List.find?_eq_bind_findIdx?_getElem?.symm
  rw [hftyp, others_eq hcont.nodup hi] at hnm hlength ⊢
  exact ⟨atoms, moov, mdat, nm, patched,
    { length_le := of_guard hlen
      parse := hatoms
      moov_eq := hfirst "moov" i moov hi hmoov
      mdat_eq := hfirst "mdat" j mdat hj hmdat
      before := hcont.start_le (of_guard hji) hmdat hmoov
      unique := of_guard hone
      start := hnm
      patch := hpatched
      file := rfl
      length_eq := of_guard hlength }⟩

/-! ### The loops over the new order -/

/-- No atom of the list is `mdat`. -/
def NoMdat (l : List Atom) : Prop := ∀ a ∈ l, a.type ≠ fourCC "mdat"

theorem mdatStart_skip {insertAt len : ℕ} (hl : NoMdat l) (i cursor : ℕ) (found : Option ℕ) :
    mdatStart insertAt len i cursor found (l ++ l') =
      mdatStart insertAt len (i + l.length)
        (cursor + total l + if i ≤ insertAt ∧ insertAt < i + l.length then len else 0) found l' := by
  induction l generalizing i cursor with
  | nil => simp [show ¬(i ≤ insertAt ∧ insertAt < i) by omega]
  | cons a l ih =>
      have ha : a.type ≠ fourCC "mdat" := hl a List.mem_cons_self
      rw [List.cons_append, mdatStart, if_neg ha, ih fun b hb => hl b (List.mem_cons_of_mem _ hb),
        List.length_cons, total_cons]
      congr 1
      · omega
      · by_cases hi : i = insertAt
        · rw [if_pos hi, if_neg (by omega), if_pos (by omega)]
          omega
        · rw [if_neg hi]
          by_cases hin : i + 1 ≤ insertAt ∧ insertAt < i + 1 + l.length
          · rw [if_pos hin, if_pos (by omega)]
            omega
          · rw [if_neg hin, if_neg (by omega)]
            omega

/-- The new start of `mdat`: behind the index and the atoms before it. -/
theorem mdatStart_eq {insertAt len : ℕ} (hl : NoMdat l) (hl' : NoMdat l')
    (hmdat : mdat.type = fourCC "mdat") (hins : insertAt ≤ l.length) :
    mdatStart insertAt len 0 0 none (l ++ mdat :: l') = some (total l + len) := by
  have hrest : ∀ (i cursor : ℕ) (found : Option ℕ),
      mdatStart insertAt len i cursor found l' = found := fun i cursor found => by
    simpa [mdatStart] using @mdatStart_skip l' [] insertAt len hl' i cursor found
  rw [mdatStart_skip hl, mdatStart, if_pos hmdat, hrest]
  congr 1
  by_cases hi : insertAt = l.length
  · rw [if_pos (by omega), if_neg (by omega)]
    omega
  · rw [if_neg (by omega), if_pos (by omega)]
    omega

theorem assemble_behind {insertAt i : ℕ} (hi : insertAt < i) :
    assemble data patched insertAt i l = l.flatMap fun a => slice data a.start a.stop := by
  induction l generalizing i with
  | nil => rfl
  | cons a l ih =>
      rw [assemble, if_neg (by omega), List.nil_append, ih (by omega), List.flatMap_cons]

/-- The index is put in front of the first atom behind `ftyp`. -/
theorem assemble_eq (i : ℕ) :
    assemble data patched (i + l.length) i (l ++ a :: l') =
      (l.flatMap fun a => slice data a.start a.stop) ++ patched ++
        (a :: l').flatMap fun a => slice data a.start a.stop := by
  induction l generalizing i with
  | nil =>
      rw [List.nil_append, assemble, if_pos (by simp), assemble_behind (by simp)]
      simp
  | cons b l ih =>
      have hnext := ih (i + 1)
      rw [List.cons_append, assemble, if_neg (by simp), List.nil_append, List.length_cons,
        show i + (l.length + 1) = i + 1 + l.length from by omega, hnext]
      simp only [List.flatMap_cons, List.append_assoc]

/-! ### Before and behind `mdat` -/

/-- The atoms around `mdat`; the index is one of those behind it. -/
structure Around (atoms : List Atom) (moov mdat : Atom) (e : ℕ) (pre post : List Atom) : Prop where
  atoms_eq : atoms = pre ++ mdat :: post
  noMdat_pre : NoMdat pre
  noMdat_post : NoMdat post
  moov_mem : moov ∈ post
  contiguous_pre : Contiguous 0 pre mdat.start
  contiguous_mdat : Contiguous mdat.start (mdat :: post) e

theorem Remux.around {nm : ℕ} (h : Remux data r atoms moov mdat nm patched) :
    ∃ pre post, Around atoms moov mdat data.length pre post := by
  obtain ⟨hmdat, pre, post, rfl, hpre⟩ := List.find?_eq_some_iff_append.1 h.mdat_eq
  have hpre' : NoMdat pre := fun a ha => by simpa using hpre a ha
  have hpost : NoMdat post := by
    have hone := h.unique
    rw [List.filter_append, List.length_append,
      List.filter_cons_of_pos (p := fun a : Atom => a.type = fourCC "mdat") hmdat,
      List.length_cons] at hone
    have hnil : post.filter (fun a => a.type = fourCC "mdat") = [] :=
      List.eq_nil_of_length_eq_zero (by omega)
    intro a ha
    simpa using List.filter_eq_nil_iff.1 hnil a ha
  obtain ⟨hcont, -⟩ := contiguous_of_topLevelAtoms h.parse
  obtain ⟨m, hcont₁, hcont₂⟩ := contiguous_append.1 hcont
  obtain rfl : mdat.start = m := hcont₂.1
  obtain ⟨hmem, htype⟩ := firstOf_spec h.moov_eq
  refine ⟨pre, post, rfl, hpre', hpost, ?_, hcont₁, hcont₂⟩
  rcases List.mem_append.1 hmem with hin | hin
  · -- An atom before `mdat` starts before it.
    have hb := hcont₁.bounds hin
    have := h.before
    omega
  · rcases List.mem_cons.1 hin with heq | hin
    · rw [heq, (firstOf_spec h.mdat_eq).2] at htype
      exact absurd htype (by decide)
    · exact hin

theorem Around.filter_eq {e : ℕ} {pre post : List Atom} {keep : Atom → Bool}
    (h : Around atoms moov mdat e pre post) (hk : keep mdat = true) :
    atoms.filter keep = pre.filter keep ++ mdat :: post.filter keep := by
  rw [h.atoms_eq, List.filter_append, List.filter_cons_of_pos hk]

theorem stays_mdat (hmdat : mdat.type = fourCC "mdat") : stays atoms mdat = true := by
  have hne : ∀ type : String, fourCC "mdat" ≠ fourCC type → firstOf type atoms ≠ some mdat :=
    fun type htype heq => htype (hmdat.symm.trans (firstOf_spec heq).2)
  simp [stays, hne "ftyp" (by decide), hne "moov" (by decide)]

/-- Leaving out one atom of a list at most. -/
theorem total_le_filter {f : Option Atom} {keep : Atom → Bool} (hnodup : l.Nodup)
    (hl : ∀ a ∈ l, keep a = false → f = some a) :
    total l ≤ total (l.filter keep) + total f.toList := by
  induction l with
  | nil => simp
  | cons a l ih =>
      obtain ⟨hnotin, hnodup⟩ := List.nodup_cons.1 hnodup
      cases hk : keep a with
      | true =>
          have := ih hnodup fun b hb => hl b (List.mem_cons_of_mem _ hb)
          rw [List.filter_cons_of_pos hk, total_cons, total_cons]
          omega
      | false =>
          -- The one atom is `a`, so all the others are kept.
          have hf := hl a List.mem_cons_self hk
          have hkeep : l.filter keep = l := by
            refine List.filter_eq_self.2 fun b hb => ?_
            by_contra hb'
            have hfb := hl b (List.mem_cons_of_mem _ hb) (by simpa using hb')
            rw [hf] at hfb
            exact hnotin (Option.some.inj hfb ▸ hb)
          rw [List.filter_cons_of_neg (by simp [hk]), hkeep, hf, total_cons]
          simp
          omega

section Around

variable {nm : ℕ} {pre post : List Atom}

theorem Remux.length_moov (h : Remux data r atoms moov mdat nm patched) :
    (slice data moov.start moov.stop).length = moov.size ∧ 8 ≤ moov.size := by
  obtain ⟨hcont, hread⟩ := contiguous_of_topLevelAtoms h.parse
  obtain ⟨hmem, -⟩ := firstOf_spec h.moov_eq
  have hb := hcont.bounds hmem
  obtain ⟨-, -, hhead, hle, -⟩ := boxAt_spec (hread moov hmem).box
  simp only at hhead hle
  refine ⟨length_slice (by omega) hb.2.2, by omega⟩

/-- The new start of `mdat`. -/
theorem Remux.nm_eq (h : Remux data r atoms moov mdat nm patched)
    (ha : Around atoms moov mdat data.length pre post) :
    nm = total (firstOf "ftyp" atoms).toList + total (pre.filter (stays atoms)) + moov.size := by
  have hmdat := (firstOf_spec h.mdat_eq).2
  have hftyp : NoMdat (firstOf "ftyp" atoms).toList := by
    intro a hain
    rw [(firstOf_spec (Option.mem_toList.1 hain)).2]
    decide
  have hpre : NoMdat ((firstOf "ftyp" atoms).toList ++ pre.filter (stays atoms)) := by
    intro a hain
    rcases List.mem_append.1 hain with hain | hain
    · exact hftyp a hain
    · exact ha.noMdat_pre a (List.mem_filter.1 hain).1
  have hstart := h.start
  rw [ha.filter_eq (stays_mdat hmdat), ← List.append_assoc, mdatStart_eq hpre
    (fun a hain => ha.noMdat_post a (List.mem_filter.1 hain).1) hmdat (by simp),
    h.length_moov.1, total_append] at hstart
  exact (Option.some.inj hstart).symm

/-- `mdat` moves behind the index, so by its size at least. -/
theorem Remux.moved (h : Remux data r atoms moov mdat nm patched)
    (ha : Around atoms moov mdat data.length pre post) : mdat.start + moov.size ≤ nm := by
  have hpre : total pre ≤ total (pre.filter (stays atoms)) + total (firstOf "ftyp" atoms).toList := by
    refine total_le_filter ha.contiguous_pre.nodup fun a hain hstays => ?_
    by_contra hne
    have hmoov : firstOf "moov" atoms = some a := by simpa [stays, hne] using hstays
    rw [h.moov_eq] at hmoov
    obtain rfl := Option.some.inj hmoov
    have hb := ha.contiguous_pre.bounds hain
    have := h.before
    omega
  have hstart := ha.contiguous_pre.total_eq
  have := h.nm_eq ha
  omega

theorem total_filter_le (keep : Atom → Bool) (l : List Atom) : total (l.filter keep) ≤ total l := by
  induction l with
  | nil => exact le_rfl
  | cons a l ih =>
      cases hk : keep a with
      | true =>
          rw [List.filter_cons_of_pos hk, total_cons, total_cons]
          omega
      | false =>
          rw [List.filter_cons_of_neg (by simp [hk]), total_cons]
          omega

/-- What is written into the tables fits into 64 bits. -/
theorem Remux.limit_lt (h : Remux data r atoms moov mdat nm patched)
    (ha : Around atoms moov mdat data.length pre post) :
    (data.length : ℤ) + ((nm : ℤ) - mdat.start) < 256 ^ 8 := by
  obtain ⟨hcont, -⟩ := contiguous_of_topLevelAtoms h.parse
  have hftyp : total (firstOf "ftyp" atoms).toList ≤ data.length := by
    cases hf : firstOf "ftyp" atoms with
    | none => exact Nat.zero_le _
    | some f =>
        have := hcont.bounds (firstOf_spec hf).1
        simp [Atom.size]
        omega
  have hmoov := hcont.bounds (firstOf_spec h.moov_eq).1
  have hmdat := hcont.bounds (firstOf_spec h.mdat_eq).1
  have hpre := total_filter_le (stays atoms) pre
  have hstart := ha.contiguous_pre.total_eq
  have hnm := h.nm_eq ha
  have hlen := h.length_le
  rw [Atom.size] at hnm
  simp only [maxBytes] at hlen
  omega

/-- The size of the header of `moov`, as the walk and the parser read it. -/
theorem ReadAt.headerSize_eq (h : ReadAt data a) :
    ∃ size, readBE data a.start 4 = some size ∧ a.headerSize = if size = 1 then 16 else 8 := by
  obtain ⟨hsize, -⟩ := boxAt_spec h.box
  obtain ⟨size, hread, hsize⟩ := Option.bind_eq_some_iff.1 hsize
  refine ⟨size, hread, ?_⟩
  by_cases h1 : size = 1
  · rw [if_pos h1] at hsize ⊢
    split at hsize
    · cases hsize
    · obtain ⟨_, -, hpair⟩ := Option.map_eq_some_iff.1 hsize
      exact (Prod.mk.inj hpair).2.symm
  · rw [if_neg h1] at hsize ⊢
    split at hsize
    · exact (Prod.mk.inj (Option.some.inj hsize)).2.symm
    · exact (Prod.mk.inj (Option.some.inj hsize)).2.symm

/-- The entries of the tables of `moov`, in the bytes of `moov`. -/
def tableOf (moov : Atom) (bytes : Buffer) : List (ℕ × ℕ) :=
  entries bytes moov.headerSize moov.size

/-- **The index is patched, and nothing else of it is changed.** -/
theorem Remux.patched_spec (h : Remux data r atoms moov mdat nm patched)
    (ha : Around atoms moov mdat data.length pre post) :
    Patched ((nm : ℤ) - mdat.start) mdat.start (data.length + ((nm : ℤ) - mdat.start))
        (moov.headerSize + 16) moov.size (tableOf moov (slice data moov.start moov.stop))
        (slice data moov.start moov.stop) patched ∧
      tableOf moov patched = tableOf moov (slice data moov.start moov.stop) := by
  obtain ⟨-, hread⟩ := contiguous_of_topLevelAtoms h.parse
  obtain ⟨hlen, h8⟩ := h.length_moov
  obtain ⟨size, hsize, hhead⟩ := (hread moov (firstOf_spec h.moov_eq).1).headerSize_eq
  have hsize' : readBE (slice data moov.start moov.stop) 0 4 = some size := by
    rw [← hsize]
    refine readBE_congr fun i hi => ?_
    rw [getElem?_slice, Nat.zero_add, if_pos (by rw [Atom.size] at h8; omega)]
  obtain ⟨size', hread', hwalk⟩ := Option.bind_eq_some_iff.1 h.patch
  rw [hsize'] at hread'
  obtain rfl := Option.some.inj hread'
  rw [← hhead, hlen] at hwalk
  exact walk_spec (h.limit_lt ha) hlen.ge hwalk

/-- The header of the index stays. -/
theorem Remux.header_eq (h : Remux data r atoms moov mdat nm patched)
    (ha : Around atoms moov mdat data.length pre post) :
    ∀ i < 16, patched[i]? = (slice data moov.start moov.stop)[i]? := fun _ _ =>
  (h.patched_spec ha).1.agree (.inl (by omega))

theorem Remux.sized (h : Remux data r atoms moov mdat nm patched)
    (ha : Around atoms moov mdat data.length pre post) (hl : ∀ a ∈ l, a ∈ atoms) :
    Sized data moov patched l := by
  obtain ⟨hcont, -⟩ := contiguous_of_topLevelAtoms h.parse
  obtain ⟨hpatched, -⟩ := h.patched_spec ha
  exact ⟨hpatched.length_eq.trans h.length_moov.1, fun a hain => (hcont.bounds (hl a hain)).2⟩

theorem mem_layout (hmem : a ∈ layout atoms) : a ∈ atoms := by
  rcases List.mem_append.1 hmem with hmem | hmem
  · rcases List.mem_append.1 hmem with hmem | hmem
    · exact (firstOf_spec (Option.mem_toList.1 hmem)).1
    · exact (firstOf_spec (Option.mem_toList.1 hmem)).1
  · exact (List.mem_filter.1 hmem).1

theorem Remux.layout_eq (h : Remux data r atoms moov mdat nm patched) :
    layout atoms = (firstOf "ftyp" atoms).toList ++ [moov] ++ atoms.filter (stays atoms) := by
  show _ ++ (firstOf "moov" atoms).toList ++ atoms.filter (stays atoms) = _
  rw [h.moov_eq]
  rfl

/-- **The new file is made of the pieces of the old one, in the new order.** -/
theorem Remux.file_eq (h : Remux data r atoms moov mdat nm patched)
    (ha : Around atoms moov mdat data.length pre post) :
    r = (layout atoms).flatMap (piece data moov patched) := by
  have hmdat := (firstOf_spec h.mdat_eq).2
  have hpiece : ∀ a ∈ (firstOf "ftyp" atoms).toList ++ atoms.filter (stays atoms),
      piece data moov patched a = slice data a.start a.stop := by
    intro a hain
    refine if_neg fun heq => ?_
    rcases List.mem_append.1 hain with hain | hain
    · have htype := (firstOf_spec (Option.mem_toList.1 hain)).2
      rw [heq, (firstOf_spec h.moov_eq).2] at htype
      exact absurd htype (by decide)
    · have hstays := (List.mem_filter.1 hain).2
      simp [stays, heq, h.moov_eq] at hstays
  obtain ⟨k, rest, hkeep⟩ : ∃ k rest, atoms.filter (stays atoms) = k :: rest := by
    refine List.exists_cons_of_ne_nil fun hnil => ?_
    rw [ha.filter_eq (stays_mdat hmdat)] at hnil
    simp at hnil
  have hfile : assemble data patched (0 + (firstOf "ftyp" atoms).toList.length) 0
      ((firstOf "ftyp" atoms).toList ++ k :: rest) = _ := assemble_eq 0
  rw [Nat.zero_add, ← hkeep, ← h.file] at hfile
  rw [hfile, h.layout_eq, List.flatMap_append, List.flatMap_append,
    List.flatMap_congr fun a hain => (hpiece a (List.mem_append_left _ hain)).symm,
    List.flatMap_congr fun a hain => (hpiece a (List.mem_append_right _ hain)).symm]
  simp [piece]

/-- The bytes of an atom in the new file. -/
theorem Remux.slice_eq (h : Remux data r atoms moov mdat nm patched)
    (ha : Around atoms moov mdat data.length pre post) (hl : layout atoms = l ++ a :: l') :
    slice r (total l) (total l + a.size) = piece data moov patched a := by
  have hsized : Sized data moov patched (l ++ a :: l') :=
    h.sized ha fun b hb => mem_layout (hl ▸ hb)
  have hlen := hsized.length_piece (a := a) (by simp)
  refine List.ext_getElem? fun i => ?_
  rw [getElem?_slice]
  by_cases hi : i < a.size
  · rw [if_pos (by omega), h.file_eq ha, hl, hsized.getElem?_flatMap hi]
  · rw [if_neg (by omega), List.getElem?_eq_none (by omega)]

/-- The bytes of the index in the new file. -/
theorem Remux.slice_moov (h : Remux data r atoms moov mdat nm patched)
    (ha : Around atoms moov mdat data.length pre post) :
    slice r (total (firstOf "ftyp" atoms).toList)
      (total (firstOf "ftyp" atoms).toList + moov.size) = patched := by
  have hlayout : layout atoms =
      (firstOf "ftyp" atoms).toList ++ moov :: atoms.filter (stays atoms) := by
    rw [h.layout_eq, List.append_assoc]
    rfl
  rw [h.slice_eq ha hlayout, piece, if_pos rfl]

end Around

end Faststart
end Client
end Liza
