/-
# The new file is well-formed

The new file is read as the atoms of the old one in the new order exactly when no atom that is
moved to the front says its size as "to the end" (`faststart_wellFormed_iff`): in front of other
atoms it would take them in.
-/

import Liza.Client.FaststartResult

set_option autoImplicit false

namespace Liza
namespace Client
namespace Faststart

open Lib

variable {data r : Buffer} {atoms l l' : List Atom} {a moov mdat : Atom} {patched : Buffer}
  {n : ℕ}

/-! ### The new file, parsed -/

theorem rebase_append (l l' : List Atom) (n : ℕ) :
    rebase n (l ++ l') = rebase n l ++ rebase (n + total l) l' := by
  induction l generalizing n with
  | nil => rfl
  | cons a l ih =>
      rw [List.cons_append, rebase, rebase, ih, total_cons, Nat.add_assoc]
      rfl

/-- A file that is read as a layout is read so from each of its atoms on. -/
theorem topLevelAtoms_of_rebase (h : topLevelAtoms r n = some (rebase n (l ++ l'))) :
    topLevelAtoms r (n + total l) = some (rebase (n + total l) l') := by
  induction l generalizing n with
  | nil => exact h
  | cons a l ih =>
      have hrest := ih (boxAt_of_rebase h).2
      rwa [total_cons, ← Nat.add_assoc]

theorem type_of_mem_rebase (h : a ∈ rebase n l) : ∃ b ∈ l, a.type = b.type := by
  induction l generalizing n with
  | nil => cases h
  | cons b l ih =>
      rcases List.mem_cons.1 h with rfl | h
      · exact ⟨b, List.mem_cons_self, rfl⟩
      · obtain ⟨c, hc, htype⟩ := ih h
        exact ⟨c, List.mem_cons_of_mem _ hc, htype⟩

/-- A file whose index stands behind `ftyp` at most is left as it is. -/
theorem process_eq_none (hfront : ∀ a ∈ l, a.type = fourCC "ftyp")
    (hmoov : moov.type = fourCC "moov")
    (h : topLevelAtoms r 0 = some (rebase 0 (l ++ moov :: l'))) : process r = none := by
  by_contra hsome
  obtain ⟨r', hr'⟩ := Option.ne_none_iff_exists'.1 hsome
  obtain ⟨atoms, moov', mdat, nm, patched, hr⟩ := remux_of_process hr'
  obtain rfl : atoms = rebase 0 (l ++ moov :: l') := Option.some.inj (hr.parse.symm.trans h)
  obtain ⟨hcont, -⟩ := contiguous_of_topLevelAtoms hr.parse
  have hftyp : ∀ a ∈ rebase 0 l, a.type = fourCC "ftyp" := by
    intro a ha
    obtain ⟨b, hb, htype⟩ := type_of_mem_rebase ha
    rw [htype, hfront b hb]
  have hfirst := hr.moov_eq
  obtain ⟨hmem, hmdat⟩ := firstOf_spec hr.mdat_eq
  have hbefore := hr.before
  rw [rebase_append, rebase] at hcont hfirst hmem
  -- The first index is the one behind `ftyp`.
  have hnone : (rebase 0 l).find? (fun a => a.type = fourCC "moov") = none := by
    refine List.find?_eq_none.2 fun a ha => ?_
    rw [hftyp a ha]
    decide
  rw [firstOf, List.find?_append, hnone, Option.none_or,
    List.find?_cons_of_pos (by simpa using hmoov)] at hfirst
  obtain rfl := Option.some.inj hfirst
  obtain ⟨m, -, -, hlt, hrest⟩ := contiguous_append.1 hcont
  rcases List.mem_append.1 hmem with hin | hin
  · rw [hftyp mdat hin] at hmdat
    exact absurd hmdat (by decide)
  · rcases List.mem_cons.1 hin with rfl | hin
    · exact absurd (hmoov.symm.trans hmdat) (by decide)
    · have := hrest.bounds hin
      omega

/-- The new file is well-formed: it has the length of the old one and is read as the atoms of
the old one in the new order, with the same bytes apart from the entries of the tables, and
there is nothing left to do. -/
structure FastStart (data r : Buffer) (atoms : List Atom) : Prop where
  length_eq : r.length = data.length
  parse : topLevelAtoms r 0 = some (rebase 0 (layout atoms))
  bytes : ∀ l a l', layout atoms = l ++ a :: l' → firstOf "moov" atoms ≠ some a →
    slice r (total l) (total l + a.size) = slice data a.start a.stop
  index : ∀ l moov l', layout atoms = l ++ moov :: l' → firstOf "moov" atoms = some moov →
    ∀ i < moov.size, (∀ e ∈ tableOf moov (slice data moov.start moov.stop),
      i < e.1 ∨ e.1 + e.2 ≤ i) → r[total l + i]? = data[moov.start + i]?
  done : process r = none

section Around

variable {nm : ℕ} {pre post : List Atom}

/-- An atom that is moved to the front stands before `mdat` in the new order. -/
theorem Remux.layout_of_moved (h : Remux data r atoms moov mdat nm patched)
    (hstays : stays atoms a = false) :
    ∃ l l', layout atoms = l ++ a :: l' ∧ mdat ∈ l' := by
  have hmdat : mdat ∈ atoms.filter (stays atoms) :=
    List.mem_filter.2 ⟨(firstOf_spec h.mdat_eq).1, stays_mdat (firstOf_spec h.mdat_eq).2⟩
  by_cases hftyp : firstOf "ftyp" atoms = some a
  · refine ⟨[], moov :: atoms.filter (stays atoms), ?_, List.mem_cons_of_mem _ hmdat⟩
    rw [h.layout_eq, hftyp]
    rfl
  · have hmoov : firstOf "moov" atoms = some a := by simpa [stays, hftyp] using hstays
    obtain rfl : moov = a := Option.some.inj (h.moov_eq.symm.trans hmoov)
    refine ⟨(firstOf "ftyp" atoms).toList, atoms.filter (stays atoms), ?_, hmdat⟩
    rw [h.layout_eq, List.append_assoc]
    rfl

/-- The header of an atom is found again where it is laid out. -/
theorem Remux.readBE_header (h : Remux data r atoms moov mdat nm patched)
    (ha : Around atoms moov mdat data.length pre post) (hl : layout atoms = l ++ a :: l') :
    readBE r (total l) 4 = readBE data a.start 4 := by
  have hmem : a ∈ atoms := mem_layout (by simp [hl])
  obtain ⟨-, hread⟩ := contiguous_of_topLevelAtoms h.parse
  obtain ⟨-, -, hhead, hle, -⟩ := boxAt_spec (hread a hmem).box
  simp only at hhead hle
  have hsized : Sized data moov patched (l ++ a :: l') :=
    h.sized ha fun b hb => mem_layout (hl ▸ hb)
  refine readBE_congr fun i hi => ?_
  rw [h.file_eq ha, hl, hsized.getElem?_flatMap (by omega),
    getElem?_piece (h.header_eq ha) (by omega)]

/-- An atom "to the end" that stays is the last one, also in the new order. -/
theorem Remux.last_of_open (h : Remux data r atoms moov mdat nm patched)
    (hl : layout atoms = l ++ a :: l') (hopen : Open data a) (hstays : stays atoms a = true) :
    l' = [] := by
  have hmem : a ∈ atoms := mem_layout (by simp [hl])
  obtain ⟨hcont, hread⟩ := contiguous_of_topLevelAtoms h.parse
  have hb := hcont.bounds hmem
  have hstop := (hread a hmem).stop_of_open hopen hb.2.1 hb.2.2
  obtain ⟨A, B, hAB⟩ := List.append_of_mem hmem
  have hB : B = [] := by
    rw [hAB] at hcont
    obtain ⟨m, -, -, -, hrest⟩ := contiguous_append.1 hcont
    cases B with
    | nil => rfl
    | cons b B =>
        have := hrest.bounds List.mem_cons_self
        omega
  have hnotin : a ∉ A := by
    have hnodup := hcont.nodup
    rw [hAB, List.nodup_append] at hnodup
    exact fun hin => hnodup.2.2 a hin a List.mem_cons_self rfl
  -- In the new order `a` is the last one too, and it stands there only once.
  have hlast : layout atoms =
      ((firstOf "ftyp" atoms).toList ++ [moov] ++ A.filter (stays atoms)) ++ [a] := by
    have hfilter : (A ++ [a]).filter (stays atoms) = A.filter (stays atoms) ++ [a] := by
      rw [List.filter_append, List.filter_cons_of_pos hstays, List.filter_nil]
    rw [h.layout_eq, List.append_assoc _ _ [a], ← hfilter, ← hB, ← hAB]
  by_contra hne
  obtain ⟨l'', b, rfl⟩ := List.eq_nil_or_concat' l' |>.resolve_left hne
  rw [hl, show l ++ a :: (l'' ++ [b]) = (l ++ a :: l'') ++ [b] by simp] at hlast
  have hin : a ∈ (firstOf "ftyp" atoms).toList ++ [moov] ++ A.filter (stays atoms) := by
    rw [← (List.append_inj_left' hlast rfl)]
    simp
  simp [stays] at hstays
  rcases List.mem_append.1 hin with hin | hin
  · rcases List.mem_append.1 hin with hin | hin
    · exact hstays.1 (Option.mem_toList.1 hin)
    · exact hstays.2 (List.mem_singleton.1 hin ▸ h.moov_eq)
  · exact hnotin (List.mem_filter.1 hin).1

/-- **The new file is read as the new order, when no atom that is moved is one "to the end".** -/
theorem Remux.parse_layout (h : Remux data r atoms moov mdat nm patched)
    (ha : Around atoms moov mdat data.length pre post)
    (hmoved : ∀ a ∈ atoms, stays atoms a = false → ¬Open data a) :
    topLevelAtoms r 0 = some (rebase 0 (layout atoms)) := by
  obtain ⟨-, hread⟩ := contiguous_of_topLevelAtoms h.parse
  have hsized : Sized data moov patched (layout atoms) := h.sized ha fun b hb => mem_layout hb
  rw [h.file_eq ha]
  refine topLevelAtoms_relaid hsized (fun a hain => hread a (mem_layout hain)) (h.header_eq ha)
    (fun l a l' hl hopen => ?_) [] (layout atoms) rfl
  refine h.last_of_open hl hopen ?_
  by_contra hstays
  exact hmoved a (mem_layout (by simp [hl])) (by simpa using hstays) hopen

/-- **An atom "to the end" that is moved to the front is read as longer than it is.** -/
theorem Remux.not_open_of_parse (h : Remux data r atoms moov mdat nm patched)
    (ha : Around atoms moov mdat data.length pre post)
    (hparse : topLevelAtoms r 0 = some (rebase 0 (layout atoms)))
    (hstays : stays atoms a = false) : ¬Open data a := by
  intro hopen
  obtain ⟨hcont, -⟩ := contiguous_of_topLevelAtoms h.parse
  obtain ⟨l, l', hl, hmdat⟩ := h.layout_of_moved hstays
  have hread := h.readBE_header ha hl
  rw [show readBE data a.start 4 = some 0 from hopen] at hread
  rw [hl] at hparse
  have hbox := (boxAt_of_rebase (topLevelAtoms_of_rebase hparse)).1
  obtain ⟨hsize, -⟩ := boxAt_spec hbox
  rw [Nat.zero_add, sizeAt, hread] at hsize
  have hend := (Prod.mk.inj (Option.some.inj hsize)).1
  -- The sizes add up to the length, so nothing would be left for `mdat`.
  have hlength : total l + (a.size + total l') = r.length := by
    have hsized : Sized data moov patched (layout atoms) := h.sized ha fun b hb => mem_layout hb
    rw [h.file_eq ha, hsized.length_flatMap, hl, total_append, total_cons]
  have hpos : 0 < total l' := by
    obtain ⟨A, B, rfl⟩ := List.append_of_mem hmdat
    have := hcont.bounds (firstOf_spec h.mdat_eq).1
    rw [total_append, total_cons, Atom.size]
    omega
  simp only at hend
  omega

end Around

/-- No atom that is moved to the front, the index or `ftyp`, has a size field of 0. -/
def MovedClosed (data : Buffer) : Prop :=
  ∀ atoms, topLevelAtoms data 0 = some atoms → ∀ a ∈ atoms, stays atoms a = false → ¬Open data a

/-- **The new file is well-formed exactly when no atom that is moved says its size as "to the
end".** -/
theorem faststart_wellFormed_iff (h : process data = some r) :
    (∃ atoms, topLevelAtoms data 0 = some atoms ∧ FastStart data r atoms) ↔ MovedClosed data := by
  obtain ⟨atoms, moov, mdat, nm, patched, hr⟩ := remux_of_process h
  obtain ⟨pre, post, ha⟩ := hr.around
  constructor
  · rintro ⟨atoms', hparse', hfast⟩ atoms'' hparse'' a hain hstays
    obtain rfl : atoms = atoms' := Option.some.inj (hr.parse.symm.trans hparse')
    obtain rfl : atoms = atoms'' := Option.some.inj (hr.parse.symm.trans hparse'')
    exact hr.not_open_of_parse ha hfast.parse hstays
  · intro hclosed
    have hparse := hr.parse_layout ha (hclosed atoms hr.parse)
    refine ⟨atoms, hr.parse, hr.length_eq, hparse, fun l a l' hl hne => ?_,
      fun l moov' l' hl hmoov i hi hout => ?_, ?_⟩
    · rw [hr.slice_eq ha hl, piece, if_neg]
      rintro rfl
      exact hne hr.moov_eq
    · obtain rfl : moov = moov' := Option.some.inj (hr.moov_eq.symm.trans hmoov)
      have hsized : Sized data moov patched (l ++ moov :: l') :=
        hr.sized ha fun b hb => mem_layout (hl ▸ hb)
      rw [hr.file_eq ha, hl, hsized.getElem?_flatMap hi, piece, if_pos rfl,
        (hr.patched_spec ha).1.outside i hout, getElem?_slice, if_pos (by rw [Atom.size] at hi; omega)]
    · rw [hr.layout_eq, List.append_assoc] at hparse
      exact process_eq_none (fun a hain => (firstOf_spec (Option.mem_toList.1 hain)).2)
        (firstOf_spec hr.moov_eq).2 hparse

/-- A file whose index is the last atom. -/
def plainFile : Buffer :=
  [0, 0, 0, 8] ++ fourCC "ftyp" ++ [0, 0, 0, 9] ++ fourCC "mdat" ++ [7] ++
    [0, 0, 0, 8] ++ fourCC "moov"

theorem faststart_of_plainFile : ∃ atoms,
    topLevelAtoms plainFile 0 = some atoms ∧ FastStart plainFile
      ([0, 0, 0, 8] ++ fourCC "ftyp" ++ [0, 0, 0, 8] ++ fourCC "moov" ++
        [0, 0, 0, 9] ++ fourCC "mdat" ++ [7]) atoms := by
  refine (faststart_wellFormed_iff (by decide +kernel)).2 fun atoms hparse a ha _ => ?_
  have hatoms : topLevelAtoms plainFile 0 = some [⟨fourCC "ftyp", 0, 8, 8⟩,
      ⟨fourCC "mdat", 8, 17, 8⟩, ⟨fourCC "moov", 17, 25, 8⟩] := by decide +kernel
  obtain rfl := Option.some.inj (hatoms.symm.trans hparse)
  have hall : ∀ a ∈ [(⟨fourCC "ftyp", 0, 8, 8⟩ : Atom), ⟨fourCC "mdat", 8, 17, 8⟩,
      ⟨fourCC "moov", 17, 25, 8⟩], readBE plainFile a.start 4 ≠ some 0 := by decide
  exact hall a ha

/-- The same file, with an index "to the end". -/
def openFile : Buffer :=
  [0, 0, 0, 8] ++ fourCC "ftyp" ++ [0, 0, 0, 9] ++ fourCC "mdat" ++ [7] ++
    [0, 0, 0, 0] ++ fourCC "moov"

/-- In the new file the index takes in the data, and no `mdat` is left. -/
theorem openFile_swallowed : ∃ r, process openFile = some r ∧
    topLevelAtoms r 0 = some [⟨fourCC "ftyp", 0, 8, 8⟩, ⟨fourCC "moov", 8, 25, 8⟩] ∧
      ¬∃ atoms, topLevelAtoms openFile 0 = some atoms ∧ FastStart openFile r atoms := by
  have hr : process openFile = some ([0, 0, 0, 8] ++ fourCC "ftyp" ++ [0, 0, 0, 0] ++
      fourCC "moov" ++ [0, 0, 0, 9] ++ fourCC "mdat" ++ [7]) := by decide +kernel
  have hparse : topLevelAtoms ([0, 0, 0, 8] ++ fourCC "ftyp" ++ [0, 0, 0, 0] ++
      fourCC "moov" ++ [0, 0, 0, 9] ++ fourCC "mdat" ++ [7]) 0 =
        some [⟨fourCC "ftyp", 0, 8, 8⟩, ⟨fourCC "moov", 8, 25, 8⟩] := by decide +kernel
  refine ⟨_, hr, hparse, ?_⟩
  rintro ⟨atoms, hatoms, hfast⟩
  have hold : topLevelAtoms openFile 0 = some [⟨fourCC "ftyp", 0, 8, 8⟩,
      ⟨fourCC "mdat", 8, 17, 8⟩, ⟨fourCC "moov", 17, 25, 8⟩] := by decide +kernel
  obtain rfl := Option.some.inj (hold.symm.trans hatoms)
  have hnew := hfast.parse
  rw [hparse] at hnew
  exact absurd hnew (by decide)

end Faststart
end Client
end Liza
