/-
# The pointers of the new file

`process` puts one distance into all chunk offsets, the one `mdat` is moved by.  Atoms between
`mdat` and the old place of `moov` are moved by the same distance; `moov` itself, the atoms
behind it, and, when `ftyp` stands behind `mdat`, `ftyp` and the atoms behind it are not.  So
the pointers are kept exactly when none of them points there (`pointers_kept_iff`).
-/

import Liza.Client.FaststartResult

set_option autoImplicit false

namespace Liza
namespace Client
namespace Faststart

open Lib

variable {data r : Buffer} {atoms l l' : List Atom} {a moov mdat : Atom} {patched : Buffer}
  {n v v' : ℕ}

/-! ### Where the bytes behind `mdat` go -/

section Around

variable {nm : ℕ} {pre post : List Atom}

/-- The byte at `v` lies before every atom that is taken from behind `mdat`. -/
def BeforeMoved (atoms : List Atom) (mdat : Atom) (v : ℕ) : Prop :=
  ∀ a ∈ atoms, stays atoms a = false → mdat.start < a.start → v < a.start

/-- The atoms from `mdat` on, cut at the first one that is moved to the front. -/
structure Cut (atoms : List Atom) (mdat : Atom) (e : ℕ) (pre kept : List Atom) (x : Atom)
    (rest : List Atom) : Prop where
  atoms_eq : atoms = pre ++ (kept ++ x :: rest)
  kept_stays : ∀ a ∈ kept, stays atoms a = true
  moved : stays atoms x = false
  contiguous_pre : Contiguous 0 pre mdat.start
  contiguous_kept : Contiguous mdat.start kept x.start
  mdat_lt : mdat.start < x.start
  start_lt : x.start < x.stop
  contiguous_rest : Contiguous x.stop rest e

theorem Around.cut (h : Around atoms moov mdat n pre post) (hmdat : mdat.type = fourCC "mdat")
    (hmoov : stays atoms moov = false) :
    ∃ kept x rest, mdat :: post = kept ++ x :: rest ∧ Cut atoms mdat n pre kept x rest := by
  obtain ⟨kept, x, rest, hsplit, hkept, hx⟩ :=
    split_first (l := mdat :: post) ⟨moov, List.mem_cons_of_mem _ h.moov_mem, hmoov⟩
  have hcont := h.contiguous_mdat
  rw [hsplit] at hcont
  obtain ⟨m, hcont₁, rfl, hlt, hcont₂⟩ := contiguous_append.1 hcont
  have hstart : mdat.start < x.start := by
    -- `mdat` itself stays, so it is the first of the atoms before `x`.
    cases kept with
    | nil =>
        rw [(List.cons.inj hsplit).1.symm, stays_mdat hmdat] at hx
        cases hx
    | cons c kept =>
        obtain rfl := (List.cons.inj hsplit).1
        have := hcont₁.bounds List.mem_cons_self
        omega
  exact ⟨kept, x, rest, hsplit, hsplit ▸ h.atoms_eq, hkept, hx, h.contiguous_pre, hcont₁, hstart,
    hlt, hcont₂⟩

section Cut

variable {e : ℕ} {x : Atom} {kept rest : List Atom}

/-- An atom that is moved stands before `mdat`, or is `x` or behind it. -/
theorem Cut.behind (h : Cut atoms mdat e pre kept x rest) (ha : a ∈ atoms)
    (hstays : stays atoms a = false) : a.stop ≤ mdat.start ∨ x.start ≤ a.start := by
  rw [h.atoms_eq] at ha
  rcases List.mem_append.1 ha with hin | hin
  · exact .inl (h.contiguous_pre.bounds hin).2.2
  · rcases List.mem_append.1 hin with hin | hin
    · rw [h.kept_stays a hin] at hstays
      cases hstays
    · rcases List.mem_cons.1 hin with rfl | hin
      · exact .inr le_rfl
      · have := h.contiguous_rest.bounds hin
        have := h.start_lt
        exact .inr (by omega)

theorem Cut.beforeMoved_iff (h : Cut atoms mdat e pre kept x rest) :
    BeforeMoved atoms mdat v ↔ v < x.start := by
  constructor
  · intro hall
    have hx : x ∈ atoms := by rw [h.atoms_eq]; simp
    exact hall x hx h.moved h.mdat_lt
  · intro hvx a ha hstays hafter
    rcases h.behind ha hstays with hle | hle
    · have hpos : 0 ≤ a.start ∧ a.start < a.stop ∧ a.stop ≤ e := by
        refine Contiguous.bounds (s := 0) (l := atoms) ?_ ha
        rw [h.atoms_eq]
        exact contiguous_append.2 ⟨_, h.contiguous_pre, contiguous_append.2
          ⟨_, h.contiguous_kept, rfl, h.start_lt, h.contiguous_rest⟩⟩
      omega
    · omega

/-- Bytes from `mdat` on are not in the atoms before it. -/
theorem Cut.relocate_pre (h : Cut atoms mdat e pre kept x rest) (hv : mdat.start ≤ v)
    (keep : Atom → Bool) (n : ℕ) : relocate (pre.filter keep) n v = none := by
  refine relocate_eq_none fun a ha => ?_
  have := h.contiguous_pre.bounds (List.mem_filter.1 ha).1
  omega

/-- What stays where it is, from `mdat` up to `x`, moves by the distance of `mdat`. -/
theorem Cut.relocate_kept (h : Cut atoms mdat e pre kept x rest) (hv : mdat.start ≤ v)
    (hvx : v < x.start) {front tail : List Atom} (keep : Atom → Bool)
    (hfront : ∀ a ∈ front, a ∈ atoms ∧ stays atoms a = false) :
    relocate (front ++ (pre.filter keep ++ (kept ++ tail))) 0 v =
      some (total front + total (pre.filter keep) + (v - mdat.start)) := by
  have hnone : relocate front 0 v = none := by
    refine relocate_eq_none fun a ha => ?_
    rcases h.behind (hfront a ha).1 (hfront a ha).2 with hle | hle
    · omega
    · omega
  rw [relocate_append front, relocate_append (pre.filter keep), relocate_append kept, hnone,
    h.relocate_pre hv, h.contiguous_kept.relocate hv hvx, Option.none_or, Option.none_or,
    Option.some_or, Nat.zero_add]

/-- What is moved to the front, and what lies behind `x`, moves by less. -/
theorem Cut.relocate_behind (h : Cut atoms mdat e pre kept x rest) (hvx : x.start ≤ v)
    {front : List Atom} (keep : Atom → Bool)
    (hv : relocate (front ++ (pre.filter keep ++ (kept ++ rest.filter keep))) 0 v = some v') :
    v' + mdat.start < total front + total (pre.filter keep) + v := by
  have hmdat := h.mdat_lt
  have hlt := h.start_lt
  have htotal := h.contiguous_kept.total_eq
  have hkept : ∀ n, relocate kept n v = none := fun n => relocate_eq_none fun a ha => by
    have := h.contiguous_kept.bounds ha
    omega
  rw [relocate_append front, relocate_append (pre.filter keep), relocate_append kept, hkept,
    h.relocate_pre (by omega), Option.none_or, Option.none_or] at hv
  rcases Option.or_eq_some_iff.1 hv with hv | ⟨-, hv⟩
  · have := relocate_lt hv
    omega
  · have := h.contiguous_rest.relocate_filter_le hv
    omega

end Cut

theorem Remux.stays_moov (h : Remux data r atoms moov mdat nm patched) :
    stays atoms moov = false := by
  simp [stays, h.moov_eq]

/-- **The atoms from `mdat` on are moved by one distance, up to the first that is moved to
the front; what lies behind it is moved by less.** -/
theorem Remux.relocate_iff (h : Remux data r atoms moov mdat nm patched)
    (ha : Around atoms moov mdat data.length pre post) (hv : mdat.start ≤ v) :
    relocate (layout atoms) 0 v = some (v + (nm - mdat.start)) ↔ BeforeMoved atoms mdat v := by
  have hmdat := (firstOf_spec h.mdat_eq).2
  obtain ⟨kept, x, rest, hsplit, hcut⟩ := ha.cut hmdat h.stays_moov
  have hlayout : layout atoms = ((firstOf "ftyp" atoms).toList ++ [moov]) ++
      (pre.filter (stays atoms) ++ (kept ++ rest.filter (stays atoms))) := by
    have hpost : (mdat :: post).filter (stays atoms) = kept ++ rest.filter (stays atoms) := by
      rw [hsplit, List.filter_append, List.filter_eq_self.2 hcut.kept_stays,
        List.filter_cons_of_neg (by simp [hcut.moved])]
    rw [h.layout_eq, ha.filter_eq (stays_mdat hmdat),
      ← List.filter_cons_of_pos (stays_mdat hmdat), hpost]
  have hmoved := h.moved ha
  have hnm : total ((firstOf "ftyp" atoms).toList ++ [moov]) + total (pre.filter (stays atoms)) =
      nm := by
    rw [h.nm_eq ha, total_append, total_cons, total_nil]
    omega
  rw [hcut.beforeMoved_iff, hlayout]
  by_cases hvx : v < x.start
  · refine iff_of_true ?_ hvx
    rw [hcut.relocate_kept hv hvx, hnm]
    · congr 1
      omega
    · intro a hain
      rcases List.mem_append.1 hain with hain | hain
      · have hf := Option.mem_toList.1 hain
        exact ⟨(firstOf_spec hf).1, by simp [stays, Option.mem_def.1 hf]⟩
      · obtain rfl := List.mem_singleton.1 hain
        exact ⟨(firstOf_spec h.moov_eq).1, h.stays_moov⟩
  · refine iff_of_false (fun heq => ?_) hvx
    have := hcut.relocate_behind (by omega) (stays atoms) heq
    omega

/-! ### The pointers -/

theorem Remux.mdat_lt_moov (ha : Around atoms moov mdat n pre post) : mdat.start < moov.start := by
  obtain ⟨-, hlt, hrest⟩ := ha.contiguous_mdat
  have := hrest.bounds ha.moov_mem
  omega

/-- A byte before the atoms that are moved is found again. -/
theorem Remux.byte_eq (h : Remux data r atoms moov mdat nm patched)
    (ha : Around atoms moov mdat data.length pre post) (hv : mdat.start ≤ v)
    (hbefore : BeforeMoved atoms mdat v) : r[v + (nm - mdat.start)]? = data[v]? := by
  have hto := (h.relocate_iff ha hv).2 hbefore
  have hmoov := hbefore moov (firstOf_spec h.moov_eq).1 h.stays_moov (Remux.mdat_lt_moov ha)
  have hsized : Sized data moov patched (layout atoms) := h.sized ha fun b hb => mem_layout hb
  have hout : ∀ a ∈ layout atoms, a ≠ moov ∨ v < a.start ∨ a.stop ≤ v := by
    intro a hain
    by_cases heq : a = moov
    · exact .inr (.inl (heq ▸ hmoov))
    · exact .inl heq
  obtain ⟨-, hbyte⟩ := hsized.getElem?_relocate hout hto
  rw [← h.file_eq ha] at hbyte
  exact hbyte

end Around

/-- The pointers of the tables of `moov` are kept: the new tables have the same entries, one
distance `d` is added to each of them without a carry out of its field, and an entry that points
to a byte of the file points to the place that the atom with the byte has been laid out at. -/
def KeepsPointers (data r : Buffer) : Prop :=
  ∃ atoms moov, topLevelAtoms data 0 = some atoms ∧ firstOf "moov" atoms = some moov ∧
    let old := slice data moov.start moov.stop
    let new := slice r (total (firstOf "ftyp" atoms).toList)
      (total (firstOf "ftyp" atoms).toList + moov.size)
    tableOf moov new = tableOf moov old ∧
      ∃ d : ℕ, ∀ e ∈ tableOf moov old, ∃ v, readBE old e.1 e.2 = some v ∧
        readBE new e.1 e.2 = some (v + d) ∧
        (v < data.length →
          relocate (layout atoms) 0 v = some (v + d) ∧ r[v + d]? = data[v]?)

/-- No entry points to the index, to a `ftyp` behind `mdat`, or to an atom behind them. -/
def PointsBeforeMoved (data : Buffer) : Prop :=
  ∀ atoms moov mdat, topLevelAtoms data 0 = some atoms → firstOf "moov" atoms = some moov →
    firstOf "mdat" atoms = some mdat →
    ∀ e ∈ tableOf moov (slice data moov.start moov.stop), ∀ v,
      readBE (slice data moov.start moov.stop) e.1 e.2 = some v → v < data.length →
      BeforeMoved atoms mdat v

/-- **The pointers are kept exactly when none of them points behind an atom that is taken
away.** -/
theorem pointers_kept_iff (h : process data = some r) :
    KeepsPointers data r ↔ PointsBeforeMoved data := by
  obtain ⟨atoms, moov, mdat, nm, patched, hr⟩ := remux_of_process h
  obtain ⟨pre, post, ha⟩ := hr.around
  obtain ⟨hpatched, hentries⟩ := hr.patched_spec ha
  have hmoved := hr.moved ha
  have hvalue : ∀ e ∈ tableOf moov (slice data moov.start moov.stop), ∃ v,
      readBE (slice data moov.start moov.stop) e.1 e.2 = some v ∧ mdat.start ≤ v ∧
      readBE patched e.1 e.2 = some (v + (nm - mdat.start)) := by
    intro e he
    obtain ⟨v, hv, hmin, -, -, hv'⟩ := hpatched.value e he
    refine ⟨v, hv, hmin, ?_⟩
    rw [hv']
    congr 1
    omega
  constructor
  · rintro ⟨atoms', moov', hparse, hmoov, -, d, hd⟩ atoms'' moov'' mdat' hparse' hmoov' hmdat' e he v
      hv hlt
    obtain rfl : atoms = atoms' := Option.some.inj (hr.parse.symm.trans hparse)
    obtain rfl : atoms = atoms'' := Option.some.inj (hr.parse.symm.trans hparse')
    obtain rfl : moov = moov' := Option.some.inj (hr.moov_eq.symm.trans hmoov)
    obtain rfl : moov = moov'' := Option.some.inj (hr.moov_eq.symm.trans hmoov')
    obtain rfl : mdat = mdat' := Option.some.inj (hr.mdat_eq.symm.trans hmdat')
    obtain ⟨u, hu, hnew, hto⟩ := hd e he
    obtain ⟨w, hw, hmin, hw'⟩ := hvalue e he
    obtain rfl : v = u := Option.some.inj (hv.symm.trans hu)
    obtain rfl : v = w := Option.some.inj (hv.symm.trans hw)
    rw [hr.slice_moov ha, hw'] at hnew
    have hdist : v + (nm - mdat.start) = v + d := Option.some.inj hnew
    rw [← hr.relocate_iff ha hmin, hdist]
    exact (hto hlt).1
  · intro hbefore
    refine ⟨atoms, moov, hr.parse, hr.moov_eq, ?_⟩
    simp only [hr.slice_moov ha]
    refine ⟨hentries, nm - mdat.start, fun e he => ?_⟩
    obtain ⟨v, hv, hmin, hv'⟩ := hvalue e he
    refine ⟨v, hv, hv', fun hlt => ?_⟩
    have hb := hbefore atoms moov mdat hr.parse hr.moov_eq hr.mdat_eq e he v hv hlt
    exact ⟨(hr.relocate_iff ha hmin).2 hb, hr.byte_eq ha hmin hb⟩

/-- A file with data before its index, at 16, and behind it, at 53: `offset` is the one entry
of its table. -/
def fileWithTail (offset : UInt8) : Buffer :=
  [0, 0, 0, 8] ++ fourCC "ftyp" ++ [0, 0, 0, 9] ++ fourCC "mdat" ++ [7] ++
    ([0, 0, 0, 28] ++ fourCC "moov" ++ [0, 0, 0, 20] ++ fourCC "stco" ++
      [0, 0, 0, 0, 0, 0, 0, 1, 0, 0, 0, offset]) ++
    [0, 0, 0, 9] ++ fourCC "free" ++ [9]

/-- The file that `process` makes of it. -/
def fastFileWithTail (offset : UInt8) : Buffer :=
  [0, 0, 0, 8] ++ fourCC "ftyp" ++
    ([0, 0, 0, 28] ++ fourCC "moov" ++ [0, 0, 0, 20] ++ fourCC "stco" ++
      [0, 0, 0, 0, 0, 0, 0, 1, 0, 0, 0, offset]) ++
    [0, 0, 0, 9] ++ fourCC "mdat" ++ [7] ++ [0, 0, 0, 9] ++ fourCC "free" ++ [9]

/-- The atoms of the file. -/
def tailAtoms : List Atom :=
  [⟨fourCC "ftyp", 0, 8, 8⟩, ⟨fourCC "mdat", 8, 17, 8⟩, ⟨fourCC "moov", 17, 45, 8⟩,
    ⟨fourCC "free", 45, 54, 8⟩]

theorem pointers_kept_into_mdat : KeepsPointers (fileWithTail 16) (fastFileWithTail 44) := by
  refine (pointers_kept_iff (by decide +kernel)).2 ?_
  intro atoms moov mdat hparse hmoov hmdat e he v hv _
  have hatoms : topLevelAtoms (fileWithTail 16) 0 = some tailAtoms := by decide +kernel
  obtain rfl := Option.some.inj (hatoms.symm.trans hparse)
  have hmoov' : firstOf "moov" tailAtoms = some ⟨fourCC "moov", 17, 45, 8⟩ := by decide +kernel
  have hmdat' : firstOf "mdat" tailAtoms = some ⟨fourCC "mdat", 8, 17, 8⟩ := by decide +kernel
  obtain rfl := Option.some.inj (hmoov'.symm.trans hmoov)
  obtain rfl := Option.some.inj (hmdat'.symm.trans hmdat)
  have htable : tableOf ⟨fourCC "moov", 17, 45, 8⟩ (slice (fileWithTail 16) 17 45) = [(24, 4)] := by
    decide +kernel
  rw [htable] at he
  obtain rfl := List.mem_singleton.1 he
  have hread : readBE (slice (fileWithTail 16) 17 45) 24 4 = some 16 := by decide +kernel
  obtain rfl := Option.some.inj (hread.symm.trans hv)
  have hall : ∀ a ∈ tailAtoms, stays tailAtoms a = false → 8 < a.start → 16 < a.start := by
    decide +kernel
  exact hall

/-- The data behind the index is not moved, but the entry that points to it is changed. -/
theorem pointer_lost_behind_moov : process (fileWithTail 53) = some (fastFileWithTail 81) ∧
    ¬KeepsPointers (fileWithTail 53) (fastFileWithTail 81) := by
  refine ⟨by decide +kernel, ?_⟩
  rintro ⟨atoms, moov, hparse, hmoov, -, d, hd⟩
  have hatoms : topLevelAtoms (fileWithTail 53) 0 = some tailAtoms := by decide +kernel
  obtain rfl := Option.some.inj (hatoms.symm.trans hparse)
  have hmoov' : firstOf "moov" tailAtoms = some ⟨fourCC "moov", 17, 45, 8⟩ := by decide +kernel
  obtain rfl := Option.some.inj (hmoov'.symm.trans hmoov)
  obtain ⟨v, hv, hv', hto⟩ := hd (24, 4) (by decide +kernel)
  have hread : readBE (slice (fileWithTail 53) 17 45) 24 4 = some 53 := by decide +kernel
  obtain rfl := Option.some.inj (hread.symm.trans hv)
  have hplace : relocate (layout tailAtoms) 0 53 = some 53 := by decide +kernel
  have hnew := (hto (by decide +kernel)).1
  rw [hplace] at hnew
  obtain rfl : d = 0 := by
    have := Option.some.inj hnew
    omega
  exact absurd hv' (by decide +kernel)

end Faststart
end Client
end Liza
