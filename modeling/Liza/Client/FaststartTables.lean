/-
# What patching the tables changes

The entries of the tables of an index are found by the walk over its boxes (`entries`).  When
`walk` succeeds it has added the distance to each entry, as it is stored, and changed nothing
else (`walk_spec`): the entries of a box lie behind its header, so what the walk reads later it
has not changed, and the walk over the new index finds the same entries.
-/

import Liza.Client.Faststart

set_option autoImplicit false

namespace Liza
namespace Client
namespace Faststart

open Lib

/-! ### Buffers that agree in a range -/

/-- Two buffers have the same bytes from `off` up to `stop`. -/
def AgreeOn (b b' : Buffer) (off stop : ℕ) : Prop := ∀ i, off ≤ i → i < stop → b[i]? = b'[i]?

variable {b b' d box box' box₁ : Buffer} {off stop mid p w : ℕ}

theorem AgreeOn.mono {off' stop' : ℕ} (h : AgreeOn b b' off stop) (ho : off ≤ off')
    (hs : stop' ≤ stop) : AgreeOn b b' off' stop' := fun i hi hi' => h i (by omega) (by omega)

theorem getElem?_slice (b : Buffer) (off stop i : ℕ) :
    (slice b off stop)[i]? = if off + i < stop then b[off + i]? else none := by
  rw [slice, List.getElem?_drop, List.getElem?_take]

theorem slice_congr (h : AgreeOn b b' off stop) : slice b off stop = slice b' off stop := by
  refine List.ext_getElem? fun i => ?_
  rw [getElem?_slice, getElem?_slice]
  split
  · rename_i hi
    exact h _ (by omega) hi
  · rfl

theorem readBE_agree (h : AgreeOn b b' off stop) (hp : off ≤ p) (hw : p + w ≤ stop) :
    readBE b p w = readBE b' p w :=
  readBE_congr fun i hi => h _ (by omega) (by omega)

/-- A box is read from its header. -/
theorem boxAt_congr (h : AgreeOn b b' off (min (off + 16) stop)) (h8 : off + 8 ≤ stop) :
    boxAt b off stop = boxAt b' off stop := by
  have hsize : readBE b off 4 = readBE b' off 4 := readBE_agree h le_rfl (by omega)
  have htype : typeAt b off = typeAt b' off := slice_congr (h.mono (by omega) (by omega))
  have hsizes : sizeAt b off stop = sizeAt b' off stop := by
    unfold sizeAt
    rw [hsize]
    congr 1
    funext size
    by_cases h16 : off + 16 > stop
    · simp [h16]
    · rw [readBE_agree h (by omega) (by omega)]
  unfold boxAt
  rw [hsizes, htype]

/-! ### The entries -/

/-- The place and the width of each of `count` entries from `p` on. -/
def positions (w p : ℕ) : ℕ → List (ℕ × ℕ)
  | 0 => []
  | count + 1 => (p, w) :: positions w (p + w) count

/-- The entries of a table.  A body that is too short for the number of entries has none. -/
def tableEntries (w : ℕ) (box : Buffer) (bodyStart stop : ℕ) : List (ℕ × ℕ) :=
  if bodyStart + 8 ≤ stop then
    positions w (bodyStart + 8) ((readBE box (bodyStart + 4) 4).getD 0)
  else []

/-- The entries of the tables of an index, in its boxes from `off` up to `stop`. -/
def entries (box : Buffer) (off stop : ℕ) : List (ℕ × ℕ) :=
  if off + 8 ≤ stop then
    match _hbox : boxAt box off stop with
    | none => []
    | some b =>
        (if b.type = fourCC "stco" then
            tableEntries 4 box (off + b.headerSize) (off + b.size)
          else if b.type = fourCC "co64" then
            tableEntries 8 box (off + b.headerSize) (off + b.size)
          else if b.type ∈ containers then entries box (off + b.headerSize) (off + b.size)
          else []) ++ entries box (off + b.size) stop
  else []
termination_by stop - off
decreasing_by
  all_goals
    have := boxAt_spec _hbox
    omega

/-- The entries of the first box. -/
def firstEntries (box : Buffer) (off : ℕ) (x : Box) : List (ℕ × ℕ) :=
  if x.type = fourCC "stco" then tableEntries 4 box (off + x.headerSize) (off + x.size)
  else if x.type = fourCC "co64" then tableEntries 8 box (off + x.headerSize) (off + x.size)
  else if x.type ∈ containers then entries box (off + x.headerSize) (off + x.size)
  else []

/-- The first box, and the rest. -/
theorem entries_of_box {x : Box} (h8 : off + 8 ≤ stop) (hbox : boxAt box off stop = some x) :
    entries box off stop = firstEntries box off x ++ entries box (off + x.size) stop := by
  rw [entries, if_pos h8]
  split
  · rename_i hnone
    rw [hbox] at hnone
    cases hnone
  · rename_i y hy
    rw [hbox] at hy
    obtain rfl := Option.some.inj hy
    rfl

theorem entries_of_none (hbox : boxAt box off stop = none) : entries box off stop = [] := by
  rw [entries]
  split
  · split
    · rfl
    · rename_i y hy
      rw [hbox] at hy
      cases hy
  · rfl

theorem tableEntries_congr (h : p + 8 ≤ stop → AgreeOn b b' (p + 4) (p + 8)) :
    tableEntries w b p stop = tableEntries w b' p stop := by
  unfold tableEntries
  by_cases hp : p + 8 ≤ stop
  · rw [readBE_agree (h hp) le_rfl le_rfl]
  · rw [if_neg hp, if_neg hp]

/-- Only the bytes of the range matter. -/
theorem entries_congr (h : AgreeOn b b' off stop) : entries b off stop = entries b' off stop := by
  induction hn : stop - off using Nat.strong_induction_on generalizing off stop with
  | h n ih =>
    by_cases h8 : off + 8 ≤ stop
    · have hbox := boxAt_congr (h.mono le_rfl (min_le_right _ _)) h8
      cases hb : boxAt b off stop with
      | none => rw [entries_of_none hb, entries_of_none (hbox ▸ hb)]
      | some x =>
          obtain ⟨-, -, hhead, hle, hstop⟩ := boxAt_spec hb
          have htable : ∀ w, tableEntries w b (off + x.headerSize) (off + x.size) =
              tableEntries w b' (off + x.headerSize) (off + x.size) := fun w =>
            tableEntries_congr fun hp => h.mono (by omega) (by omega)
          have hbody : entries b (off + x.headerSize) (off + x.size) =
              entries b' (off + x.headerSize) (off + x.size) :=
            ih _ (by omega) (h.mono (by omega) (by omega)) rfl
          have hrest : entries b (off + x.size) stop = entries b' (off + x.size) stop :=
            ih _ (by omega) (h.mono (by omega) le_rfl) rfl
          rw [entries_of_box h8 hb, entries_of_box h8 (hbox ▸ hb), firstEntries, firstEntries, htable,
            htable, hbody, hrest]
    · rw [entries, entries, if_neg h8, if_neg h8]

/-! ### Patching -/

variable {delta : ℤ} {minValidOffset : ℕ} {fileLimit : ℤ} {es es' : List (ℕ × ℕ)}

/-- The distance is added to the entries `es`, all of which lie between `off` and `stop`, and
nothing else is changed. -/
structure Patched (delta : ℤ) (minValidOffset : ℕ) (fileLimit : ℤ) (off stop : ℕ)
    (es : List (ℕ × ℕ)) (box box' : Buffer) : Prop where
  length_eq : box'.length = box.length
  inside : ∀ e ∈ es, off ≤ e.1 ∧ e.1 + e.2 ≤ stop
  outside : ∀ i, (∀ e ∈ es, i < e.1 ∨ e.1 + e.2 ≤ i) → box'[i]? = box[i]?
  value : ∀ e ∈ es, ∃ v : ℕ, readBE box e.1 e.2 = some v ∧ minValidOffset ≤ v ∧
    0 ≤ v + delta ∧ v + delta ≤ fileLimit ∧ readBE box' e.1 e.2 = some (v + delta).toNat

theorem Patched.refl (off stop : ℕ) (box : Buffer) :
    Patched delta minValidOffset fileLimit off stop [] box box :=
  ⟨rfl, fun _ he => absurd he List.not_mem_nil, fun _ _ => rfl,
    fun _ he => absurd he List.not_mem_nil⟩

/-- Nothing outside the range is changed. -/
theorem Patched.agree (h : Patched delta minValidOffset fileLimit off stop es box box') {i : ℕ}
    (hi : i < off ∨ stop ≤ i) : box'[i]? = box[i]? :=
  h.outside i fun e he => by have := h.inside e he; omega

/-- Two ranges, one after the other. -/
theorem Patched.append {next : ℕ} (h : Patched delta minValidOffset fileLimit off mid es box box₁)
    (h' : Patched delta minValidOffset fileLimit next stop es' box₁ box') (ho : off ≤ next)
    (hm : mid ≤ next) (hs : mid ≤ stop) :
    Patched delta minValidOffset fileLimit off stop (es ++ es') box box' := by
  refine ⟨h'.length_eq.trans h.length_eq, fun e he => ?_, fun i hi => ?_, fun e he => ?_⟩
  · obtain he | he := List.mem_append.1 he
    · have := h.inside e he
      omega
    · have := h'.inside e he
      omega
  · rw [h'.outside i fun e he => hi e (List.mem_append_right _ he),
      h.outside i fun e he => hi e (List.mem_append_left _ he)]
  · obtain he | he := List.mem_append.1 he
    · -- The second range leaves the entries of the first one.
      obtain ⟨v, hv, hmin, hnonneg, hlimit, hv'⟩ := h.value e he
      have hin := h.inside e he
      refine ⟨v, hv, hmin, hnonneg, hlimit, ?_⟩
      rw [← hv']
      exact readBE_congr fun i hi => h'.agree (.inl (by omega))
    · obtain ⟨v, hv, hmin, hnonneg, hlimit, hv'⟩ := h'.value e he
      have hin := h'.inside e he
      refine ⟨v, ?_, hmin, hnonneg, hlimit, hv'⟩
      rw [← hv]
      exact readBE_congr fun i hi => (h.agree (.inr (by omega))).symm

/-- A larger range. -/
theorem Patched.mono {off' stop' : ℕ}
    (h : Patched delta minValidOffset fileLimit off stop es box box') (ho : off' ≤ off)
    (hs : stop ≤ stop') : Patched delta minValidOffset fileLimit off' stop' es box box' :=
  ⟨h.length_eq, fun e he => by have := h.inside e he; omega, h.outside, h.value⟩

/-- One entry. -/
theorem patched_entry {orig : ℕ} (hp : p + w ≤ box.length) (hread : readBE box p w = some orig)
    (hmin : minValidOffset ≤ orig) (hnonneg : 0 ≤ orig + delta) (hlimit : orig + delta ≤ fileLimit)
    (hfits : (orig + delta).toNat < 256 ^ w) :
    Patched delta minValidOffset fileLimit p (p + w) [(p, w)] box
      (writeBE box p w (orig + delta).toNat) := by
  refine ⟨length_writeBE _ _ _ _, fun e he => ?_, fun i hi => ?_, fun e he => ?_⟩
  · obtain rfl := List.mem_singleton.1 he
    exact ⟨le_rfl, le_rfl⟩
  · exact getElem?_writeBE_of_outside (hi (p, w) (List.mem_singleton_self _))
  · obtain rfl := List.mem_singleton.1 he
    exact ⟨orig, hread, hmin, hnonneg, hlimit, readBE_writeBE hfits hp⟩

/-- The width of an entry is that of an `stco` or a `co64`. -/
def Wide (w : ℕ) : Prop := w = 4 ∨ w = 8

/-- **The loop over a table.** -/
theorem patchTable_spec (hw : Wide w) (hlimit : fileLimit < 256 ^ 8) {count : ℕ}
    (hstop : stop ≤ box.length)
    (h : patchTable delta minValidOffset fileLimit w box p stop count = some box') :
    Patched delta minValidOffset fileLimit p stop (positions w p count) box box' := by
  induction count generalizing box p with
  | zero =>
      obtain rfl := Option.some.inj h
      exact .refl _ _ _
  | succ count ih =>
      rw [patchTable] at h
      split at h
      · cases h
      rename_i hp
      split at h
      · cases h
      rename_i orig hread
      split at h
      · cases h
      rename_i hmin
      split at h
      · cases h
      rename_i hbounds
      push Not at hbounds
      have hfits : (orig + delta).toNat < 256 ^ w := by
        obtain rfl | rfl := hw
        · have := hbounds.2.1 rfl
          omega
        · omega
      have hmin' : minValidOffset ≤ orig := by omega
      have hentry : Patched delta minValidOffset fileLimit p (p + w) [(p, w)] box _ :=
        patched_entry (by omega) hread hmin' hbounds.1 hbounds.2.2 hfits
      have hrest := ih (by rw [length_writeBE]; exact hstop) h
      exact hentry.append hrest (by omega) le_rfl (by omega)

/-- **A table**: its entries lie behind the number of entries. -/
theorem patchBody_spec (hw : Wide w) (hlimit : fileLimit < 256 ^ 8) (hstop : stop ≤ box.length)
    (h : patchBody delta minValidOffset fileLimit w box p stop = some box') :
    Patched delta minValidOffset fileLimit (p + 8) stop (tableEntries w box p stop) box box' := by
  obtain ⟨count, hcount, h⟩ := Option.bind_eq_some_iff.1 h
  unfold tableEntries
  by_cases hp : p + 8 ≤ stop
  · rw [if_pos hp, hcount]
    exact patchTable_spec hw hlimit hstop h
  · -- The number of entries was read behind the box, so it can only be zero.
    rw [if_neg hp]
    cases count with
    | zero =>
        obtain rfl := Option.some.inj h
        exact .refl _ _ _
    | succ count =>
        have hw' : w = 4 ∨ w = 8 := hw
        rw [patchTable, if_pos (by omega)] at h
        cases h

/-- What the walk does with the first box. -/
def visit (delta : ℤ) (minValidOffset : ℕ) (fileLimit : ℤ) (box : Buffer) (off : ℕ) (x : Box) :
    Option Buffer :=
  if x.type = fourCC "stco" then
    patchBody delta minValidOffset fileLimit 4 box (off + x.headerSize) (off + x.size)
  else if x.type = fourCC "co64" then
    patchBody delta minValidOffset fileLimit 8 box (off + x.headerSize) (off + x.size)
  else if x.type ∈ containers then
    walk delta minValidOffset fileLimit box (off + x.headerSize) (off + x.size)
  else some box

/-- A walk that succeeds has nothing to visit, or visits a box and goes on. -/
theorem walk_cases (h : walk delta minValidOffset fileLimit box off stop = some box') :
    (¬off + 8 ≤ stop ∧ box' = box) ∨ (off + 8 ≤ stop ∧ ∃ x box₁, boxAt box off stop = some x ∧
      visit delta minValidOffset fileLimit box off x = some box₁ ∧
      walk delta minValidOffset fileLimit box₁ (off + x.size) stop = some box') := by
  rw [walk] at h
  split at h
  · rename_i h8
    refine .inr ⟨h8, ?_⟩
    split at h
    · cases h
    · rename_i x hx
      split at h
      · cases h
      · rename_i box₁ hvisit
        exact ⟨x, box₁, hx, hvisit, h⟩
  · rename_i h8
    exact .inl ⟨h8, (Option.some.inj h).symm⟩

/-- A table is patched, and its number of entries stays. -/
theorem patchBody_entries (hw : Wide w) (hlimit : fileLimit < 256 ^ 8) (hstop : stop ≤ box.length)
    (h : patchBody delta minValidOffset fileLimit w box p stop = some box') :
    Patched delta minValidOffset fileLimit (p + 8) stop (tableEntries w box p stop) box box' ∧
      tableEntries w box' p stop = tableEntries w box p stop := by
  have hpatched := patchBody_spec hw hlimit hstop h
  refine ⟨hpatched, tableEntries_congr fun _ i _ hi => ?_⟩
  exact hpatched.agree (.inl (by omega))

/-- **A walk that succeeds adds the distance to the entries it finds, changes nothing else,
and the same entries are found afterwards.** -/
theorem walk_spec (hlimit : fileLimit < 256 ^ 8) (hstop : stop ≤ box.length)
    (h : walk delta minValidOffset fileLimit box off stop = some box') :
    Patched delta minValidOffset fileLimit (off + 16) stop (entries box off stop) box box' ∧
      entries box' off stop = entries box off stop := by
  induction hn : stop - off using Nat.strong_induction_on generalizing box box' off stop with
  | h n ih =>
    obtain ⟨h8, rfl⟩ | ⟨h8, x, box₁, hbox, hvisit, hwalk⟩ := walk_cases h
    · have hnil : entries box' off stop = [] := by rw [entries, if_neg h8]
      exact ⟨by rw [hnil]; exact .refl _ _ _, rfl⟩
    · obtain ⟨-, -, hhead, hle, hend⟩ := boxAt_spec hbox
      -- The first box: a table, a container, or something else.
      have hfirst : Patched delta minValidOffset fileLimit (off + 16) (off + x.size)
          (firstEntries box off x) box box₁ ∧ firstEntries box₁ off x = firstEntries box off x := by
        unfold visit at hvisit
        unfold firstEntries
        split_ifs at hvisit ⊢ with h₁ h₂ h₃
        · obtain ⟨hp, he⟩ := patchBody_entries (.inl rfl) hlimit (by omega) hvisit
          exact ⟨hp.mono (by omega) le_rfl, he⟩
        · obtain ⟨hp, he⟩ := patchBody_entries (.inr rfl) hlimit (by omega) hvisit
          exact ⟨hp.mono (by omega) le_rfl, he⟩
        · obtain ⟨hp, he⟩ := ih _ (by omega) (by omega) hvisit rfl
          exact ⟨hp.mono (by omega) le_rfl, he⟩
        · obtain rfl := Option.some.inj hvisit
          exact ⟨.refl _ _ _, rfl⟩
      obtain ⟨hp₁, he₁⟩ := hfirst
      -- The rest, which the first box has not touched.
      obtain ⟨hp₂, he₂⟩ := ih _ (by omega) (by rw [hp₁.length_eq]; exact hstop) hwalk rfl
      have hrest : entries box₁ (off + x.size) stop = entries box (off + x.size) stop :=
        entries_congr fun i hi _ => hp₁.agree (.inr hi)
      have hsplit : entries box off stop = firstEntries box off x ++ entries box₁ (off + x.size) stop := by
        rw [entries_of_box h8 hbox, hrest]
      have hall := hp₁.append hp₂ (by omega) (by omega) (by omega)
      rw [hsplit]
      refine ⟨hall, ?_⟩
      -- The header of the first box is as it was, and so is what its entries are found by.
      have hbox' : boxAt box' off stop = some x := by
        rw [← hbox]
        exact boxAt_congr (fun i _ hi => hall.agree (.inl (by omega))) h8
      have hsame : firstEntries box' off x = firstEntries box₁ off x := by
        have hagree : AgreeOn box' box₁ off (off + x.size) := fun i _ hi =>
          hp₂.agree (.inl (by omega))
        unfold firstEntries
        rw [tableEntries_congr fun _ => hagree.mono (by omega) (by omega),
          tableEntries_congr fun _ => hagree.mono (by omega) (by omega),
          entries_congr (hagree.mono (by omega) le_rfl)]
      calc entries box' off stop = firstEntries box' off x ++ entries box' (off + x.size) stop :=
            entries_of_box h8 hbox'
        _ = firstEntries box off x ++ entries box₁ (off + x.size) stop := by
            rw [hsame, he₁, he₂]

end Faststart
end Client
end Liza
