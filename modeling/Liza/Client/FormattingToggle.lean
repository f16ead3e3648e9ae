/-
# What toggling a format does to the positions of a text

`toggleFormat` decides by one pass over the spans of the format whether the selection is covered,
and either cuts the selection out of them or adds a span for it; `mergeFormatSpans` then joins
what overlaps or touches.  The spans may overlap in any way: `toggle_pointwise` says what each
step means for the formats of a position.

Dart's `sort` is not stable.  Two lists in which the same spans are sorted give the same merged
spans (`mergeFormatSpans_of_sorted`), and whether a selection is covered does not depend on which
of them is gone over either (`coveredTo_iff`).
-/

import Liza.Client.FormattingEdits

set_option autoImplicit false

namespace Liza
namespace Client
namespace Formatting

open Lib

variable {spans spans' l : List FormatSpan} {s : FormatSpan} {i start stop covered : ℕ}
  {f k : MessageFormat} {c : Controller}

/-! ### Merging -/

/-- The order that `sort` leaves does not matter. -/
theorem mergeFormatSpans_of_sorted (h : SortedFrom spans l) :
    Span.sweepAll l = mergeFormatSpans spans := by
  have hl := sortedFrom_mergeSort spans
  rw [mergeFormatSpans_eq]
  refine Span.sweepAll_congr h.sorted h.nonempty hl.sorted hl.nonempty fun i k => ?_
  rw [h.has, hl.has]

/-! ### Covered selections -/

/-- The loop of `_isRangeFullyCovered` finds the first position that no span covers. -/
theorem coveredTo_iff (hl : l.Pairwise fun a b => a.start ≤ b.start) (hc : covered < stop) :
    coveredTo stop covered l = true ↔
      ∀ i, covered ≤ i → i < stop → ∃ s ∈ l, s.start ≤ i ∧ i < s.stop := by
  induction l generalizing covered with
  | nil =>
      constructor
      · intro h
        have hge : covered ≥ stop := by simpa [coveredTo] using h
        omega
      · intro h
        obtain ⟨s, hs, -⟩ := h covered (Nat.le_refl _) hc
        exact absurd hs List.not_mem_nil
  | cons s l ih =>
      obtain ⟨hfirst, hrest⟩ := List.pairwise_cons.1 hl
      rw [coveredTo]
      split
      · -- the gap: all other spans start behind it, too
        rename_i hgap
        constructor
        · intro h
          cases h
        · intro h
          obtain ⟨b, hb, hstart, -⟩ := h covered (Nat.le_refl _) hc
          rcases List.mem_cons.1 hb with rfl | hb
          · omega
          · have := hfirst b hb
            omega
      · rename_i hstart
        split
        · rename_i hdone
          refine ⟨fun _ i hi hstop => ⟨s, List.mem_cons_self, ?_, ?_⟩, fun _ => rfl⟩
          · omega
          · omega
        · rename_i hleft
          rw [ih hrest (by omega)]
          constructor
          · intro h i hi hstop
            by_cases his : i < s.stop
            · exact ⟨s, List.mem_cons_self, by omega, his⟩
            · obtain ⟨b, hb, hcov⟩ := h i (by omega) hstop
              exact ⟨b, List.mem_cons_of_mem _ hb, hcov⟩
          · intro h i hi hstop
            obtain ⟨b, hb, hcov⟩ := h i (by omega) hstop
            rcases List.mem_cons.1 hb with rfl | hb
            · omega
            · exact ⟨b, hb, hcov⟩

/-- **A selection is fully covered when each of its positions has the format.** -/
theorem isRangeFullyCovered_iff (h : start < stop) :
    isRangeFullyCovered spans start stop f = true ↔
      ∀ i, start ≤ i → i < stop → Span.Has spans i f := by
  have hsorted : ((spans.filter fun s =>
      s.label = f ∧ s.stop > start ∧ s.start < stop).mergeSort
        fun a b => a.start ≤ b.start).Pairwise fun a b => a.start ≤ b.start := by
    refine (List.pairwise_mergeSort ?_ ?_ _).imp fun hab => of_decide_eq_true hab
    · intro a b c hab hbc
      simp only [decide_eq_true_eq] at hab hbc ⊢
      omega
    · intro a b
      simp only [Bool.or_eq_true, decide_eq_true_eq]
      omega
  unfold isRangeFullyCovered
  rw [if_neg (by omega), coveredTo_iff hsorted h]
  refine forall_congr' fun i => forall_congr' fun hi => forall_congr' fun hstop => ?_
  simp only [List.mem_mergeSort, List.mem_filter, decide_eq_true_eq]
  constructor
  · rintro ⟨s, ⟨hs, hlabel, -⟩, hcov⟩
    exact ⟨s, hs, hlabel, hcov⟩
  · rintro ⟨s, hs, hlabel, hcov⟩
    exact ⟨s, ⟨hs, hlabel, by omega, by omega⟩, hcov⟩

/-! ### Toggling -/

/-- **`_removeFormat` takes the format from the positions of the range.** -/
theorem has_removeFormat :
    Span.Has (removeFormat spans start stop f) i k ↔
      Span.Has spans i k ∧ ¬(k = f ∧ start ≤ i ∧ i < stop) := by
  unfold removeFormat
  rw [Span.has_filter _ fun s _ hs => by simpa [isEmpty] using hs, Span.has_flatMap]
  have hspan : ∀ s : FormatSpan, Span.Has
      (if s.label ≠ f ∨ s.stop ≤ start ∨ s.start ≥ stop then [s]
      else
        (if s.start < start then [⟨s.start, start, f⟩] else []) ++
          (if s.stop > stop then [⟨stop, s.stop, f⟩] else [])) i k ↔
      s.Covers i k ∧ ¬(k = f ∧ start ≤ i ∧ i < stop) := by
    intro s
    split
    · rename_i hapart
      rw [Span.has_cons, or_iff_left Span.has_nil]
      refine ⟨fun hcov => ⟨hcov, ?_⟩, fun hcov => hcov.1⟩
      rintro ⟨rfl, hi, hstop⟩
      obtain ⟨hlabel, hcov⟩ := hcov
      rcases hapart with hne | hside
      · exact hne hlabel
      · omega
    · rename_i hcut
      have hlabel : s.label = f := by
        by_contra hne
        exact hcut (.inl hne)
      have hoverlap : start < s.stop ∧ s.start < stop := by
        refine ⟨?_, ?_⟩
        · by_contra hle
          exact hcut (.inr (.inl (by omega)))
        · by_contra hle
          exact hcut (.inr (.inr (by omega)))
      rw [Span.has_append, Span.Covers, hlabel]
      constructor
      · rintro (hleft | hright)
        · split at hleft
          · obtain ⟨rfl, hfrom, hto⟩ := (Span.has_cons.1 hleft).resolve_right Span.has_nil
            dsimp only at hfrom hto
            refine ⟨⟨rfl, hfrom, ?_⟩, ?_⟩
            · omega
            · omega
          · exact absurd hleft Span.has_nil
        · split at hright
          · obtain ⟨rfl, hfrom, hto⟩ := (Span.has_cons.1 hright).resolve_right Span.has_nil
            dsimp only at hfrom hto
            refine ⟨⟨rfl, ?_, hto⟩, ?_⟩
            · omega
            · omega
          · exact absurd hright Span.has_nil
      · rintro ⟨⟨rfl, hfrom, hto⟩, hout⟩
        by_cases hi : i < start
        · rw [if_pos (by omega)]
          exact .inl (Span.has_cons.2 (.inl ⟨rfl, hfrom, hi⟩))
        · have hstop : stop ≤ i := by
            by_contra hlt
            exact hout ⟨rfl, by omega, by omega⟩
          rw [if_pos (show s.stop > stop by omega)]
          exact .inr (Span.has_cons.2 (.inl ⟨rfl, hstop, hto⟩))
  refine (exists_congr fun s => and_congr_right fun _ => hspan s).trans ?_
  constructor
  · rintro ⟨s, hs, hcov, hout⟩
    exact ⟨⟨s, hs, hcov⟩, hout⟩
  · rintro ⟨⟨s, hs, hcov⟩, hout⟩
    exact ⟨s, hs, hcov, hout⟩

/-- The position lies in the selection; a selection that is not valid contains none. -/
def TextSelection.Selects (sel : TextSelection) (i : ℕ) : Prop :=
  sel.isValid = true ∧ sel.start ≤ i ∧ i < sel.stop

/-- The format is at every position of the selection. -/
def Controller.Covered (c : Controller) (f : MessageFormat) : Prop :=
  ∀ i, c.selection.Selects i → Span.Has c.spans i f

@[simp]
theorem selection_toggleFormat : (c.toggleFormat f).selection = c.selection := by
  unfold Controller.toggleFormat
  dsimp only
  split
  · rfl
  · split
    · rfl
    · split <;> rfl

/-- A selection without positions, or a range. -/
theorem selects_cases (sel : TextSelection) :
    ((!sel.isValid || sel.isCollapsed) = true ∧ ∀ i, ¬sel.Selects i) ∨
      ((!sel.isValid || sel.isCollapsed) = false ∧ sel.start.toNat < sel.stop.toNat ∧
        ∀ i, sel.Selects i ↔ sel.start.toNat ≤ i ∧ i < sel.stop.toNat) := by
  have hle : sel.start ≤ sel.stop := by
    unfold TextSelection.start TextSelection.stop
    omega
  by_cases hvalid : sel.isValid = true
  · have hpos : sel.start ≥ 0 ∧ sel.stop ≥ 0 := by simpa [TextSelection.isValid] using hvalid
    by_cases hcollapsed : sel.start = sel.stop
    · refine .inl ⟨by simp [TextSelection.isCollapsed, hcollapsed], ?_⟩
      rintro i ⟨-, hstart, hstop⟩
      omega
    · refine .inr ⟨by simp [TextSelection.isCollapsed, hcollapsed, hvalid], by omega, fun i => ?_⟩
      unfold TextSelection.Selects
      constructor
      · rintro ⟨-, hstart, hstop⟩
        omega
      · rintro ⟨hstart, hstop⟩
        exact ⟨hvalid, by omega, by omega⟩
  · exact .inl ⟨by simp [hvalid], fun i hi => hvalid hi.1⟩

/-- **The formats of a position after toggling.** -/
theorem has_toggleFormat : Span.Has (c.toggleFormat f).spans i k ↔
    k = f ∧ c.selection.Selects i ∧ ¬c.Covered f ∨
      ¬(k = f ∧ c.selection.Selects i) ∧ Span.Has c.spans i k := by
  unfold Controller.toggleFormat
  rcases selects_cases c.selection with ⟨hnone, hsel⟩ | ⟨hsome, hlt, hsel⟩
  · rw [if_pos hnone]
    simp [hsel]
  · have hcovered : isRangeFullyCovered c.spans c.selection.start.toNat c.selection.stop.toNat f =
        true ↔ c.Covered f := by
      rw [isRangeFullyCovered_iff hlt]
      unfold Controller.Covered
      simp only [hsel, and_imp]
    rw [if_neg (by simp [hsome])]
    dsimp only
    rw [if_neg (by omega)]
    split
    · rename_i hfull
      rw [has_mergeSpans, has_removeFormat, hsel]
      have hall := hcovered.1 hfull
      tauto
    · rename_i hpart
      have hsome : ¬c.Covered f := fun h => hpart (hcovered.2 h)
      rw [has_mergeSpans, Span.has_append, Span.has_cons, or_iff_left Span.has_nil, Span.Covers,
        ← hsel, eq_comm (a := f)]
      tauto

/-- **Toggling is pointwise.**  For every list of spans, selection and format, `toggleFormat`
changes nothing but the format, and only inside the selection: there every position has it
afterwards, unless every one had it, in which case none has it.  Done twice where all positions of
the selection had the format, or none, it leaves every position the formats it had.
`mergeFormatSpans` keeps the formats of every position, depends on nothing else, and changes
nothing the second time. -/
theorem toggle_pointwise (c : Controller) (f : MessageFormat) (spans : List FormatSpan) :
    (∀ i k, ¬(k = f ∧ c.selection.Selects i) →
        (Span.Has (c.toggleFormat f).spans i k ↔ Span.Has c.spans i k)) ∧
      (∀ i, c.selection.Selects i → (Span.Has (c.toggleFormat f).spans i f ↔ ¬c.Covered f)) ∧
      (c.Covered f ∨ (∀ i, c.selection.Selects i → ¬Span.Has c.spans i f) →
        ∀ i k, Span.Has ((c.toggleFormat f).toggleFormat f).spans i k ↔ Span.Has c.spans i k) ∧
      (∀ i k, Span.Has (mergeFormatSpans spans) i k ↔ Span.Has spans i k) ∧
      (∀ spans', (∀ i k, Span.Has spans i k ↔ Span.Has spans' i k) →
        mergeFormatSpans spans = mergeFormatSpans spans') ∧
      mergeFormatSpans (mergeFormatSpans spans) = mergeFormatSpans spans := by
  have hinside : ∀ i, c.selection.Selects i →
      (Span.Has (c.toggleFormat f).spans i f ↔ ¬c.Covered f) := by
    intro i hi
    rw [has_toggleFormat]
    simp [hi]
  refine ⟨fun i k hout => ?_, hinside, fun huniform i k => ?_, fun _ _ => has_mergeFormatSpans,
    fun spans' h => mergeFormatSpans_congr h,
    mergeFormatSpans_congr fun _ _ => has_mergeFormatSpans⟩
  · rw [has_toggleFormat]
    tauto
  · have htwice : (c.toggleFormat f).Covered f ↔
        ∀ i, c.selection.Selects i → ¬c.Covered f := by
      unfold Controller.Covered
      rw [selection_toggleFormat]
      exact forall_congr' fun i => forall_congr' fun hi => hinside i hi
    rw [has_toggleFormat, selection_toggleFormat, htwice]
    by_cases hin : k = f ∧ c.selection.Selects i
    · obtain ⟨rfl, hi⟩ := hin
      have hback : ¬(∀ i, c.selection.Selects i → ¬c.Covered k) ↔ c.Covered k :=
        ⟨fun h => by
          by_contra hnot
          exact h fun _ _ => hnot, fun h hnot => hnot i hi h⟩
      rw [hback]
      rcases huniform with hall | hnone
      · simp [hall, hi, hall i hi]
      · have hnot : ¬c.Covered k := fun h => hnone i hi (h i hi)
        simp [hnot, hi, hnone i hi]
    · rw [has_toggleFormat]
      tauto

end Formatting
end Client
end Liza
