/-
# Formatting survives editing

After every operation of the controller the spans lie within the text, none is empty, and no
two of one format overlap or touch (`Formatted`): each operation ends with `mergeSpans`, which
needs only spans within the text.  A text replaced by another one keeps the formats of each code
unit of the common prefix and of the common suffix: a span covers such a code unit before exactly
when the mapped span does after (`covers_mapSpan_of_lt`, `covers_mapSpan_of_le`), although start
and end are mapped by different rules.  `formatting_survives` puts both together for every
run.
-/

import Liza.Client.Formatting
import Liza.Lib.Run

set_option autoImplicit false

namespace Liza
namespace Client
namespace Formatting

open Lib

variable {spans l : List FormatSpan} {s a b : FormatSpan} {i j n : ℕ} {f k : MessageFormat}

/-! ### Merging -/

/-- The spans lie within a text of length `n`, and none is empty. -/
def Within (n : ℕ) (spans : List FormatSpan) : Prop :=
  ∀ s ∈ spans, s.start < s.stop ∧ s.stop ≤ n

theorem isEmpty_eq_false : (!isEmpty s) = true ↔ s.start < s.stop := by
  simp [isEmpty]

theorem lt_iff_index_lt : f < k ↔ f.index < k.index := Iff.rfl

theorem sortsBefore_iff : sortsBefore a b = true ↔ Span.Le a b := by
  unfold sortsBefore Span.Le
  rw [lt_iff_index_lt]
  by_cases h : a.label.index = b.label.index
  · have hl := MessageFormat.index_injective h
    simp [hl]
  · have hl : a.label ≠ b.label := fun heq => h (by rw [heq])
    simp [h, hl]

theorem pairwise_sorted (spans : List FormatSpan) :
    (spans.mergeSort sortsBefore).Pairwise Span.Le := by
  have htrans : ∀ a b c, sortsBefore a b = true → sortsBefore b c = true →
      sortsBefore a c = true := fun a b c hab hbc =>
    sortsBefore_iff.2 ((sortsBefore_iff.1 hab).trans (sortsBefore_iff.1 hbc))
  have htotal : ∀ a b, (sortsBefore a b || sortsBefore b a) = true := fun a b => by
    rcases Span.le_total a b with h | h
    · simp [sortsBefore_iff.2 h]
    · simp [sortsBefore_iff.2 h]
  exact (List.pairwise_mergeSort htrans htotal spans).imp fun h => sortsBefore_iff.1 h

/-- The spans that `mergeFormatSpans` goes over, in whichever order `sort` leaves those that compare
equal. -/
structure SortedFrom (spans l : List FormatSpan) : Prop where
  perm : l.Perm (spans.filter fun s => !isEmpty s)
  sorted : l.Pairwise Span.Le

theorem SortedFrom.nonempty (h : SortedFrom spans l) : ∀ s ∈ l, s.start < s.stop := by
  intro s hs
  exact isEmpty_eq_false.1 (List.mem_filter.1 (h.perm.mem_iff.1 hs)).2

theorem SortedFrom.has (h : SortedFrom spans l) : Span.Has l i k ↔ Span.Has spans i k := by
  rw [Span.has_congr fun s => h.perm.mem_iff]
  exact Span.has_filter _ fun s _ hs => by simpa [isEmpty] using hs

theorem sortedFrom_mergeSort (spans : List FormatSpan) :
    SortedFrom spans ((spans.filter fun s => !isEmpty s).mergeSort sortsBefore) :=
  ⟨List.mergeSort_perm _ _, pairwise_sorted _⟩

theorem mergeFormatSpans_eq (spans : List FormatSpan) : mergeFormatSpans spans =
    Span.sweepAll ((spans.filter fun s => !isEmpty s).mergeSort sortsBefore) := by
  unfold mergeFormatSpans
  cases (spans.filter fun s => !isEmpty s).mergeSort sortsBefore <;> rfl

/-- **Merging changes the formats of no position.** -/
theorem has_mergeFormatSpans : Span.Has (mergeFormatSpans spans) i f ↔ Span.Has spans i f := by
  have hl := sortedFrom_mergeSort spans
  rw [mergeFormatSpans_eq, Span.has_sweepAll hl.sorted hl.nonempty, hl.has]

/-- **Two lists of spans that give each position the same formats are merged to the same list.** -/
theorem mergeFormatSpans_congr {spans' : List FormatSpan}
    (h : ∀ i k, Span.Has spans i k ↔ Span.Has spans' i k) :
    mergeFormatSpans spans = mergeFormatSpans spans' := by
  have hl := sortedFrom_mergeSort spans
  have hl' := sortedFrom_mergeSort spans'
  rw [mergeFormatSpans_eq, mergeFormatSpans_eq]
  refine Span.sweepAll_congr hl.sorted hl.nonempty hl'.sorted hl'.nonempty fun i k => ?_
  rw [hl.has, hl'.has]
  exact h i k

theorem has_mergeSpans : Span.Has (mergeSpans spans) i f ↔ Span.Has spans i f := by
  unfold mergeSpans
  split
  · rfl
  · exact has_mergeFormatSpans

/-- **Merged spans are separated.** -/
theorem mergeSpans_spec (h : Within n spans) :
    Within n (mergeSpans spans) ∧ (mergeSpans spans).Pairwise Span.Before := by
  unfold mergeSpans
  split
  · rename_i hlen
    refine ⟨h, ?_⟩
    match spans, hlen with
    | [], _ => exact List.Pairwise.nil
    | [s], _ => exact List.pairwise_singleton _ _
  · unfold mergeFormatSpans
    have hmem : ∀ s ∈ (spans.filter fun s => !isEmpty s).mergeSort sortsBefore, s ∈ spans :=
      fun s hs => (List.mem_filter.1 (List.mem_mergeSort.1 hs)).1
    cases hsorted : (spans.filter fun s => !isEmpty s).mergeSort sortsBefore with
    | nil => exact ⟨fun s hs => absurd hs List.not_mem_nil, List.Pairwise.nil⟩
    | cons s l =>
        have hle : (s :: l).Pairwise Span.Le := hsorted ▸ pairwise_sorted _
        have hin : ∀ b ∈ s :: l, b.start < b.stop ∧ b.stop ≤ n := fun b hb =>
          h b (hmem b (hsorted ▸ hb))
        exact ⟨fun b hb => (Span.mem_sweep hle hin b hb).2, Span.separated_sweep hle hin⟩

/-! ### The common prefix and suffix -/

theorem countWhile_le {test : ℕ → Bool} {bound : ℕ} (hi : i ≤ bound) :
    countWhile test bound i ≤ bound := by
  induction hn : bound - i using Nat.strong_induction_on generalizing i with
  | h n ih =>
    rw [countWhile]
    split
    · split
      · exact ih _ (by omega) (by omega) rfl
      · omega
    · exact hi

/-- The common prefix and the common suffix do not overlap, in either text. -/
theorem prefix_suffix_le (oldText newText : Text) :
    prefixLength oldText newText + suffixLength oldText newText ≤ oldText.length ∧
      prefixLength oldText newText + suffixLength oldText newText ≤ newText.length := by
  have hprefix : prefixLength oldText newText ≤ min oldText.length newText.length :=
    countWhile_le (Nat.zero_le _)
  have hsuffix : suffixLength oldText newText ≤
      min oldText.length newText.length - prefixLength oldText newText :=
    countWhile_le (Nat.zero_le _)
  omega

/-! ### Mapped spans -/

section MapSpan

/- `[p, q)` of a text of length `n` is replaced by `m` code units. -/
variable {p q m : ℕ} {delta : ℤ}

/-- A span within the old text is mapped into the new one, and never turned around. -/
theorem mapSpan_bounds (hpq : p ≤ q) (hq : q ≤ n) (hdelta : delta = m - (q - p : ℕ))
    (hs : s.start < s.stop) (hn : s.stop ≤ n) :
    (mapSpan p q delta s).start ≤ (mapSpan p q delta s).stop ∧
      ((mapSpan p q delta s).stop : ℤ) ≤ n + delta := by
  simp only [mapSpan, mapOffset, if_true, Bool.false_eq_true, if_false]
  split_ifs <;> omega

/-- **Before the replaced part** a span covers what it covered. -/
theorem covers_mapSpan_of_lt (hpq : p ≤ q) (hdelta : delta = m - (q - p : ℕ)) (hi : i < p) :
    (mapSpan p q delta s).Covers i f ↔ s.Covers i f := by
  simp only [Span.Covers, mapSpan, mapOffset, if_true, Bool.false_eq_true, if_false]
  refine and_congr_right fun _ => ?_
  split_ifs <;> omega

/-- **Behind the replaced part** a span covers what it covered. -/
theorem covers_mapSpan_of_le (hpq : p ≤ q) (hdelta : delta = m - (q - p : ℕ)) (hi : q ≤ i)
    (hj : (j : ℤ) = i + delta) : (mapSpan p q delta s).Covers j f ↔ s.Covers i f := by
  simp only [Span.Covers, mapSpan, mapOffset, if_true, Bool.false_eq_true, if_false]
  refine and_congr_right fun _ => ?_
  split_ifs <;> omega

end MapSpan

/-- The formats of a position. -/
theorem mem_formatsAt : f ∈ formatsAt spans i ↔ Span.Has spans i f := by
  simp only [formatsAt, List.mem_toFinset, List.mem_map, List.mem_filter, decide_eq_true_eq,
    Span.Has, Span.Covers]
  constructor
  · rintro ⟨s, ⟨hs, hcov⟩, rfl⟩
    exact ⟨s, hs, rfl, hcov⟩
  · rintro ⟨s, hs, rfl, hcov⟩
    exact ⟨s, ⟨hs, hcov⟩, rfl⟩

/-- The positions `i` of the old text and `j` of the new one have the same formats when every
span covers both or none of them. -/
theorem formatsAt_mapSpan {p q : ℕ} {delta : ℤ}
    (h : ∀ (s : FormatSpan) (f : MessageFormat),
      (mapSpan p q delta s).Covers j f ↔ s.Covers i f) :
    formatsAt (mergeSpans ((spans.map (mapSpan p q delta)).filter fun s => !isEmpty s)) j =
      formatsAt spans i := by
  ext f
  have hfilter : Span.Has ((spans.map (mapSpan p q delta)).filter fun s => !isEmpty s) j f ↔
      Span.Has (spans.map (mapSpan p q delta)) j f :=
    Span.has_filter _ fun s _ hs => by simpa [isEmpty] using hs
  rw [mem_formatsAt, mem_formatsAt, has_mergeSpans, hfilter]
  simp only [Span.Has, List.mem_map, exists_exists_and_eq_and, h]

section Shift

variable {oldText newText : Text}

/-- The two ways a changed text is met: there is nothing to shift, or the spans are mapped. -/
theorem shift_cases (spans : List FormatSpan) (oldText newText : Text) :
    (oldText.length = newText.length ∧ shiftSpansForTextChange spans oldText newText = spans) ∨
      ∃ (q m : ℕ) (delta : ℤ), prefixLength oldText newText ≤ q ∧
        q + suffixLength oldText newText = oldText.length ∧
        delta = m - (q - prefixLength oldText newText : ℕ) ∧
        (oldText.length : ℤ) + delta = newText.length ∧
        shiftSpansForTextChange spans oldText newText =
          mergeSpans ((spans.map (mapSpan (prefixLength oldText newText) q delta)).filter
            fun s => !isEmpty s) := by
  obtain ⟨hold, hnew⟩ := prefix_suffix_le oldText newText
  unfold shiftSpansForTextChange
  by_cases heq : oldText = newText
  · exact .inl ⟨by rw [heq], if_pos heq⟩
  · rw [if_neg heq]
    dsimp only
    split
    · rename_i hsame
      exact .inl ⟨by omega, rfl⟩
    · exact .inr ⟨oldText.length - suffixLength oldText newText, _, _, by omega, by omega, rfl,
        by omega, rfl⟩

/-- Shifted spans lie within the new text and are separated. -/
theorem shift_spec (h : Within oldText.length spans) (hsep : spans.Pairwise Span.Before) :
    Within newText.length (shiftSpansForTextChange spans oldText newText) ∧
      (shiftSpansForTextChange spans oldText newText).Pairwise Span.Before := by
  obtain ⟨hlen, heq⟩ | ⟨q, m, delta, hpq, hq, hdelta, hlen, heq⟩ :=
    shift_cases spans oldText newText
  · rw [heq, ← hlen]
    exact ⟨h, hsep⟩
  · rw [heq]
    refine mergeSpans_spec fun s hs => ?_
    obtain ⟨hs, hne⟩ := List.mem_filter.1 hs
    obtain ⟨t, ht, rfl⟩ := List.mem_map.1 hs
    have hb := mapSpan_bounds hpq (by omega : q ≤ oldText.length) hdelta (h t ht).1 (h t ht).2
    refine ⟨isEmpty_eq_false.1 hne, by omega⟩

/-- **A code unit of the common prefix keeps its formats.** -/
theorem formatsAt_shift_prefix (hi : i < prefixLength oldText newText) :
    formatsAt (shiftSpansForTextChange spans oldText newText) i = formatsAt spans i := by
  obtain ⟨-, heq⟩ | ⟨q, m, delta, hpq, -, hdelta, -, heq⟩ := shift_cases spans oldText newText
  · rw [heq]
  · rw [heq]
    exact formatsAt_mapSpan fun s f => covers_mapSpan_of_lt hpq hdelta hi

/-- **A code unit of the common suffix keeps its formats.** -/
theorem formatsAt_shift_suffix (hi : i < suffixLength oldText newText) :
    formatsAt (shiftSpansForTextChange spans oldText newText) (newText.length - 1 - i) =
      formatsAt spans (oldText.length - 1 - i) := by
  obtain ⟨hold, hnew⟩ := prefix_suffix_le oldText newText
  obtain ⟨hlen, heq⟩ | ⟨q, m, delta, hpq, hq, hdelta, hlen, heq⟩ :=
    shift_cases spans oldText newText
  · rw [heq, hlen]
  · rw [heq]
    exact formatsAt_mapSpan fun s f =>
      covers_mapSpan_of_le hpq hdelta (by omega) (by omega)

end Shift

/-! ### The operations -/

/-- What holds between two operations. -/
structure Inv (c : Controller) : Prop where
  selection : InRange c.selection c.text
  within : Within c.text.length c.spans
  separated : c.spans.Pairwise Span.Before

variable {c : Controller}

theorem within_removeFormat {start stop : ℕ} (h : Within n spans) :
    Within n (removeFormat spans start stop f) := by
  intro s hs
  obtain ⟨hs, hne⟩ := List.mem_filter.1 hs
  obtain ⟨t, ht, hs⟩ := List.mem_flatMap.1 hs
  have hb := h t ht
  refine ⟨isEmpty_eq_false.1 hne, ?_⟩
  split at hs
  · rw [List.mem_singleton.1 hs]
    exact hb.2
  · rename_i hcut
    push Not at hcut
    rcases List.mem_append.1 hs with hs | hs
    · split at hs
      · rw [List.mem_singleton.1 hs]
        show start ≤ n
        omega
      · exact absurd hs List.not_mem_nil
    · split at hs
      · rw [List.mem_singleton.1 hs]
        exact hb.2
      · exact absurd hs List.not_mem_nil

theorem Inv.toggleFormat (h : Inv c) (f : MessageFormat) : Inv (c.toggleFormat f) := by
  unfold Controller.toggleFormat
  split
  · exact h
  dsimp only
  split
  · exact h
  rename_i hlt
  split
  · obtain ⟨hwithin, hsep⟩ := mergeSpans_spec (within_removeFormat h.within)
    exact ⟨h.selection, hwithin, hsep⟩
  · have hsel : c.selection.stop ≤ c.text.length := h.selection
    have hadd : Within c.text.length (c.spans ++
        [⟨c.selection.start.toNat, c.selection.stop.toNat, f⟩]) := by
      intro s hs
      rcases List.mem_append.1 hs with hs | hs
      · exact h.within s hs
      · rw [List.mem_singleton.1 hs]
        show c.selection.start.toNat < c.selection.stop.toNat ∧ c.selection.stop.toNat ≤ _
        omega
    obtain ⟨hwithin, hsep⟩ := mergeSpans_spec hadd
    exact ⟨h.selection, hwithin, hsep⟩

theorem Inv.setSpans (h : Inv c) (spans : List FormatSpan) :
    Inv (c.setSpans spans c.text.length) := by
  have hclip : Within c.text.length (spans.filterMap fun s =>
      let stop := if s.stop > c.text.length then c.text.length else s.stop
      if s.start ≥ stop then none else some ⟨s.start, stop, s.label⟩) := by
    intro s hs
    obtain ⟨t, -, ht⟩ := List.mem_filterMap.1 hs
    dsimp only at ht
    by_cases hlong : t.stop > c.text.length
    · rw [if_pos hlong] at ht
      obtain ⟨hlt, heq⟩ := Option.ite_none_left_eq_some.1 ht
      obtain rfl := Option.some.inj heq
      exact ⟨Nat.lt_of_not_le hlt, le_rfl⟩
    · rw [if_neg hlong] at ht
      obtain ⟨hlt, heq⟩ := Option.ite_none_left_eq_some.1 ht
      obtain rfl := Option.some.inj heq
      exact ⟨Nat.lt_of_not_le hlt, Nat.le_of_not_lt hlong⟩
  obtain ⟨hwithin, hsep⟩ := mergeSpans_spec hclip
  exact ⟨h.selection, hwithin, hsep⟩

theorem Inv.restoreSpans (h : Inv c) (jsonDecode : Text → Option Json)
    (serialized : Option Text) : Inv (c.restoreSpans jsonDecode serialized c.text.length) := by
  unfold Controller.restoreSpans
  split
  · exact h.setSpans _
  · split
    · exact h.setSpans _
    · split
      · exact h.setSpans _
      · exact h.setSpans _

theorem Inv.setValue (h : Inv c) {text : Text} {selection : TextSelection}
    (hsel : InRange selection text) : Inv (c.setValue text selection) := by
  obtain ⟨hwithin, hsep⟩ := shift_spec h.within h.separated
  exact ⟨hsel, hwithin, hsep⟩

theorem Inv.clearFormatting (h : Inv c) : Inv c.clearFormatting :=
  ⟨h.selection, fun _ hs => absurd hs List.not_mem_nil, List.Pairwise.nil⟩

/-- **One operation keeps the invariant.** -/
theorem Inv.step {jsonDecode : Text → Option Json} {op : Op} {c' : Controller} (h : Inv c)
    (hallowed : Allowed c op) (hstep : step jsonDecode c op = some c') : Inv c' := by
  cases op with
  | setValue text selection =>
      obtain rfl := Option.some.inj hstep
      exact h.setValue hallowed
  | toggleFormat format =>
      obtain rfl := Option.some.inj hstep
      exact h.toggleFormat format
  | setSpans spans textLength =>
      obtain rfl := Option.some.inj hstep
      rw [show textLength = c.text.length from hallowed]
      exact h.setSpans spans
  | restoreSpans serialized textLength =>
      obtain rfl := Option.some.inj hstep
      rw [show textLength = c.text.length from hallowed]
      exact h.restoreSpans jsonDecode serialized
  | clear =>
      obtain rfl := Option.some.inj hstep
      exact h.clearFormatting.setValue (le_refl (0 : ℤ))
  | clearFormatting =>
      obtain rfl := Option.some.inj hstep
      exact h.clearFormatting

/-! ### Runs -/

/-- The spans lie within the text, none is empty, and any two of one format are apart. -/
structure Formatted (c : Controller) : Prop where
  inText : ∀ s ∈ c.spans, s.stop ≤ c.text.length
  nonempty : ∀ s ∈ c.spans, s.start < s.stop
  apart : c.spans.Pairwise fun a b => a.label = b.label → a.stop < b.start ∨ b.stop < a.start

theorem Inv.formatted (h : Inv c) : Formatted c := by
  refine ⟨fun s hs => (h.within s hs).2, fun s hs => (h.within s hs).1, h.separated.imp ?_⟩
  rintro a b (hlt | ⟨-, hstop⟩) heq
  · exact absurd heq (ne_of_lt hlt)
  · exact .inl hstop

/-- **Formatting survives editing.**  After every run of operations the spans are well-formed,
and whatever the text is then replaced by, each code unit of the common prefix and of the common
suffix has the formats it had. -/
theorem formatting_survives (jsonDecode : Text → Option Json) {text : Text} {ops : List Op}
    (h : Exec (step jsonDecode) Allowed (Controller.new text) ops c) :
    Formatted c ∧ ∀ (newText : Text) (selection : TextSelection),
      (∀ i < prefixLength c.text newText,
        formatsAt (c.setValue newText selection).spans i = formatsAt c.spans i) ∧
      ∀ i < suffixLength c.text newText,
        formatsAt (c.setValue newText selection).spans (newText.length - 1 - i) =
          formatsAt c.spans (c.text.length - 1 - i) := by
  have hnew : Inv (Controller.new text) := by
    refine ⟨?_, fun _ hs => absurd hs List.not_mem_nil, List.Pairwise.nil⟩
    show (-1 : ℤ) ≤ text.length
    omega
  have hinv : Inv c := h.invariant hnew fun _ _ _ hs hallowed hstep => hs.step hallowed hstep
  exact ⟨hinv.formatted, fun _ _ =>
    ⟨fun _ hi => formatsAt_shift_prefix hi, fun _ hi => formatsAt_shift_suffix hi⟩⟩

/-- `ab` is typed, `b` is made bold; then a letter between the two is not bold, and `b` is. -/
theorem formatting_survives_typing : ∃ c,
    Exec (step fun _ => none) Allowed (Controller.new [])
      [.setValue [97, 98] ⟨1, 2⟩, .toggleFormat .bold] c ∧
    Formatted c ∧ prefixLength c.text [97, 99, 98] = 1 ∧ suffixLength c.text [97, 99, 98] = 1 ∧
      formatsAt (c.setValue [97, 99, 98] ⟨2, 2⟩).spans 2 = [MessageFormat.bold].toFinset := by
  have hrun : Exec (step fun _ => none) Allowed (Controller.new [])
      [.setValue [97, 98] ⟨1, 2⟩, .toggleFormat .bold]
      ⟨[97, 98], ⟨1, 2⟩, [⟨1, 2, .bold⟩]⟩ := exec_of_runs (by decide +kernel)
  obtain ⟨hformatted, hkeep⟩ := formatting_survives (fun _ => none) hrun
  have hsuffix := (hkeep [97, 99, 98] ⟨2, 2⟩).2 0 (by decide +kernel)
  refine ⟨_, hrun, hformatted, by decide +kernel, by decide +kernel, hsuffix.trans ?_⟩
  decide +kernel

end Formatting
end Client
end Liza
