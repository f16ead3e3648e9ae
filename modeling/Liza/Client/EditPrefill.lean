/-
# Editing a formatted message

`spansToFormattedHtml` cuts the spans of a text at each other's boundaries, and
`formattedHtmlToSpans` reads one span of each format from each piece.  Both give each position the
same formats (`has_segmentSpans`); merging makes a list of spans that is determined by that, so
the merged spans come back (`formatted_round_trip`).

A text with a carriage return or a NUL does not come back; then, and where the body of the message
is not the text that was formatted (a mention was resolved in it), `resolveEditPrefill` gives up
the formats.  For any other own message, except for one that begins with a slash, saving it
unchanged sends the same HTML.
-/

import Liza.Client.FormattedMarkup
import Liza.Client.FormattingEdits
import Liza.Lib.Lines
import Mathlib.Data.List.Pairwise

set_option autoImplicit false

namespace Liza
namespace Client
namespace Formatting

open Lib

/-- The spans, cut off at the end of the text. -/
def clipSpans (text : Text) (spans : List FormatSpan) : List FormatSpan :=
  spans.map fun s => ⟨s.start, min s.stop text.length, s.label⟩

section Boundaries

variable {text : Text} {spans active : List FormatSpan} {i x : ℕ} {k : MessageFormat}

/-! ### The boundaries -/

theorem mem_boundaries : x ∈ boundaries text active ↔
    x = 0 ∨ x = text.length ∨ ∃ s ∈ active, s.start ≤ text.length ∧ x = s.start ∨
      x = min s.stop text.length := by
  unfold boundaries
  rw [List.mem_insertionSort, List.mem_dedup, List.mem_cons, List.mem_cons, List.mem_flatMap]
  refine or_congr Iff.rfl (or_congr Iff.rfl ?_)
  constructor
  · rintro ⟨s, hs, hx⟩
    rcases List.mem_append.1 hx with hx | hx
    · split at hx
      · rename_i hle
        exact ⟨s, hs, .inl ⟨hle, List.mem_singleton.1 hx⟩⟩
      · cases hx
    · exact ⟨s, hs, .inr (List.mem_singleton.1 hx)⟩
  · rintro ⟨s, hs, ⟨hle, rfl⟩ | rfl⟩
    · exact ⟨s, hs, List.mem_append_left _ (by rw [if_pos hle]; exact List.mem_singleton.2 rfl)⟩
    · exact ⟨s, hs, List.mem_append_right _ (List.mem_singleton.2 rfl)⟩

theorem le_of_mem_boundaries (h : x ∈ boundaries text active) : x ≤ text.length := by
  rcases mem_boundaries.1 h with rfl | rfl | ⟨s, -, ⟨hle, rfl⟩ | rfl⟩
  · exact Nat.zero_le _
  · exact Nat.le_refl _
  · exact hle
  · exact Nat.min_le_right _ _

theorem pairwise_boundaries (text : Text) (active : List FormatSpan) :
    (boundaries text active).Pairwise (· < ·) := by
  have hsorted : (boundaries text active).Pairwise (· ≤ ·) := List.pairwise_insertionSort _ _
  have hnodup : (boundaries text active).Nodup :=
    (List.perm_insertionSort _ _).nodup_iff.2 (List.nodup_dedup _)
  exact (hsorted.and hnodup).imp fun h => lt_of_le_of_ne h.1 h.2

/-- The boundaries go from the start of the text to its end. -/
theorem boundaries_eq (text : Text) (active : List FormatSpan) :
    ∃ bs, boundaries text active = 0 :: bs ∧
      (0 :: bs).getLast (List.cons_ne_nil _ _) = text.length := by
  have hsorted := pairwise_boundaries text active
  have hzero : 0 ∈ boundaries text active := mem_boundaries.2 (.inl rfl)
  have hend : text.length ∈ boundaries text active := mem_boundaries.2 (.inr (.inl rfl))
  cases hbs : boundaries text active with
  | nil =>
      rw [hbs] at hzero
      cases hzero
  | cons a bs =>
      have hle := fun x (hx : x ∈ a :: bs) => le_of_mem_boundaries (hbs ▸ hx)
      rw [hbs] at hsorted hzero hend
      have ha : a = 0 := by
        rcases List.mem_cons.1 hzero with h | h
        · exact h.symm
        · exact absurd ((List.pairwise_cons.1 hsorted).1 0 h) (Nat.not_lt_zero a)
      subst ha
      refine ⟨bs, rfl, Nat.le_antisymm (hle _ (List.getLast_mem _)) ?_⟩
      have hlast : ∀ x ∈ 0 :: bs, x ≤ (0 :: bs).getLast (List.cons_ne_nil _ _) := fun x hx =>
        List.Pairwise.rel_getLast_of_rel_getLast_getLast (hsorted.imp Nat.le_of_lt) hx (Nat.le_refl _)
      exact hlast _ hend

/-! ### The segments give each position the formats of the spans -/

theorem mem_orderedFormats : k ∈ orderedFormats text active i ↔
    ∃ s ∈ active, s.label = k ∧ s.start ≤ i ∧ i < min s.stop text.length := by
  have hall : ∀ f : MessageFormat, f ∈ tagOrder := by
    intro f
    cases f <;> decide
  unfold orderedFormats segmentFormats
  simp only [List.mem_filter, hall, true_and, List.mem_map, decide_eq_true_eq]
  constructor
  · rintro ⟨s, ⟨hs, hstart, hstop⟩, rfl⟩
    exact ⟨s, hs, rfl, hstart, hstop⟩
  · rintro ⟨s, hs, rfl, hstart, hstop⟩
    exact ⟨s, ⟨hs, hstart, hstop⟩, rfl⟩

theorem has_spansFor {formats : List MessageFormat} {a b : ℕ} :
    Span.Has (spansFor formats a b) i k ↔ k ∈ formats ∧ a ≤ i ∧ i < b := by
  unfold spansFor Span.Has
  constructor
  · rintro ⟨s, hs, rfl, hstart, hstop⟩
    obtain ⟨f, hf, rfl⟩ := List.mem_map.1 hs
    exact ⟨List.mem_reverse.1 hf, hstart, hstop⟩
  · rintro ⟨hk, hstart, hstop⟩
    exact ⟨⟨a, b, k⟩, List.mem_map.2 ⟨k, List.mem_reverse.2 hk, rfl⟩, rfl, hstart, hstop⟩

theorem has_append {l l' : List FormatSpan} :
    Span.Has (l ++ l') i k ↔ Span.Has l i k ∨ Span.Has l' i k := by
  simp only [Span.Has, List.mem_append, or_and_right, exists_or]

/-- Within a segment the formats are those of its start: no span begins or ends there. -/
theorem mem_orderedFormats_within {a b : ℕ} (hai : a ≤ i) (hib : i < b)
    (hgap : ∀ x ∈ boundaries text active, a < x → b ≤ x)
    (hactive : ∀ s ∈ active, s.start < text.length) :
    k ∈ orderedFormats text active a ↔ k ∈ orderedFormats text active i := by
  rw [mem_orderedFormats, mem_orderedFormats]
  have hsame : ∀ s ∈ active, (s.start ≤ a ∧ a < min s.stop text.length ↔
      s.start ≤ i ∧ i < min s.stop text.length) := by
    intro s hs
    have hstart := hgap s.start (mem_boundaries.2 (.inr (.inr ⟨s, hs, .inl ⟨(hactive s hs).le, rfl⟩⟩)))
    have hstop := hgap (min s.stop text.length) (mem_boundaries.2 (.inr (.inr ⟨s, hs, .inr rfl⟩)))
    constructor
    · rintro ⟨h₁, h₂⟩
      exact ⟨by omega, by omega⟩
    · rintro ⟨h₁, h₂⟩
      refine ⟨?_, by omega⟩
      by_contra hlt
      have := hstart (by omega)
      omega
  constructor
  · rintro ⟨s, hs, hk, h⟩
    exact ⟨s, hs, hk, (hsame s hs).1 h⟩
  · rintro ⟨s, hs, hk, h⟩
    exact ⟨s, hs, hk, (hsame s hs).2 h⟩

/-- The segments from the boundary `a` on. -/
theorem has_segmentSpans_from (hactive : ∀ s ∈ active, s.start < text.length) (a : ℕ) (bs : List ℕ)
    (hsorted : (a :: bs).Pairwise (· < ·))
    (hsuffix : ∀ x ∈ boundaries text active, a < x → x ∈ bs) :
    Span.Has (segmentSpans text active (a :: bs)) i k ↔
      a ≤ i ∧ i < (a :: bs).getLast (List.cons_ne_nil _ _) ∧ k ∈ orderedFormats text active i := by
  induction bs generalizing a with
  | nil =>
      rw [List.getLast_singleton]
      constructor
      · intro h
        exact absurd h Span.has_nil
      · rintro ⟨h₁, h₂, -⟩
        omega
  | cons b rest ih =>
      obtain ⟨hlt, hrest⟩ := List.pairwise_cons.1 hsorted
      have hab : a < b := hlt b List.mem_cons_self
      have hgap : ∀ x ∈ boundaries text active, a < x → b ≤ x := by
        intro x hx hax
        rcases List.mem_cons.1 (hsuffix x hx hax) with rfl | hmem
        · exact Nat.le_refl _
        · exact ((List.pairwise_cons.1 hrest).1 x hmem).le
      have hsuffix' : ∀ x ∈ boundaries text active, b < x → x ∈ rest := by
        intro x hx hbx
        rcases List.mem_cons.1 (hsuffix x hx (hab.trans hbx)) with rfl | hmem
        · exact absurd hbx (Nat.lt_irrefl _)
        · exact hmem
      have hlast : b ≤ (b :: rest).getLast (List.cons_ne_nil _ _) :=
        (hrest.imp Nat.le_of_lt).rel_getLast_of_rel_getLast_getLast List.mem_cons_self (Nat.le_refl _)
      rw [segmentSpans, if_neg (Nat.not_le.2 hab), has_append, has_spansFor, ih b hrest hsuffix',
        List.getLast_cons (List.cons_ne_nil _ _)]
      constructor
      · rintro (⟨hk, hai, hib⟩ | ⟨hbi, hil, hk⟩)
        · exact ⟨hai, by omega, (mem_orderedFormats_within hai hib hgap hactive).1 hk⟩
        · exact ⟨by omega, hil, hk⟩
      · rintro ⟨hai, hil, hk⟩
        by_cases hib : i < b
        · exact .inl ⟨(mem_orderedFormats_within hai hib hgap hactive).2 hk, hai, hib⟩
        · exact .inr ⟨by omega, hil, hk⟩

/-- **The segments give each position the formats of the spans.** -/
theorem has_segmentSpans (text : Text) (spans : List FormatSpan) :
    Span.Has (segmentSpans text (activeSpans text spans)
        (boundaries text (activeSpans text spans))) i k ↔
      Span.Has (clipSpans text spans) i k := by
  have hactive : ∀ s ∈ activeSpans text spans, s.start < text.length := fun s hs => by
    have := (List.mem_filter.1 hs).2
    simp only [Bool.and_eq_true, decide_eq_true_eq] at this
    exact this.2
  obtain ⟨bs, hbs, hlast⟩ := boundaries_eq text (activeSpans text spans)
  have hsorted := pairwise_boundaries text (activeSpans text spans)
  have hfrom := has_segmentSpans_from (i := i) (k := k) hactive 0 bs (hbs ▸ hsorted) fun x hx hpos => by
    rw [hbs] at hx
    exact (List.mem_cons.1 hx).resolve_left (Nat.ne_of_gt hpos)
  rw [hbs, hfrom, hlast, mem_orderedFormats]
  constructor
  · rintro ⟨-, -, s, hs, rfl, hstart, hstop⟩
    exact ⟨_, List.mem_map.2 ⟨s, (List.mem_filter.1 hs).1, rfl⟩, rfl, hstart, hstop⟩
  · rintro ⟨_, hs, rfl, hstart, hstop⟩
    obtain ⟨s, hmem, rfl⟩ := List.mem_map.1 hs
    have hstart : s.start ≤ i := hstart
    have hstop : i < min s.stop text.length := hstop
    refine ⟨Nat.zero_le _, by omega, s, List.mem_filter.2 ⟨hmem, ?_⟩, rfl, hstart, hstop⟩
    simp only [isEmpty, Bool.and_eq_true, Bool.not_eq_true', decide_eq_false_iff_not,
      decide_eq_true_eq]
    omega

end Boundaries

/-! ### The way back -/

section RoundTrip

variable {text : Text} {spans l l' : List FormatSpan} {html : Text} {parseFragment : Text → List Node}

/-- Merged spans are canonical. -/
theorem canonical_mergeFormatSpans (spans : List FormatSpan) :
    Span.Canonical (mergeFormatSpans spans) := by
  obtain ⟨n, hn⟩ : ∃ n, ∀ s ∈ spans, s.stop ≤ n := by
    induction spans with
    | nil => exact ⟨0, fun s hs => by cases hs⟩
    | cons s spans ih =>
        obtain ⟨n, hn⟩ := ih
        refine ⟨max s.stop n, fun b hb => ?_⟩
        rcases List.mem_cons.1 hb with rfl | hb
        · exact le_max_left _ _
        · exact (hn b hb).trans (le_max_right _ _)
  unfold mergeFormatSpans
  have hmem : ∀ s ∈ (spans.filter fun s => !isEmpty s).mergeSort sortsBefore,
      s.start < s.stop ∧ s.stop ≤ n := fun s hs => by
    obtain ⟨hs, hne⟩ := List.mem_filter.1 (List.mem_mergeSort.1 hs)
    exact ⟨isEmpty_eq_false.1 hne, hn s hs⟩
  cases hsorted : (spans.filter fun s => !isEmpty s).mergeSort sortsBefore with
  | nil => exact ⟨List.Pairwise.nil, fun s hs => by cases hs⟩
  | cons s l =>
      have hle : (s :: l).Pairwise Span.Le := hsorted ▸ pairwise_sorted _
      rw [hsorted] at hmem
      exact ⟨Span.separated_sweep hle hmem, fun b hb => (Span.mem_sweep hle hmem b hb).2.1⟩

/-- Canonical spans are merged already. -/
theorem mergeFormatSpans_of_canonical (h : Span.Canonical l) : mergeFormatSpans l = l :=
  (canonical_mergeFormatSpans l).eq_of_has h fun _ _ => has_mergeFormatSpans

theorem mergeSpans_of_canonical (h : Span.Canonical l) : mergeSpans l = l := by
  unfold mergeSpans
  split
  · rfl
  · exact mergeFormatSpans_of_canonical h

/-- The markup of a text with formats. -/
theorem html_eq (h : spansToFormattedHtml text spans = some html) :
    html = (emitTokens text (activeSpans text spans)
      (boundaries text (activeSpans text spans))).flatMap Token.render := by
  simp only [spansToFormattedHtml] at h
  split at h
  · cases h
  · split at h
    · cases h
    · rw [← Option.some.inj h, emitSegments_eq]

/-- **Text and merged spans come back from the HTML.** -/
theorem formattedHtmlToSpans_emit (hparse : ParsesInline parseFragment) (hplain : PlainText text)
    (h : spansToFormattedHtml text spans = some html) :
    formattedHtmlToSpans parseFragment html =
      some (text, mergeFormatSpans (clipSpans text spans)) := by
  obtain ⟨bs, hbs, hlast⟩ := boundaries_eq text (activeSpans text spans)
  have hsorted := pairwise_boundaries text (activeSpans text spans)
  have hcollect := collect_emitTokens hplain (activeSpans text spans) 0 bs (hbs ▸ hsorted)
    (fun b hb => le_of_mem_boundaries (hbs.symm ▸ hb)) [] [] rfl
  rw [hlast, List.take_length, List.nil_append, ← hbs] at hcollect
  unfold formattedHtmlToSpans collect
  rw [html_eq h, strip_render, hparse _ (balanced_emitTokens _), if_neg (by decide), hcollect]
  dsimp only
  rw [mergeFormatSpans_congr fun i k => has_segmentSpans text spans]

/-- A formatted text is not empty, and neither are its spans and its markup. -/
theorem nonempty_of_html (hparse : ParsesInline parseFragment) (hplain : PlainText text)
    (h : spansToFormattedHtml text spans = some html) : spans ≠ [] ∧ html ≠ [] := by
  have hne : ¬(activeSpans text spans = [] ∨ text = []) := by
    intro hnone
    simp only [spansToFormattedHtml, if_pos hnone] at h
    cases h
  refine ⟨fun hnil => hne (.inl (by rw [hnil]; rfl)), fun hnil => hne (.inr ?_)⟩
  have hback := formattedHtmlToSpans_emit hparse hplain h
  have hempty : parseFragment [] = [] := hparse [] rfl
  have hstrip : stripReplyFallbackFormatted [] = [] := rfl
  rw [hnil, formattedHtmlToSpans, hstrip, hempty] at hback
  exact (Prod.mk.inj (Option.some.inj hback)).1.symm

end RoundTrip

/-! ### A message that is saved unchanged -/

section Saving

variable {text : Text} {spans : List FormatSpan} {n : ℕ} {html : Text}
  {parseFragment : Text → List Node}

theorem stop_mergeFormatSpans (h : ∀ s ∈ spans, s.stop ≤ n) :
    ∀ s ∈ mergeFormatSpans spans, s.stop ≤ n := by
  intro s hs
  have hlen := (canonical_mergeFormatSpans spans).nonempty s hs
  have hlast : Span.Has (mergeFormatSpans spans) (s.stop - 1) s.label :=
    ⟨s, hs, rfl, by omega, by omega⟩
  obtain ⟨b, hb, -, -, hstop⟩ := has_mergeFormatSpans.1 hlast
  have := h b hb
  omega

theorem clipSpans_of_le (h : ∀ s ∈ spans, s.stop ≤ text.length) : clipSpans text spans = spans := by
  unfold clipSpans
  conv_rhs => rw [← List.map_id spans]
  refine List.map_congr_left fun s hs => ?_
  rw [Nat.min_eq_left (h s hs)]
  rfl

/-- What was trimmed has nothing left to trim. -/
theorem trim_trimmed (s : Text) : trimLeft (trimRight (trimLeft s)) = trimRight (trimLeft s) ∧
    trimRight (trimRight (trimLeft s)) = trimRight (trimLeft s) := by
  constructor
  · exact dropWhile_trimmed isTrimmed s
  · exact List.rdropWhile_idempotent _ (trimLeft s)

/-- A trimmed text with canonical spans is sent as it is. -/
theorem trimOutgoing_trimmed (hleft : trimLeft text = text) (hright : trimRight text = text)
    (hspans : Span.Canonical spans) (hlen : ∀ s ∈ spans, s.stop ≤ text.length) :
    trimOutgoing text spans = (text, spans) := by
  unfold trimOutgoing
  simp only [hleft, hright, Nat.sub_self, Nat.sub_zero]
  have hsame : (spans.map fun s => (⟨min s.start text.length, min s.stop text.length, s.label⟩ :
      FormatSpan)) = spans := by
    conv_rhs => rw [← List.map_id spans]
    refine List.map_congr_left fun s hs => ?_
    have := hspans.nonempty s hs
    rw [Nat.min_eq_left (hlen s hs), Nat.min_eq_left (by have := hlen s hs; omega)]
    rfl
  rw [hsame, mergeFormatSpans_of_canonical hspans]

/-- What `trimOutgoing` makes: a trimmed text, and canonical spans within it. -/
theorem trimOutgoing_spec (raw : Text) (rawSpans : List FormatSpan) :
    Span.Canonical (trimOutgoing raw rawSpans).2 ∧
      ∀ s ∈ (trimOutgoing raw rawSpans).2, s.stop ≤ (trimOutgoing raw rawSpans).1.length := by
  refine ⟨canonical_mergeFormatSpans _, stop_mergeFormatSpans fun s hs => ?_⟩
  obtain ⟨b, -, rfl⟩ := List.mem_map.1 hs
  exact Nat.min_le_right _ _

theorem setSpans_of_canonical (c : Controller) (hspans : Span.Canonical spans)
    (hlen : ∀ s ∈ spans, s.stop ≤ n) : (c.setSpans spans n).spans = spans := by
  have hsame : (spans.filterMap fun s =>
      let stop := if s.stop > n then n else s.stop
      if s.start ≥ stop then none else some (⟨s.start, stop, s.label⟩ : FormatSpan)) = spans := by
    conv_rhs => rw [← List.filterMap_some (l := spans)]
    refine List.filterMap_congr fun s hs => ?_
    have h₁ := hspans.nonempty s hs
    have h₂ := hlen s hs
    have hstop : (if s.stop > n then n else s.stop) = s.stop := if_neg (by omega)
    simp only [hstop]
    rw [if_neg (by omega)]
  unfold Controller.setSpans
  dsimp only
  rw [hsame, mergeSpans_of_canonical hspans]

/-- The HTML of a message that was sent. -/
theorem sentHtml_some {c : Controller} (h : sentHtml c = some html) :
    spansToFormattedHtml (trimOutgoing c.text c.spans).1 (trimOutgoing c.text c.spans).2 =
      some html := by
  simp only [sentHtml] at h
  split at h
  · exact h
  · cases h

/-- **The field gets back what was sent.** -/
theorem resolveEditPrefill_sent (hparse : ParsesInline parseFragment) {c₀ : Controller}
    (h : sentHtml c₀ = some html) (hplain : PlainText (trimOutgoing c₀.text c₀.spans).1) :
    resolveEditPrefill parseFragment (trimOutgoing c₀.text c₀.spans).1 (sentContent c₀) false =
      trimOutgoing c₀.text c₀.spans := by
  obtain ⟨hcanonical, hlen⟩ := trimOutgoing_spec c₀.text c₀.spans
  have hhtml := sentHtml_some h
  have hback := formattedHtmlToSpans_emit hparse hplain hhtml
  rw [clipSpans_of_le hlen, mergeFormatSpans_of_canonical hcanonical] at hback
  have hne := (nonempty_of_html hparse hplain hhtml).2
  have hcontent : sentContent c₀ = ⟨some customHtml, some html⟩ := by
    unfold sentContent
    rw [h]
  rw [hcontent]
  simp only [resolveEditPrefill, Bool.false_eq_true, if_false, ne_eq, not_true_eq_false, hne, hback]

/-- **A message that is saved unchanged is sent with the same HTML**, where its text is shown as it
was sent and does not begin with a slash. -/
theorem sentHtml_edit (hparse : ParsesInline parseFragment) (c c₀ : Controller)
    (h : sentHtml c₀ = some html) (hplain : PlainText (trimOutgoing c₀.text c₀.spans).1)
    (hslash : (trimOutgoing c₀.text c₀.spans).1.head? ≠ some slash) :
    sentHtml (editEventAction parseFragment c (trimOutgoing c₀.text c₀.spans).1 (sentContent c₀)) =
      some html := by
  obtain ⟨hcanonical, hlen⟩ := trimOutgoing_spec c₀.text c₀.spans
  have hleft : trimLeft (trimOutgoing c₀.text c₀.spans).1 = (trimOutgoing c₀.text c₀.spans).1 :=
    (trim_trimmed c₀.text).1
  have hright : trimRight (trimOutgoing c₀.text c₀.spans).1 = (trimOutgoing c₀.text c₀.spans).1 :=
    (trim_trimmed c₀.text).2
  have hhtml := sentHtml_some h
  have hsame := trimOutgoing_trimmed hleft hright hcanonical hlen
  have hne := (nonempty_of_html hparse hplain hhtml).1
  have hedit : ∀ u : Controller, u.text = (trimOutgoing c₀.text c₀.spans).1 →
      u.spans = (trimOutgoing c₀.text c₀.spans).2 → sentHtml u = some html := by
    intro u htext hspans
    unfold sentHtml
    rw [htext, hspans, hsame]
    simp only [hslash, and_false, not_false_eq_true, true_and, hne, ne_eq, if_true, hhtml]
  refine hedit _ ?_ ?_
  · unfold editEventAction
    rw [resolveEditPrefill_sent hparse h hplain]
    rfl
  · unfold editEventAction
    rw [resolveEditPrefill_sent hparse h hplain]
    exact setSpans_of_canonical _ hcanonical hlen

/-- Where the text that is read is not the plain text, the field gets the plain text without
formats. -/
theorem editEventAction_other (c : Controller) (plainFallback : Text) (content : TextContent)
    (hother : ∀ html ∈ content.formattedBody, ∀ r ∈ formattedHtmlToSpans parseFragment html,
      r.1 ≠ plainFallback) :
    (editEventAction parseFragment c plainFallback content).text = plainFallback ∧
      (editEventAction parseFragment c plainFallback content).spans = [] := by
  have hprefill : resolveEditPrefill parseFragment plainFallback content false =
      (plainFallback, []) := by
    simp only [resolveEditPrefill, Bool.false_eq_true, if_false]
    split
    · rfl
    split
    · rfl
    rename_i html hhtml
    split
    · rfl
    split
    · rfl
    rename_i text spans hback
    exact if_pos (hother html hhtml (text, spans) hback)
  unfold editEventAction
  rw [hprefill]
  exact ⟨rfl, rfl⟩

end Saving

/-- **A formatted message comes back.**  Where the parser follows the standard, every text without
a carriage return and a NUL comes back from its HTML with its spans, cut off at its end and
merged.  An own message whose plain text is the text that was sent, and that does not begin with a
slash, is sent with the same HTML when it is saved unchanged.  Where the text that is read is not
the plain text, the formats are given up. -/
theorem formatted_round_trip (parseFragment : Text → List Node) (hparse : ParsesInline parseFragment) :
    (∀ text spans html, PlainText text → spansToFormattedHtml text spans = some html →
      formattedHtmlToSpans parseFragment html =
        some (text, mergeFormatSpans (clipSpans text spans))) ∧
    (∀ c c₀ html, sentHtml c₀ = some html → PlainText (trimOutgoing c₀.text c₀.spans).1 →
      (trimOutgoing c₀.text c₀.spans).1.head? ≠ some slash →
      sentHtml (editEventAction parseFragment c (trimOutgoing c₀.text c₀.spans).1
        (sentContent c₀)) = some html) ∧
    ∀ c plainFallback content, (∀ html ∈ content.formattedBody,
        ∀ r ∈ formattedHtmlToSpans parseFragment html, r.1 ≠ plainFallback) →
      (editEventAction parseFragment c plainFallback content).text = plainFallback ∧
        (editEventAction parseFragment c plainFallback content).spans = [] :=
  ⟨fun _ _ _ hplain h => formattedHtmlToSpans_emit hparse hplain h,
    fun c c₀ _ h hplain hslash => sentHtml_edit hparse c c₀ h hplain hslash,
    fun c plainFallback content hother => editEventAction_other c plainFallback content hother⟩

/-! ### A parser for balanced markup -/

/-- The tokens whose markup is more than one code unit. -/
def markupTokens : List Token :=
  [Token.char ampersand, .char lessThan, .char greaterThan, .br] ++ tagOrder.map Token.start ++
    tagOrder.map Token.stop

/-- The first token, and what comes behind it. -/
def nextToken (c : UInt16) (s : Text) : Token × Text :=
  match markupTokens.find? fun t => t.render.isPrefixOf (c :: s) with
  | some t => (t, (c :: s).drop t.render.length)
  | none => (.char c, s)

/-- The tokens of at most `n` code units. -/
def tokenize : ℕ → Text → List Token
  | 0, _ => []
  | _, [] => []
  | n + 1, c :: s => (nextToken c s).1 :: tokenize n (nextToken c s).2

/-- A parser that follows the standard on balanced markup. -/
def inlineParser (html : Text) : List Node := build [] [] (tokenize html.length html)

/-- No markup begins another one. -/
theorem markup_prefix_free :
    ∀ t ∈ markupTokens, ∀ u ∈ markupTokens, t.render.isPrefixOf u.render = true → t = u := by
  decide +kernel

theorem head_markup : ∀ t ∈ markupTokens,
    t.render.head? = some ampersand ∨ t.render.head? = some lessThan := by
  decide +kernel

/-- A token is one of the list, or a code unit that stands for itself. -/
theorem mem_markupTokens (t : Token) :
    t ∈ markupTokens ∨ ∃ c, t = .char c ∧ t.render = [c] ∧ c ≠ ampersand ∧ c ≠ lessThan := by
  cases t with
  | char c =>
      by_cases hamp : c = ampersand
      · exact .inl (by simp [markupTokens, hamp])
      by_cases hlt : c = lessThan
      · exact .inl (by simp [markupTokens, hlt])
      by_cases hgt : c = greaterThan
      · exact .inl (by simp [markupTokens, hgt])
      exact .inr ⟨c, rfl, by simp [Token.render, hamp, hlt, hgt], hamp, hlt⟩
  | br => exact .inl (by simp [markupTokens])
  | start f => exact .inl (by cases f <;> simp [markupTokens, tagOrder])
  | stop f => exact .inl (by cases f <;> simp [markupTokens, tagOrder])

theorem nextToken_render (t : Token) (s : Text) :
    ∃ c r, t.render ++ s = c :: r ∧ nextToken c r = (t, s) := by
  rcases mem_markupTokens t with hmem | ⟨c, rfl, hrender, hamp, hlt⟩
  · -- the markup that is found begins the text as `t` does, so it is that of `t`
    cases happ : t.render ++ s with
    | nil =>
        have hnil := (List.append_eq_nil_iff.1 happ).1
        rcases head_markup t hmem with h | h <;> rw [hnil] at h <;> cases h
    | cons c r =>
        refine ⟨c, r, rfl, ?_⟩
        have hself : t.render.isPrefixOf (c :: r) = true :=
          List.isPrefixOf_iff_prefix.2 ⟨s, happ⟩
        obtain ⟨u, hfound⟩ : ∃ u,
            (markupTokens.find? fun t => t.render.isPrefixOf (c :: r)) = some u :=
          Option.isSome_iff_exists.1 (List.find?_isSome.2 ⟨t, hmem, hself⟩)
        have hfits : u.render.isPrefixOf (c :: r) = true :=
          List.find?_some (p := fun t : Token => t.render.isPrefixOf (c :: r)) hfound
        have hu := List.isPrefixOf_iff_prefix.1 hfits
        have humem := List.mem_of_find?_eq_some hfound
        have hut : u = t := by
          rcases List.prefix_or_prefix_of_prefix hu (List.isPrefixOf_iff_prefix.1 hself) with h | h
          · exact markup_prefix_free u humem t hmem (List.isPrefixOf_iff_prefix.2 h)
          · exact (markup_prefix_free t hmem u humem (List.isPrefixOf_iff_prefix.2 h)).symm
        unfold nextToken
        rw [hfound, hut, ← happ]
        simp
  · refine ⟨c, s, by rw [hrender]; rfl, ?_⟩
    have hnone : (markupTokens.find? fun t => t.render.isPrefixOf (c :: s)) = none := by
      refine List.find?_eq_none.2 fun u hu hpre => ?_
      obtain ⟨r, hr⟩ := List.isPrefixOf_iff_prefix.1 hpre
      have hhead := head_markup u hu
      cases hrender : u.render with
      | nil =>
          rw [hrender] at hhead
          rcases hhead with h | h <;> cases h
      | cons d l =>
          rw [hrender] at hhead hr
          obtain ⟨rfl, -⟩ := List.cons.inj hr
          rcases hhead with h | h
          · exact hamp (Option.some.inj h)
          · exact hlt (Option.some.inj h)
    unfold nextToken
    rw [hnone]

theorem tokenize_render (tokens : List Token) (n : ℕ)
    (hn : (tokens.flatMap Token.render).length ≤ n) :
    tokenize n (tokens.flatMap Token.render) = tokens := by
  induction tokens generalizing n with
  | nil => cases n <;> rfl
  | cons t tokens ih =>
      obtain ⟨c, r, heq, hnext⟩ := nextToken_render t (tokens.flatMap Token.render)
      rw [List.flatMap_cons] at hn ⊢
      have hpos : 0 < t.render.length := by
        rcases mem_markupTokens t with hmem | ⟨c, -, hrender, -⟩
        · refine List.length_pos_of_ne_nil fun hnil => ?_
          rcases head_markup t hmem with h | h <;> rw [hnil] at h <;> cases h
        · rw [hrender]
          exact Nat.zero_lt_one
      rw [List.length_append] at hn
      cases n with
      | zero => omega
      | succ n =>
          rw [heq, tokenize, hnext, ih n (by omega)]

/-- It does follow the standard there. -/
theorem inlineParser_parses : ParsesInline inlineParser := by
  intro tokens _
  unfold inlineParser
  rw [tokenize_render tokens _ (Nat.le_refl _)]

/-- A bold text of two lines with an escaped character, and italic within it. -/
theorem formatted_round_trip_nested :
    ∃ html, spansToFormattedHtml (units "a<b\nc") [⟨0, 9, .bold⟩, ⟨2, 4, .italic⟩] = some html ∧
      formattedHtmlToSpans inlineParser html =
        some (units "a<b\nc", [⟨0, 5, .bold⟩, ⟨2, 4, .italic⟩]) := by
  obtain ⟨html, hhtml⟩ := Option.isSome_iff_exists.1 (show (spansToFormattedHtml (units "a<b\nc")
    [⟨0, 9, .bold⟩, ⟨2, 4, .italic⟩]).isSome = true by decide +kernel)
  have hback := (formatted_round_trip inlineParser inlineParser_parses).1 _ _ html
    (show PlainText (units "a<b\nc") by decide +kernel) hhtml
  have hclip : clipSpans (units "a<b\nc") [⟨0, 9, .bold⟩, ⟨2, 4, .italic⟩] =
      [⟨0, 5, .bold⟩, ⟨2, 4, .italic⟩] := by decide +kernel
  have hcanonical : Span.Canonical
      [(⟨0, 5, .bold⟩ : FormatSpan), ⟨2, 4, .italic⟩] := by
    refine ⟨List.pairwise_pair.2 (.inl ?_), ?_⟩
    · decide
    · decide
  rw [hclip, mergeFormatSpans_of_canonical hcanonical] at hback
  exact ⟨html, hhtml, hback⟩

section Changed

variable {text trimmed : Text} {s s' : FormatSpan} {html : Text}

theorem mergeFormatSpans_single (h : s.start < s.stop) : mergeFormatSpans [s] = [s] := by
  refine mergeFormatSpans_of_canonical ⟨List.pairwise_singleton _ _, fun b hb => ?_⟩
  rw [List.mem_singleton.1 hb]
  exact h

/-- A text with one span is trimmed. -/
theorem trimOutgoing_single (htext : trimRight (trimLeft text) = trimmed)
    (hspan : (⟨min (s.start - (text.length - (trimLeft text).length)) trimmed.length,
      min (s.stop - (text.length - (trimLeft text).length)) trimmed.length, s.label⟩ :
        FormatSpan) = s') (hne : s'.start < s'.stop) :
    trimOutgoing text [s] = (trimmed, [s']) := by
  simp only [trimOutgoing, htext, List.map_cons, List.map_nil, hspan, mergeFormatSpans_single hne]

/-- Without spans there is no HTML. -/
theorem sentHtml_of_nil {c : Controller} (h : c.spans = []) : sentHtml c = none := by
  simp [sentHtml, h]

end Changed

/-- **A message whose body names a mention is sent without its formats when it is saved
unchanged**: the text that was formatted is not its body. -/
theorem formatted_message_changed :
    (sentHtml ⟨units "@Ann hi", ⟨-1, -1⟩, [⟨5, 7, .bold⟩]⟩).isSome = true ∧
      sentHtml (editEventAction inlineParser (.new []) (units "@[Ann Lee] hi")
        (sentContent ⟨units "@Ann hi", ⟨-1, -1⟩, [⟨5, 7, .bold⟩]⟩)) = none := by
  have hout : trimOutgoing (units "@Ann hi") [⟨5, 7, .bold⟩] = (units "@Ann hi", [⟨5, 7, .bold⟩]) :=
    trimOutgoing_single (by decide +kernel) (by decide +kernel) (by decide)
  have hsent : sentHtml ⟨units "@Ann hi", ⟨-1, -1⟩, [⟨5, 7, .bold⟩]⟩ =
      spansToFormattedHtml (units "@Ann hi") [⟨5, 7, .bold⟩] := by
    simp only [sentHtml, hout]
    exact if_pos (by decide +kernel)
  obtain ⟨html, hhtml⟩ := Option.isSome_iff_exists.1 (show (spansToFormattedHtml (units "@Ann hi")
    [⟨5, 7, .bold⟩]).isSome = true by decide +kernel)
  refine ⟨by rw [hsent, hhtml]; rfl, sentHtml_of_nil (editEventAction_other _ _ _ ?_).2⟩
  -- the text that is read is the one that was sent
  intro html' hhtml' r hr
  have heq : html' = html := by
    rw [sentContent, hsent, hhtml] at hhtml'
    exact (Option.some.inj hhtml').symm
  rw [heq, formattedHtmlToSpans_emit inlineParser_parses (by decide +kernel) hhtml] at hr
  rw [← Option.some.inj hr]
  decide +kernel

end Formatting
end Client
end Liza
