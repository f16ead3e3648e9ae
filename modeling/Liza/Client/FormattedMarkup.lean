/-
# What the emitter writes, and what is read from it

The markup of `spansToFormattedHtml` is balanced (`balanced_emitTokens`) and holds no `<mx-reply>`
(`strip_render`).  So the parser builds from it the nodes that the standard says, and `_collect`
reads from them the text and, for each segment, one span of each of its formats
(`collect_emitTokens`).  `addChar` joins texts that stand side by side; what is collected from the
nodes built so far does not depend on that (`collect_addChar`).
-/

import Liza.Client.FormattedHtml
import Mathlib.Data.List.Basic

set_option autoImplicit false

namespace Liza
namespace Client
namespace Formatting

open Lib

/-! ### The emitter writes tokens -/

/-- The token of a code unit of the text. -/
def charToken (c : UInt16) : Token := if c = lineFeed then .br else .char c

/-- The tokens of a segment, with its formats from the outside in. -/
def segmentTokens (formats : List MessageFormat) (chunk : Text) : List Token :=
  formats.map .start ++ chunk.map charToken ++ formats.reverse.map .stop

/-- The formats of a segment from the outside in. -/
def orderedFormats (text : Text) (active : List FormatSpan) (segStart : ℕ) : List MessageFormat :=
  tagOrder.filter fun f => f ∈ segmentFormats text active segStart

/-- The tokens of the segments between the boundaries. -/
def emitTokens (text : Text) (active : List FormatSpan) : List ℕ → List Token
  | segStart :: segEnd :: rest =>
      (if segEnd ≤ segStart then []
        else segmentTokens (orderedFormats text active segStart)
          ((text.take segEnd).drop segStart)) ++ emitTokens text active (segEnd :: rest)
  | _ => []

section Emitting

variable {text : Text} {active : List FormatSpan}

theorem replaceAll_append (c : UInt16) (r s t : Text) :
    replaceAll c r (s ++ t) = replaceAll c r s ++ replaceAll c r t := List.flatMap_append

theorem escapeHtml_cons (c : UInt16) (s : Text) :
    escapeHtml (c :: s) = escapeHtml [c] ++ escapeHtml s := by
  rw [← List.singleton_append]
  simp only [escapeHtml, replaceAll_append]

theorem escapeHtml_single (c : UInt16) : escapeHtml [c] = (charToken c).render := by
  by_cases hamp : c = ampersand
  · subst hamp
    decide
  by_cases hlt : c = lessThan
  · subst hlt
    decide
  by_cases hgt : c = greaterThan
  · subst hgt
    decide
  by_cases hlf : c = lineFeed
  · subst hlf
    decide
  simp [escapeHtml, replaceAll, charToken, Token.render, hamp, hlt, hgt, hlf]

/-- Escaping goes code unit by code unit. -/
theorem escapeHtml_eq (s : Text) : escapeHtml s = (s.map charToken).flatMap Token.render := by
  induction s with
  | nil => rfl
  | cons c s ih =>
      rw [escapeHtml_cons, escapeHtml_single, ih]
      rfl

theorem wrapChunk_eq (chunk : Text) (formats : List MessageFormat) :
    wrapChunk (escapeHtml chunk) formats =
      (segmentTokens (tagOrder.filter fun f => f ∈ formats) chunk).flatMap Token.render := by
  unfold wrapChunk segmentTokens
  generalize tagOrder.filter (fun f => f ∈ formats) = ordered
  have hopen : (ordered.map Token.start).flatMap Token.render = ordered.flatMap openTag :=
    List.flatMap_map ..
  have hclose : (ordered.reverse.map Token.stop).flatMap Token.render =
      (ordered.map closeTag).reverse.flatten := by
    rw [List.flatMap_map, List.flatMap_def, List.map_reverse]
    rfl
  rw [List.flatMap_append, List.flatMap_append, hopen, hclose, escapeHtml_eq]

theorem emitSegments_eq (bs : List ℕ) :
    emitSegments text active bs = (emitTokens text active bs).flatMap Token.render := by
  induction bs with
  | nil => rfl
  | cons a bs ih =>
      cases bs with
      | nil => rfl
      | cons b rest =>
          rw [emitSegments, emitTokens, List.flatMap_append, ih]
          congr 1
          split
          · rfl
          · exact wrapChunk_eq _ _

/-! ### The markup is balanced -/

theorem balanced_chars (s : Text) (open_ : List MessageFormat) (rest : List Token) :
    Balanced open_ (s.map charToken ++ rest) ↔ Balanced open_ rest := by
  induction s with
  | nil => rfl
  | cons c s ih =>
      rw [List.map_cons, List.cons_append, ← ih]
      unfold charToken
      split
      · rfl
      · rename_i hne
        simp only [Balanced, ne_eq, hne, not_false_eq_true, true_and]

theorem balanced_segmentTokens (formats : List MessageFormat) (chunk : Text)
    (open_ : List MessageFormat) (rest : List Token) :
    Balanced open_ (segmentTokens formats chunk ++ rest) ↔ Balanced open_ rest := by
  induction formats generalizing open_ rest with
  | nil =>
      have heq : segmentTokens [] chunk = chunk.map charToken := List.append_nil _
      rw [heq, balanced_chars]
  | cons f formats ih =>
      have heq : segmentTokens (f :: formats) chunk ++ rest =
          .start f :: (segmentTokens formats chunk ++ (.stop f :: rest)) := by
        simp [segmentTokens, List.append_assoc]
      rw [heq]
      show Balanced (f :: open_) _ ↔ _
      rw [ih]
      simp only [Balanced, true_and]

theorem balanced_emitTokens (bs : List ℕ) : Balanced [] (emitTokens text active bs) := by
  induction bs with
  | nil => exact rfl
  | cons a bs ih =>
      cases bs with
      | nil => exact rfl
      | cons b rest =>
          rw [emitTokens]
          split
          · exact ih
          · exact (balanced_segmentTokens _ _ _ _).2 ih

end Emitting

/-! ### The markup holds no quoted message -/

/-- No `<` is followed by an `m`. -/
def NoReply : Text → Prop
  | [] => True
  | c :: s => (c = lessThan → ∀ d ∈ s.head?, foldCase d ≠ 109) ∧ NoReply s

section Stripping

variable {s : Text}

theorem foldCase_eq_lessThan {c : UInt16} (h : foldCase c = lessThan) : c = lessThan := by
  unfold foldCase at h
  split at h
  · rename_i hrange
    have hc : c = 28 := by
      have : c + 32 - 32 = lessThan - 32 := by rw [h]
      simpa [lessThan] using this
    subst hc
    exact absurd hrange (by decide)
  · exact h

theorem not_beginsWith {c : UInt16} (h : NoReply (c :: s)) :
    beginsWith (units "<mx-reply>") (c :: s) = false := by
  by_contra hne
  have hword : ((c :: s).take (units "<mx-reply>").length).map foldCase = units "<mx-reply>" := by
    simpa [beginsWith] using hne
  have hlen : (units "<mx-reply>").length = 8 + 2 := by decide
  rw [hlen] at hword
  cases s with
  | nil =>
      have hshort := congrArg List.length hword
      simp [units] at hshort
  | cons d s =>
      have hparts : foldCase c = lessThan ∧ foldCase d = 109 := by
        have hunits : units "<mx-reply>" = lessThan :: 109 :: units "x-reply>" := by decide
        rw [hunits] at hword
        simp only [List.take_succ_cons, List.map_cons, List.cons.injEq] at hword
        exact ⟨hword.1, hword.2.1⟩
      exact h.1 (foldCase_eq_lessThan hparts.1) d rfl hparts.2

theorem strip_of_noReply (h : NoReply s) (n : ℕ) : stripMxReply n s = s := by
  induction s generalizing n with
  | nil => cases n <;> rfl
  | cons c s ih =>
      cases n with
      | zero => rfl
      | succ n =>
          rw [stripMxReply, not_beginsWith h, ih h.2]
          rfl

/-- Texts without a reply do not make one together, if the first does not end in a `<`. -/
theorem noReply_append {t : Text} (ht : NoReply t) (hlast : t.getLast? ≠ some lessThan)
    (h : NoReply s) : NoReply (t ++ s) := by
  induction t with
  | nil => exact h
  | cons c t ih =>
      cases t with
      | nil => exact ⟨fun hc => absurd (congrArg some hc) hlast, h⟩
      | cons d t => exact ⟨ht.1, ih ht.2 (by simpa using hlast)⟩

instance decidableNoReply : (t : Text) → Decidable (NoReply t)
  | [] => instDecidableTrue
  | c :: t =>
      have := decidableNoReply t
      have : Decidable (∀ d ∈ t.head?, foldCase d ≠ 109) := Option.decidableForallMem t.head?
      inferInstanceAs (Decidable ((c = lessThan → ∀ d ∈ t.head?, foldCase d ≠ 109) ∧ NoReply t))

theorem noReply_render (t : Token) (h : NoReply s) : NoReply (t.render ++ s) := by
  cases t with
  | char c =>
      show NoReply ((if c = ampersand then _ else if c = lessThan then _
        else if c = greaterThan then _ else [c]) ++ s)
      split
      · exact noReply_append (by decide) (by decide) h
      split
      · exact noReply_append (by decide) (by decide) h
      split
      · exact noReply_append (by decide) (by decide) h
      · rename_i hlt _
        exact ⟨fun heq => absurd heq hlt, h⟩
  | br => exact noReply_append (by decide) (by decide) h
  | start f => cases f <;> exact noReply_append (by decide) (by decide) h
  | stop f => cases f <;> exact noReply_append (by decide) (by decide) h

/-- **Nothing is stripped from rendered tokens.** -/
theorem strip_render (tokens : List Token) :
    stripReplyFallbackFormatted (tokens.flatMap Token.render) = tokens.flatMap Token.render := by
  refine strip_of_noReply ?_ _
  induction tokens with
  | nil => exact trivial
  | cons t tokens ih =>
      rw [List.flatMap_cons]
      exact noReply_render t ih

end Stripping

/-! ### What is collected -/

/-- A text that the parser leaves as it is. -/
def PlainText (text : Text) : Prop := ∀ c ∈ text, c ≠ 0 ∧ c ≠ carriageReturn

instance (text : Text) : Decidable (PlainText text) := List.decidableBAll _ text

/-- The spans of a segment, from the inside out. -/
def spansFor (formats : List MessageFormat) (start stop : ℕ) : List FormatSpan :=
  formats.reverse.map fun f => ⟨start, stop, f⟩

/-- The spans of the segments between the boundaries. -/
def segmentSpans (text : Text) (active : List FormatSpan) : List ℕ → List FormatSpan
  | segStart :: segEnd :: rest =>
      (if segEnd ≤ segStart then []
        else spansFor (orderedFormats text active segStart) segStart segEnd) ++
        segmentSpans text active (segEnd :: rest)
  | _ => []

section Collecting

variable {d : ℕ} {acc : Collected} {nodes : List Node}

theorem collectNodes_append (d : ℕ) (acc : Collected) (l₁ l₂ : List Node) :
    collectNodes d acc (l₁ ++ l₂) =
      (collectNodes d acc l₁).bind fun acc' => collectNodes d acc' l₂ := by
  induction l₁ generalizing acc with
  | nil => rfl
  | cons node l₁ ih =>
      simp only [List.cons_append, collectNodes]
      cases collectNode d acc node with
      | none => rfl
      | some acc' => exact ih acc'

/-- The last node is collected last. -/
theorem collectNodes_reverse_cons (d : ℕ) (acc : Collected) (node : Node) (nodes : List Node) :
    collectNodes d acc (node :: nodes).reverse =
      (collectNodes d acc nodes.reverse).bind fun acc' => collectNode d acc' node := by
  rw [List.reverse_cons, collectNodes_append]
  congr 1
  funext acc'
  simp only [collectNodes]
  cases collectNode d acc' node <;> rfl

/-- A character adds to the text, whether or not it begins one. -/
theorem collect_addChar (d : ℕ) (acc : Collected) (c : UInt16) (nodes : List Node) :
    collectNodes d acc (addChar c nodes).reverse =
      (collectNodes d acc nodes.reverse).map fun r => (r.1 ++ [c], r.2) := by
  have hnew : collectNodes d acc (.text [c] :: nodes).reverse =
      (collectNodes d acc nodes.reverse).map fun r => (r.1 ++ [c], r.2) := by
    rw [collectNodes_reverse_cons]
    cases collectNodes d acc nodes.reverse <;> rfl
  cases nodes with
  | nil => exact hnew
  | cons node nodes =>
      cases node with
      | text data =>
          simp only [addChar]
          rw [collectNodes_reverse_cons, collectNodes_reverse_cons]
          cases collectNodes d acc nodes.reverse with
          | none => rfl
          | some r => simp [collectNode]
      | element name attributes inner => exact hnew
      | other => exact hnew

theorem collect_br (d : ℕ) (acc : Collected) (nodes : List Node) :
    collectNodes d acc (.element (units "br") [] [] :: nodes).reverse =
      (collectNodes d acc nodes.reverse).map fun r => (r.1 ++ [lineFeed], r.2) := by
  rw [collectNodes_reverse_cons]
  cases collectNodes d acc nodes.reverse with
  | none => rfl
  | some r => simp [collectNode]

/-- What is collected from the element of a format. -/
theorem collect_elementOf (acc : Collected) (f : MessageFormat) (inner : List Node)
    (hd : d + 1 < maxDepth) :
    collectNode d acc (elementOf f inner) = (collectNodes (d + 1) acc inner).map fun r =>
      (r.1, r.2 ++ [⟨acc.1.length, r.1.length, f⟩]) := by
  have helement : ∃ name attributes, elementOf f inner = .element name attributes inner ∧
      name ≠ units "br" ∧ formatOf name attributes = some f := by
    cases f <;> exact ⟨_, _, rfl, by decide, by decide⟩
  obtain ⟨name, attributes, heq, hbr, hformat⟩ := helement
  rw [heq]
  simp only [collectNode, hbr, if_false, hformat, Nat.not_le.2 hd]
  cases collectNodes (d + 1) acc inner <;> rfl

/-- **The characters of a chunk.** -/
theorem build_chars (chunk : Text) (hplain : PlainText chunk) (open_ : List (List Node))
    (nodes : List Node) (rest : List Token) :
    ∃ nodes', build open_ nodes (chunk.map charToken ++ rest) = build open_ nodes' rest ∧
      ∀ d acc, collectNodes d acc nodes'.reverse =
        (collectNodes d acc nodes.reverse).map fun r => (r.1 ++ chunk, r.2) := by
  induction chunk generalizing nodes with
  | nil => exact ⟨nodes, rfl, fun d acc => by simp⟩
  | cons c chunk ih =>
      obtain ⟨hnul, hcr⟩ := hplain c List.mem_cons_self
      have hrest : PlainText chunk := fun x hx => hplain x (List.mem_cons_of_mem _ hx)
      -- one character makes nodes from which it is collected
      obtain ⟨nodes₁, hbuild, hone⟩ : ∃ nodes₁,
          build open_ nodes (charToken c :: (chunk.map charToken ++ rest)) =
            build open_ nodes₁ (chunk.map charToken ++ rest) ∧
          ∀ d acc, collectNodes d acc nodes₁.reverse =
            (collectNodes d acc nodes.reverse).map fun r => (r.1 ++ [c], r.2) := by
        unfold charToken
        split
        · rename_i hlf
          subst hlf
          exact ⟨_, rfl, fun d acc => collect_br d acc nodes⟩
        · refine ⟨addChar c nodes, ?_, fun d acc => collect_addChar d acc c nodes⟩
          simp only [build, hnul, hcr, if_false]
      obtain ⟨nodes', hbuild', hall⟩ := ih hrest nodes₁
      refine ⟨nodes', hbuild.trans hbuild', fun d acc => ?_⟩
      rw [hall, hone, Option.map_map]
      congr 1
      funext r
      simp

/-- **A chunk within its tags.** -/
theorem build_segment (formats : List MessageFormat) (chunk : Text) (hplain : PlainText chunk)
    (open_ : List (List Node)) (nodes : List Node) (rest : List Token) :
    ∃ nodes', build open_ nodes (segmentTokens formats chunk ++ rest) = build open_ nodes' rest ∧
      ∀ d acc, d + formats.length < maxDepth → collectNodes d acc nodes'.reverse =
        (collectNodes d acc nodes.reverse).map fun r => (r.1 ++ chunk,
          r.2 ++ spansFor formats r.1.length (r.1.length + chunk.length)) := by
  induction formats generalizing open_ nodes rest with
  | nil =>
      obtain ⟨nodes', hbuild, hall⟩ := build_chars chunk hplain open_ nodes rest
      have heq : segmentTokens [] chunk = chunk.map charToken := List.append_nil _
      refine ⟨nodes', by rw [heq, hbuild], fun d acc _ => ?_⟩
      rw [hall]
      congr 1
      funext r
      simp [spansFor]
  | cons f formats ih =>
      obtain ⟨inner, hbuild, hall⟩ := ih (nodes :: open_) [] (.stop f :: rest)
      have heq : segmentTokens (f :: formats) chunk ++ rest =
          .start f :: (segmentTokens formats chunk ++ (.stop f :: rest)) := by
        simp [segmentTokens, List.append_assoc]
      refine ⟨elementOf f inner.reverse :: nodes, ?_, fun d acc hdepth => ?_⟩
      · rw [heq]
        exact hbuild
      · rw [List.length_cons] at hdepth
        rw [collectNodes_reverse_cons]
        cases hnodes : collectNodes d acc nodes.reverse with
        | none => rfl
        | some r =>
            have hinner := hall (d + 1) r (by omega)
            have hnil : collectNodes (d + 1) r ([] : List Node).reverse = some r := rfl
            rw [hnil, Option.map_some] at hinner
            rw [Option.bind_some, collect_elementOf r f inner.reverse (by omega), hinner]
            simp [spansFor]

/-- The tags of a segment are not deep. -/
theorem length_orderedFormats (text : Text) (active : List FormatSpan) (segStart : ℕ) :
    (orderedFormats text active segStart).length ≤ 6 := List.length_filter_le _ _

/-- **What is collected from the segments between the boundaries**, behind the nodes of the text
before the first one. -/
theorem collect_emitTokens {text : Text} (hplain : PlainText text) (active : List FormatSpan)
    (a : ℕ) (bs : List ℕ) (hsorted : (a :: bs).Pairwise (· < ·))
    (hlen : ∀ b ∈ a :: bs, b ≤ text.length) (nodes : List Node) (spans : List FormatSpan)
    (hnodes : collectNodes 0 ([], []) nodes.reverse = some (text.take a, spans)) :
    collectNodes 0 ([], []) (build [] nodes (emitTokens text active (a :: bs))) =
      some (text.take ((a :: bs).getLast (List.cons_ne_nil _ _)),
        spans ++ segmentSpans text active (a :: bs)) := by
  induction bs generalizing a nodes spans with
  | nil =>
      rw [List.getLast_singleton]
      show collectNodes 0 ([], []) nodes.reverse = some (text.take a, spans ++ [])
      rw [hnodes, List.append_nil]
  | cons b rest ih =>
      have hab : a < b := (List.pairwise_cons.1 hsorted).1 b List.mem_cons_self
      have hb : b ≤ text.length := hlen b (List.mem_cons_of_mem _ List.mem_cons_self)
      have hchunk : PlainText ((text.take b).drop a) := fun c hc =>
        hplain c (List.mem_of_mem_take (List.mem_of_mem_drop hc))
      have hjoin : text.take a ++ (text.take b).drop a = text.take b := by
        have hmin : (text.take b).take a = text.take a := by
          rw [List.take_take, Nat.min_eq_left hab.le]
        rw [← hmin, List.take_append_drop]
      obtain ⟨nodes', hbuild, hall⟩ := build_segment (orderedFormats text active a) _ hchunk [] nodes
        (emitTokens text active (b :: rest))
      have hsegment := hall 0 ([], []) (by
        have := length_orderedFormats text active a
        unfold maxDepth
        omega)
      rw [hnodes, Option.map_some, hjoin] at hsegment
      have hstart : (text.take a).length = a := List.length_take_of_le (by omega)
      have hstop : (text.take a).length + ((text.take b).drop a).length = b := by
        rw [← List.length_append, hjoin]
        exact List.length_take_of_le hb
      rw [hstop, hstart] at hsegment
      rw [emitTokens, if_neg (Nat.not_le.2 hab), hbuild,
        ih b (List.pairwise_cons.1 hsorted).2 (fun c hc => hlen c (List.mem_cons_of_mem _ hc)) _ _
          hsegment,
        List.getLast_cons (List.cons_ne_nil _ _), List.append_assoc]
      have hspans : segmentSpans text active (a :: b :: rest) =
          spansFor (orderedFormats text active a) a b ++ segmentSpans text active (b :: rest) := by
        rw [segmentSpans, if_neg (Nat.not_le.2 hab)]
      rw [hspans]

end Collecting

end Formatting
end Client
end Liza
