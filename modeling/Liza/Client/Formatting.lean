/-
# The formatting of a message that is being written

`clients/flutter/lib/utils/formatting_text_controller.dart`.  The controller of the input field
keeps the formatting that the user has set beside the plain text, as a list of ranges
(`FormatSpan`).  When the text is changed, the ranges are shifted by what the common prefix and
the common suffix of the old and the new text leave in between; then empty ranges are dropped
and those of one format that overlap or touch are merged.

A text is a list of UTF-16 code units, and offsets count them; `FormatSpan` asserts that its
offsets are not negative.  `jsonDecode` is a parameter: whatever it returns for the text of a
draft, `FormatSpan.fromJson` checks it.
-/

import Liza.Lib.Json
import Liza.Lib.Spans
import Mathlib.Data.Finset.Dedup

set_option autoImplicit false

namespace Liza
namespace Client
namespace Formatting

open Lib

/-- A Dart string, as UTF-16 code units. -/
abbrev Text := List UInt16

instance lawfulBEq_text : LawfulBEq Text := List.instLawfulBEq

/-- `MessageFormat`. -/
inductive MessageFormat where
  | bold
  | italic
  | underline
  | strikethrough
  | monospace
  | spoiler
deriving DecidableEq, Repr

namespace MessageFormat

/-- `MessageFormat.index`. -/
def index : MessageFormat → ℕ
  | bold => 0
  | italic => 1
  | underline => 2
  | strikethrough => 3
  | monospace => 4
  | spoiler => 5

theorem index_injective : Function.Injective index := by
  intro a b h
  cases a <;> cases b <;> first | rfl | exact absurd h (by decide)

instance : LinearOrder MessageFormat := LinearOrder.lift' index index_injective

/-- `MessageFormat.values`. -/
def values : List MessageFormat := [bold, italic, underline, strikethrough, monospace, spoiler]

/-- `MessageFormat.name`. -/
def name : MessageFormat → PyStr
  | bold => "bold"
  | italic => "italic"
  | underline => "underline"
  | strikethrough => "strikethrough"
  | monospace => "monospace"
  | spoiler => "spoiler"

end MessageFormat

/-- `FormatSpan`: the label is the format. -/
abbrev FormatSpan := Span MessageFormat

/-- `FormatSpan.isEmpty`. -/
def isEmpty (s : FormatSpan) : Bool := s.stop ≤ s.start

/-- `FormatSpan.fromJson`, on the elements that are maps. -/
def fromJson : Json → Option FormatSpan
  | .obj d =>
      match Dict.get? d "start", Dict.get? d "end", Dict.get? d "format" with
      | some (.int start), some (.int stop), some (.str formatName) =>
          match MessageFormat.values.find? fun f => f.name = formatName with
          | none => none
          | some format =>
              if stop ≤ start ∨ start < 0 then none else some ⟨start.toNat, stop.toNat, format⟩
      | _, _, _ => none
  | _ => none

/-! ### Merging -/

/-- The order of `mergeFormatSpans`.  Spans that compare equal touch each other. -/
def sortsBefore (a b : FormatSpan) : Bool :=
  if a.label.index ≠ b.label.index then a.label.index < b.label.index else a.start ≤ b.start

/-- `mergeFormatSpans`. -/
def mergeFormatSpans (spans : List FormatSpan) : List FormatSpan :=
  match (spans.filter fun s => !isEmpty s).mergeSort sortsBefore with
  | [] => []
  | s :: l => Span.sweep s l

/-- `_mergeSpans`. -/
def mergeSpans (spans : List FormatSpan) : List FormatSpan :=
  if spans.length < 2 then spans else mergeFormatSpans spans

/-! ### A changed text -/

/-- `while (i < bound && test(i)) i++`. -/
def countWhile (test : ℕ → Bool) (bound i : ℕ) : ℕ :=
  if i < bound then if test i then countWhile test bound (i + 1) else i else i
termination_by bound - i

/-- The length of the common prefix. -/
def prefixLength (oldText newText : Text) : ℕ :=
  countWhile (fun i => oldText[i]? = newText[i]?) (min oldText.length newText.length) 0

/-- The length of the common suffix behind the common prefix. -/
def suffixLength (oldText newText : Text) : ℕ :=
  countWhile (fun i => oldText[oldText.length - 1 - i]? = newText[newText.length - 1 - i]?)
    (min oldText.length newText.length - prefixLength oldText newText) 0

/-- `_mapOffset`. -/
def mapOffset (o removedStart removedEnd : ℕ) (delta : ℤ) (isStart : Bool) : ℕ :=
  if isStart then
    if o < removedStart then o
    else if o ≥ removedEnd then (o + delta).toNat
    else removedStart
  else if o ≤ removedStart then o
  else if o > removedEnd then (o + delta).toNat
  else removedStart

/-- A span with both offsets mapped. -/
def mapSpan (removedStart removedEnd : ℕ) (delta : ℤ) (s : FormatSpan) : FormatSpan :=
  ⟨mapOffset s.start removedStart removedEnd delta true,
    mapOffset s.stop removedStart removedEnd delta false, s.label⟩

/-- `_shiftSpansForTextChange`. -/
def shiftSpansForTextChange (spans : List FormatSpan) (oldText newText : Text) :
    List FormatSpan :=
  if oldText = newText then spans
  else
    let removedStart := prefixLength oldText newText
    let removedEnd := oldText.length - suffixLength oldText newText
    let insertedLen := newText.length - suffixLength oldText newText - prefixLength oldText newText
    let delta : ℤ := insertedLen - (removedEnd - removedStart : ℕ)
    if removedStart = removedEnd ∧ delta = 0 then spans
    else
      mergeSpans ((spans.map (mapSpan removedStart removedEnd delta)).filter fun s => !isEmpty s)

/-! ### The controller -/

/-- `TextSelection`; an offset of -1 stands for no selection. -/
structure TextSelection where
  baseOffset : ℤ
  extentOffset : ℤ
deriving DecidableEq, Repr

namespace TextSelection

/-- `TextSelection.start`. -/
def start (sel : TextSelection) : ℤ := min sel.baseOffset sel.extentOffset

/-- `TextSelection.end`. -/
def stop (sel : TextSelection) : ℤ := max sel.baseOffset sel.extentOffset

/-- `TextSelection.isValid`. -/
def isValid (sel : TextSelection) : Bool := sel.start ≥ 0 ∧ sel.stop ≥ 0

/-- `TextSelection.isCollapsed`. -/
def isCollapsed (sel : TextSelection) : Bool := sel.start = sel.stop

end TextSelection

/-- `FormattingTextEditingController`. -/
structure Controller where
  text : Text
  selection : TextSelection
  spans : List FormatSpan
deriving DecidableEq, Repr

/-- The loop of `_isRangeFullyCovered`. -/
def coveredTo (stop covered : ℕ) : List FormatSpan → Bool
  | [] => covered ≥ stop
  | s :: l =>
      if s.start > covered then false
      else if max covered s.stop ≥ stop then true
      else coveredTo stop (max covered s.stop) l

/-- `_isRangeFullyCovered`. -/
def isRangeFullyCovered (spans : List FormatSpan) (start stop : ℕ) (format : MessageFormat) :
    Bool :=
  if stop ≤ start then false
  else
    coveredTo stop start
      ((spans.filter fun s => s.label = format ∧ s.stop > start ∧ s.start < stop).mergeSort
        fun a b => a.start ≤ b.start)

/-- `_removeFormat`. -/
def removeFormat (spans : List FormatSpan) (start stop : ℕ) (format : MessageFormat) :
    List FormatSpan :=
  (spans.flatMap fun s =>
    if s.label ≠ format ∨ s.stop ≤ start ∨ s.start ≥ stop then [s]
    else
      (if s.start < start then [⟨s.start, start, format⟩] else []) ++
        (if s.stop > stop then [⟨stop, s.stop, format⟩] else [])).filter fun s => !isEmpty s

/-- `_formatsAt`. -/
def formatsAt (spans : List FormatSpan) (offset : ℕ) : Finset MessageFormat :=
  ((spans.filter fun s => s.start ≤ offset ∧ offset < s.stop).map Span.label).toFinset

namespace Controller

variable (c : Controller)

/-- `FormattingTextEditingController(text: …)`. -/
def new (text : Text) : Controller := ⟨text, ⟨-1, -1⟩, []⟩

/-- `value = …`. -/
def setValue (text : Text) (selection : TextSelection) : Controller :=
  ⟨text, selection, shiftSpansForTextChange c.spans c.text text⟩

/-- `clear`; the text is set through `value`. -/
def clear : Controller := setValue { c with spans := [] } [] ⟨0, 0⟩

/-- `clearFormatting`. -/
def clearFormatting : Controller := { c with spans := [] }

/-- `toggleFormat`. -/
def toggleFormat (format : MessageFormat) : Controller :=
  if !c.selection.isValid || c.selection.isCollapsed then c
  else
    let start := c.selection.start.toNat
    let stop := c.selection.stop.toNat
    if stop ≤ start then c
    else if isRangeFullyCovered c.spans start stop format then
      { c with spans := mergeSpans (removeFormat c.spans start stop format) }
    else { c with spans := mergeSpans (c.spans ++ [⟨start, stop, format⟩]) }

/-- `setSpans`. -/
def setSpans (spans : List FormatSpan) (textLength : ℕ) : Controller :=
  { c with
    spans := mergeSpans (spans.filterMap fun s =>
      let stop := if s.stop > textLength then textLength else s.stop
      if s.start ≥ stop then none else some ⟨s.start, stop, s.label⟩) }

/-- `restoreSpans`. -/
def restoreSpans (jsonDecode : Text → Option Json) (serialized : Option Text)
    (textLength : ℕ) : Controller :=
  match serialized with
  | none => c.setSpans [] textLength
  | some text =>
      if text = [] then c.setSpans [] textLength
      else
        match jsonDecode text with
        | some (.arr decoded) => c.setSpans (decoded.filterMap fromJson) textLength
        | _ => c.setSpans [] textLength

end Controller

/-! ### Runs -/

/-- What may be done with the controller. -/
inductive Op where
  | setValue (text : Text) (selection : TextSelection)
  | toggleFormat (format : MessageFormat)
  | setSpans (spans : List FormatSpan) (textLength : ℕ)
  | restoreSpans (serialized : Option Text) (textLength : ℕ)
  | clear
  | clearFormatting

/-- One operation. -/
def step (jsonDecode : Text → Option Json) (c : Controller) : Op → Option Controller
  | .setValue text selection => some (c.setValue text selection)
  | .toggleFormat format => some (c.toggleFormat format)
  | .setSpans spans textLength => some (c.setSpans spans textLength)
  | .restoreSpans serialized textLength => some (c.restoreSpans jsonDecode serialized textLength)
  | .clear => some c.clear
  | .clearFormatting => some c.clearFormatting

/-- The selection lies within the text. -/
def InRange (selection : TextSelection) (text : Text) : Prop := selection.stop ≤ text.length

instance (selection : TextSelection) (text : Text) : Decidable (InRange selection text) :=
  inferInstanceAs (Decidable (_ ≤ _))

/-- A selection is set within its text, and spans for the text that is there. -/
def Allowed (c : Controller) : Op → Prop
  | .setValue text selection => InRange selection text
  | .setSpans _ textLength => textLength = c.text.length
  | .restoreSpans _ textLength => textLength = c.text.length
  | _ => True

instance (c : Controller) : (op : Op) → Decidable (Allowed c op)
  | .setValue text selection => inferInstanceAs (Decidable (InRange selection text))
  | .toggleFormat _ => .isTrue trivial
  | .setSpans _ textLength => inferInstanceAs (Decidable (textLength = c.text.length))
  | .restoreSpans _ textLength => inferInstanceAs (Decidable (textLength = c.text.length))
  | .clear => .isTrue trivial
  | .clearFormatting => .isTrue trivial

end Formatting
end Client
end Liza
