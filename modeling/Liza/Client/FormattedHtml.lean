/-
# The HTML of a formatted message, and its way back into the input field

`spansToFormattedHtml` and `trimOutgoing` of
`clients/flutter/lib/utils/formatting_text_controller.dart` make the `formatted_body` of a message
that is sent; `clients/flutter/lib/utils/edit_prefill.dart` takes text and spans back from it when
the message is edited.  `send` and `editEventAction` of `clients/flutter/lib/pages/chat/chat.dart`
stand at both ends, as far as they are about the formatted text.

The `html` package is a parameter, `parseFragment`.  What is relied on is said at the end: markup
that is made of characters, `<br>` and balanced tags of the emitter is parsed as the HTML standard
says (`ParsesInline`).  There, reading the input turns a carriage return into a line feed, and the
tree construction drops NUL.
-/

import Liza.Client.Formatting
import Mathlib.Data.List.Sort

set_option autoImplicit false

namespace Liza
namespace Client
namespace Formatting

open Lib

/-- The code units of an ASCII literal. -/
def units (s : String) : Text := s.toList.map fun c => UInt16.ofNat c.toNat

/-- `\n`. -/
def lineFeed : UInt16 := 10

/-- `\r`. -/
def carriageReturn : UInt16 := 13

/-- `&`. -/
def ampersand : UInt16 := 38

/-- `<`. -/
def lessThan : UInt16 := 60

/-- `>`. -/
def greaterThan : UInt16 := 62

/-- `/`. -/
def slash : UInt16 := 47

/-! ### The emitter -/

/-- `replaceAll` of one code unit. -/
def replaceAll (c : UInt16) (by_ : Text) (s : Text) : Text :=
  s.flatMap fun x => if x = c then by_ else [x]

/-- `_escapeHtml`. -/
def escapeHtml (input : Text) : Text :=
  replaceAll lineFeed (units "<br>")
    (replaceAll greaterThan (units "&gt;")
      (replaceAll lessThan (units "&lt;")
        (replaceAll ampersand (units "&amp;") input)))

/-- `_tagOrder`. -/
def tagOrder : List MessageFormat :=
  [.bold, .italic, .underline, .strikethrough, .monospace, .spoiler]

/-- The start tag of a format. -/
def openTag : MessageFormat → Text
  | .bold => units "<strong>"
  | .italic => units "<em>"
  | .underline => units "<u>"
  | .strikethrough => units "<del>"
  | .monospace => units "<code>"
  | .spoiler => units "<span data-mx-spoiler>"

/-- The end tag of a format. -/
def closeTag : MessageFormat → Text
  | .bold => units "</strong>"
  | .italic => units "</em>"
  | .underline => units "</u>"
  | .strikethrough => units "</del>"
  | .monospace => units "</code>"
  | .spoiler => units "</span>"

/-- `_wrapChunk`. -/
def wrapChunk (escapedChunk : Text) (formats : List MessageFormat) : Text :=
  let ordered := tagOrder.filter fun f => f ∈ formats
  ordered.flatMap openTag ++ escapedChunk ++ (ordered.map closeTag).reverse.flatten

/-- The spans that the emitter looks at. -/
def activeSpans (text : Text) (spans : List FormatSpan) : List FormatSpan :=
  spans.filter fun s => !isEmpty s && s.start < text.length

/-- `boundaries`. -/
def boundaries (text : Text) (active : List FormatSpan) : List ℕ :=
  (0 :: text.length :: active.flatMap fun s =>
    (if s.start ≤ text.length then [s.start] else []) ++
      [min s.stop text.length]).dedup.insertionSort (· ≤ ·)

/-- The formats of the segment that starts at `segStart`. -/
def segmentFormats (text : Text) (active : List FormatSpan) (segStart : ℕ) : List MessageFormat :=
  (active.filter fun s => s.start ≤ segStart ∧ segStart < min s.stop text.length).map Span.label

/-- The markup of the segments between the boundaries. -/
def emitSegments (text : Text) (active : List FormatSpan) : List ℕ → Text
  | segStart :: segEnd :: rest =>
      (if segEnd ≤ segStart then []
        else wrapChunk (escapeHtml ((text.take segEnd).drop segStart))
          (segmentFormats text active segStart)) ++ emitSegments text active (segEnd :: rest)
  | _ => []

/-- `spansToFormattedHtml`. -/
def spansToFormattedHtml (text : Text) (spans : List FormatSpan) : Option Text :=
  let active := activeSpans text spans
  if active = [] ∨ text = [] then none
  else
    let html := emitSegments text active (boundaries text active)
    if html = escapeHtml text then none else some html

/-! ### The fragment -/

/-- A node of the parsed fragment. -/
inductive Node where
  | text (data : Text)
  | element (localName : Text) (attributes : List Text) (nodes : List Node)
  /-- A comment, or another node without content. -/
  | other

/-- `_formatOf`. -/
def formatOf (localName : Text) (attributes : List Text) : Option MessageFormat :=
  if localName = units "strong" ∨ localName = units "b" then some .bold
  else if localName = units "em" ∨ localName = units "i" then some .italic
  else if localName = units "u" ∨ localName = units "ins" then some .underline
  else if localName = units "del" ∨ localName = units "s" ∨ localName = units "strike" then
    some .strikethrough
  else if localName = units "code" then some .monospace
  else if localName = units "span" ∧ units "data-mx-spoiler" ∈ attributes then some .spoiler
  else none

/-- `_maxDepth`. -/
def maxDepth : ℕ := 100

/-- The buffer and the spans of `_collect`. -/
abbrev Collected := Text × List FormatSpan

mutual

/-- One round of the loop of `_collect`. -/
def collectNode (depth : ℕ) (acc : Collected) : Node → Option Collected
  | .text data => some (acc.1 ++ data, acc.2)
  | .other => some acc
  | .element localName attributes nodes =>
      if localName = units "br" then some (acc.1 ++ [lineFeed], acc.2)
      else
        match formatOf localName attributes with
        | none => none
        | some format =>
            if maxDepth ≤ depth + 1 then none
            else
              match collectNodes (depth + 1) acc nodes with
              | none => none
              | some (buffer, spans) => some (buffer, spans ++ [⟨acc.1.length, buffer.length, format⟩])

/-- The loop of `_collect`. -/
def collectNodes (depth : ℕ) (acc : Collected) : List Node → Option Collected
  | [] => some acc
  | node :: nodes =>
      match collectNode depth acc node with
      | none => none
      | some acc => collectNodes depth acc nodes

end

/-- `_collect`. -/
def collect (nodes : List Node) (depth : ℕ) : Option Collected :=
  if maxDepth ≤ depth then none else collectNodes depth ([], []) nodes

/-- A code unit as a pattern that ignores case sees it. -/
def foldCase (c : UInt16) : UInt16 := if 65 ≤ c ∧ c ≤ 90 then c + 32 else c

/-- The text begins with `word`, whatever the case. -/
def beginsWith (word s : Text) : Bool := (s.take word.length).map foldCase = word

/-- What comes behind the first `</mx-reply>`. -/
def afterMxReply : Text → Option Text
  | [] => none
  | c :: s =>
      if beginsWith (units "</mx-reply>") (c :: s) then
        some ((c :: s).drop (units "</mx-reply>").length)
      else afterMxReply s

/-- The loop of `stripReplyFallbackFormatted`, over at most `n` code units. -/
def stripMxReply : ℕ → Text → Text
  | 0, s => s
  | _, [] => []
  | n + 1, c :: s =>
      if beginsWith (units "<mx-reply>") (c :: s) then
        match afterMxReply (s.drop ((units "<mx-reply>").length - 1)) with
        | some rest => stripMxReply n rest
        | none => c :: stripMxReply n s
      else c :: stripMxReply n s

/-- `stripReplyFallbackFormatted`. -/
def stripReplyFallbackFormatted (formattedBody : Text) : Text :=
  stripMxReply formattedBody.length formattedBody

/-- `formattedHtmlToSpans`. -/
def formattedHtmlToSpans (parseFragment : Text → List Node) (html : Text) : Option Collected :=
  match collect (parseFragment (stripReplyFallbackFormatted html)) 0 with
  | none => none
  | some (text, spans) => some (text, mergeFormatSpans spans)

/-! ### Sending and editing -/

/-- A message, as far as it is about its text. -/
structure TextContent where
  format : Option Text
  formattedBody : Option Text

/-- `org.matrix.custom.html`. -/
def customHtml : Text := units "org.matrix.custom.html"

/-- `resolveEditPrefill`. -/
def resolveEditPrefill (parseFragment : Text → List Node) (plainFallback : Text)
    (content : TextContent) (isMedia : Bool) : Collected :=
  if isMedia then (plainFallback, [])
  else if content.format ≠ some customHtml then (plainFallback, [])
  else
    match content.formattedBody with
    | none => (plainFallback, [])
    | some html =>
        if html = [] then (plainFallback, [])
        else
          match formattedHtmlToSpans parseFragment html with
          | none => (plainFallback, [])
          | some (text, spans) =>
              if text ≠ plainFallback then (plainFallback, []) else (plainFallback, spans)

/-- The code units `String.trim` drops: Unicode's white space, and the byte order mark. -/
def isTrimmed (c : UInt16) : Bool :=
  (0x9 ≤ c && c ≤ 0xD) || c = 0x20 || c = 0x85 || c = 0xA0 || c = 0x1680 ||
    (0x2000 ≤ c && c ≤ 0x200A) || c = 0x2028 || c = 0x2029 || c = 0x202F || c = 0x205F ||
    c = 0x3000 || c = 0xFEFF

/-- `trimLeft`. -/
def trimLeft (s : Text) : Text := s.dropWhile isTrimmed

/-- `trimRight`. -/
def trimRight (s : Text) : Text := (s.reverse.dropWhile isTrimmed).reverse

/-- `trimOutgoing`. -/
def trimOutgoing (text : Text) (spans : List FormatSpan) : Collected :=
  let leftTrimmed := trimLeft text
  let lead := text.length - leftTrimmed.length
  let trimmed := trimRight leftTrimmed
  let shifted := spans.map fun s =>
    (⟨min (s.start - lead) trimmed.length, min (s.stop - lead) trimmed.length, s.label⟩ : FormatSpan)
  (trimmed, mergeFormatSpans shifted)

/-- The `formatted_body` that `send` gives a message: none for a command, which white space before
it prevents. -/
def sentHtml (c : Controller) : Option Text :=
  let outgoing := trimOutgoing c.text c.spans
  let startsWithWhitespace := (trimLeft c.text).length ≠ c.text.length
  let isCommand := ¬startsWithWhitespace ∧ outgoing.1.head? = some slash
  if ¬isCommand ∧ c.spans ≠ [] then spansToFormattedHtml outgoing.1 outgoing.2 else none

/-- The content that `send` makes of it. -/
def sentContent (c : Controller) : TextContent :=
  match sentHtml c with
  | some html => ⟨some customHtml, some html⟩
  | none => ⟨none, none⟩

/-- `editEventAction`, for a message that is no media, and whose text the SDK gives as
`plainFallback`. -/
def editEventAction (parseFragment : Text → List Node) (c : Controller) (plainFallback : Text)
    (content : TextContent) : Controller :=
  let prefill := resolveEditPrefill parseFragment plainFallback content false
  (c.setValue prefill.1 ⟨-1, -1⟩).setSpans prefill.2 prefill.1.length

/-! ### What the standard says about the markup of the emitter -/

/-- A piece of markup. -/
inductive Token where
  | char (c : UInt16)
  | br
  | start (format : MessageFormat)
  | stop (format : MessageFormat)
deriving DecidableEq

/-- The markup of a token; a character is escaped where it has to be. -/
def Token.render : Token → Text
  | .char c =>
      if c = ampersand then units "&amp;"
      else if c = lessThan then units "&lt;"
      else if c = greaterThan then units "&gt;"
      else [c]
  | .br => units "<br>"
  | .start format => openTag format
  | .stop format => closeTag format

/-- Every tag is closed by its own, and no line feed stands as a character. -/
def Balanced : List MessageFormat → List Token → Prop
  | open_, [] => open_ = []
  | open_, .char c :: tokens => c ≠ lineFeed ∧ Balanced open_ tokens
  | open_, .br :: tokens => Balanced open_ tokens
  | open_, .start format :: tokens => Balanced (format :: open_) tokens
  | [], .stop _ :: _ => False
  | f :: open_, .stop format :: tokens => f = format ∧ Balanced open_ tokens

/-- The element of a format. -/
def elementOf : MessageFormat → List Node → Node
  | .bold => .element (units "strong") []
  | .italic => .element (units "em") []
  | .underline => .element (units "u") []
  | .strikethrough => .element (units "del") []
  | .monospace => .element (units "code") []
  | .spoiler => .element (units "span") [units "data-mx-spoiler"]

/-- A character is added to the text before it, or begins one. -/
def addChar (c : UInt16) : List Node → List Node
  | .text data :: nodes => .text (data ++ [c]) :: nodes
  | nodes => .text [c] :: nodes

/-- The tree construction: the nodes of the element that is open, the last one first, and those of
the elements around it. -/
def build : List (List Node) → List Node → List Token → List Node
  | _, nodes, [] => nodes.reverse
  | open_, nodes, .char c :: tokens =>
      if c = 0 then build open_ nodes tokens
      else build open_ (addChar (if c = carriageReturn then lineFeed else c) nodes) tokens
  | open_, nodes, .br :: tokens => build open_ (.element (units "br") [] [] :: nodes) tokens
  | open_, nodes, .start _ :: tokens => build (nodes :: open_) [] tokens
  | [], nodes, .stop _ :: tokens => build [] nodes tokens
  | outer :: open_, nodes, .stop format :: tokens =>
      build open_ (elementOf format nodes.reverse :: outer) tokens

/-- Balanced markup is parsed as the standard says. -/
def ParsesInline (parseFragment : Text → List Node) : Prop :=
  ∀ tokens, Balanced [] tokens → parseFragment (tokens.flatMap Token.render) = build [] [] tokens

end Formatting
end Client
end Liza
