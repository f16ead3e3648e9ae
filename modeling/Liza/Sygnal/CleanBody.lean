/-
# The text of a message in a banner

`servers/sygnal/sygnal/_clean_body.py`: the cleaning of `body`, and what is shown for
media.  The three regular expressions have no nested repetition, so each is a scan of
the text from left to right:

- `^>\s.*(?:\r?\n|$)`, matched again and again at the start, drops the quoted lines;
- `@\[([^\]]+)\]` becomes what stands in the brackets;
- `@([a-zA-Z0-9._=/\-]+):[a-zA-Z0-9.\-]+` becomes the local part.
-/

import Liza.Sygnal.Notifications

set_option autoImplicit false

namespace Liza
namespace Sygnal

open Lib

/-- The code point of a character of the source. -/
abbrev cp (c : Char) : CodePoint := codePoint c

/-- What `\s` matches in a `str`. -/
def isSpace (c : CodePoint) : Bool :=
  (0x09 ≤ c.val ∧ c.val ≤ 0x0D) ∨ (0x1C ≤ c.val ∧ c.val ≤ 0x20) ∨ c.val = 0x85 ∨ c.val = 0xA0 ∨
    c.val = 0x1680 ∨ (0x2000 ≤ c.val ∧ c.val ≤ 0x200A) ∨ c.val = 0x2028 ∨ c.val = 0x2029 ∨
    c.val = 0x202F ∨ c.val = 0x205F ∨ c.val = 0x3000

/-! ### `_REPLY_LINE_RE` -/

mutual

/-- Drop the quoted lines at the start. -/
def dropReplies : PyStr → PyStr
  | c :: d :: s => if c = cp '>' ∧ isSpace d then dropReplyLine s else c :: d :: s
  | s => s

/-- Drop the rest of a quoted line, and the quoted lines after it. -/
def dropReplyLine : PyStr → PyStr
  | [] => []
  | c :: s => if c = cp '\n' then dropReplies s else dropReplyLine s

end

/-- Drop the empty line after the quote. -/
def dropSeparator : PyStr → PyStr
  | [] => []
  | c :: s =>
      if c = cp '\n' then s
      else if c = cp '\r' ∧ s.head? = some (cp '\n') then s.tail
      else c :: s

/-! ### `_MENTION_PILL_RE` -/

mutual

/-- `@[name]` becomes `name`. -/
def unpill : PyStr → PyStr
  | [] => []
  | [c] => [c]
  | c :: d :: s => if c = cp '@' ∧ d = cp '[' then inPill [] s else c :: unpill (d :: s)

/-- After `@[` and the text `acc`.  Without a closing bracket nothing is replaced, here
or later; `@[]` is no mention. -/
def inPill (acc : PyStr) : PyStr → PyStr
  | [] => cp '@' :: cp '[' :: acc
  | c :: s =>
      if c = cp ']' then
        (if acc = [] then [cp '@', cp '[', cp ']'] else acc) ++ unpill s
      else inPill (acc ++ [c]) s

end

/-! ### `_MXID_RE` -/

/-- `[a-zA-Z0-9.\-]`. -/
def isServerChar (c : CodePoint) : Bool :=
  (cp 'a' ≤ c ∧ c ≤ cp 'z') ∨ (cp 'A' ≤ c ∧ c ≤ cp 'Z') ∨ (cp '0' ≤ c ∧ c ≤ cp '9') ∨
    c = cp '.' ∨ c = cp '-'

/-- `[a-zA-Z0-9._=/\-]`. -/
def isLocalChar (c : CodePoint) : Bool :=
  isServerChar c ∨ c = cp '_' ∨ c = cp '=' ∨ c = cp '/'

mutual

/-- `@localpart:server` becomes `localpart`. -/
def unmxid : PyStr → PyStr
  | [] => []
  | c :: s => if c = cp '@' then inLocalpart [] s else c :: unmxid s

/-- After `@` and the local part `acc`.  A local part holds no `@`, so where there is no
match the scan goes on with the character that ended it. -/
def inLocalpart (acc : PyStr) : PyStr → PyStr
  | [] => cp '@' :: acc
  | c :: s =>
      if isLocalChar c then inLocalpart (acc ++ [c]) s
      else if c = cp ':' ∧ acc ≠ [] ∧ s.head?.any isServerChar then acc ++ inServer s
      else if c = cp '@' then cp '@' :: acc ++ inLocalpart [] s
      else cp '@' :: acc ++ c :: unmxid s

/-- Inside the server name of a match. -/
def inServer : PyStr → PyStr
  | [] => []
  | c :: s =>
      if isServerChar c then inServer s
      else if c = cp '@' then inLocalpart [] s
      else c :: unmxid s

end

/-- `clean_message_body`, of a string. -/
def cleanText (body : PyStr) : PyStr := unmxid (unpill (dropSeparator (dropReplies body)))

example : cleanText "> <@a:h> hi\n> there\n\nsee @[Ann Lee] and @bob:ex.org!" =
    py "see Ann Lee and bob!" := by decide +kernel

/-- `clean_message_body`: a falsy value is returned as it is; the regular expressions
take nothing but a string. -/
def cleanMessageBody (body : Json) : Py SygnalExn Json :=
  if body.truthy then
    match body with
    | .str s => .ok (.str (cleanText s))
    | _ => Py.throw .typeError
  else .ok body

/-- `_MEDIA_MSGTYPES`. -/
def mediaMsgtypes : List PyStr := ["m.image", "m.audio", "m.video", "m.file", "m.sticker"]

/-- `is_media_msgtype`: a list or a dictionary is not hashable. -/
def isMediaMsgtype (content : Dict) : Py SygnalExn Bool :=
  match content.get "msgtype" with
  | .str s => .ok (s ∈ mediaMsgtypes)
  | .arr _ => Py.throw .typeError
  | .obj _ => Py.throw .typeError
  | _ => .ok false

/-- `STORY_CONTENT_KEY`. -/
def storyContentKey : PyStr := "com.liza.story"

/-- `STORY_PUBLISHED_BODY`. -/
def storyPublishedBody : PyStr := "опубликовал историю"

/-- `is_story`. -/
def isStory : Json → Bool
  | .obj content => (Dict.get content storyContentKey).isObj
  | _ => false

/-- `media_caption`. -/
def mediaCaption (content : Dict) : Option PyStr :=
  match content.get "body" with
  | .str body =>
      let cleaned := cleanText body
      if cleaned = [] then none
      else if content.get "filename" = .str cleaned then none
      else some cleaned
  | _ => none

/-- `_VOICE_KEY in content`. -/
def hasVoiceMarker (content : Dict) : Bool := content.contains "org.matrix.msc3245.voice"

/-- `media_type_label`. -/
def mediaTypeLabel (content : Dict) : PyStr :=
  match content.get "msgtype" with
  | .str s =>
      if s = py "m.image" then "🖼 Фото"
      else if s = py "m.video" then "🎬 Видео"
      else if s = py "m.file" then "📎 Файл"
      else if s = py "m.sticker" then "Стикер"
      else if s = py "m.audio" then
        if hasVoiceMarker content then "🎤 Голосовое сообщение" else "🎤 Аудио"
      else "Новое сообщение"
  | _ => "Новое сообщение"

/-- A body can be cleaned when it is a string or falsy. -/
theorem safe_cleanMessageBody (body : Json) :
    (cleanMessageBody body).Safe ↔ (body.isStr = true ∨ body.truthy = false) := by
  unfold cleanMessageBody
  cases h : body.truthy with
  | false => simp
  | true => cases body <;> simp [Json.isStr]

theorem plain_cleanMessageBody (body : Json) : (cleanMessageBody body).Plain := by
  unfold cleanMessageBody
  split
  · split <;> simp
  · exact Py.plain_ok body

/-- The msgtype can be looked up among the media types when it is hashable. -/
theorem safe_isMediaMsgtype (content : Dict) :
    (isMediaMsgtype content).Safe ↔ (content.get "msgtype").hashable = true := by
  unfold isMediaMsgtype
  cases h : content.get (py "msgtype") <;> simp [Json.hashable]

theorem plain_isMediaMsgtype (content : Dict) : (isMediaMsgtype content).Plain := by
  unfold isMediaMsgtype
  split <;> simp

end Sygnal
end Liza
