/-
# Pushes through APNs

`servers/sygnal/sygnal/apnspushkin.py`: the payload builders `_get_payload_full`,
`_get_payload_story`, `_get_payload_clearing` and `_get_payload_event_id_only`.

What a builder writes to the top level of the payload after the alert is collected
first and written at once (`Dict.update`), in the order of the source.
-/

import Liza.Sygnal.Gcm

set_option autoImplicit false

namespace Liza
namespace Sygnal

open Lib

/-- `MAX_FIELD_LENGTH`. -/
def maxFieldLength : ℕ := 1024

/-- `v[0 : MAX_FIELD_LENGTH]`. -/
def field (v : Json) : Py SygnalExn Json := v.slice maxFieldLength

/-- An entry of the payload for a field that is not empty. -/
def fieldEntry (key : PyStr) (v : Json) : Py SygnalExn Dict :=
  if v.truthy then do
    let v ← field v
    .ok [(key, v)]
  else .ok []

/-- An entry of the payload for a value that is not empty. -/
def plainEntry (key : PyStr) (v : Json) : Dict := if v.truthy then [(key, v)] else []

/-! ### The alert -/

/-- `from_display`, before it is cut. -/
def fromDisplay (n : Notification) : Json :=
  if ¬n.sender.truthy ∧ ¬n.senderDisplayName.truthy then .str " "
  else if n.senderDisplayName ≠ .null then n.senderDisplayName
  else n.sender

/-- `room_display`. -/
def roomDisplay (n : Notification) : Py SygnalExn Json :=
  let room := n.roomName.or n.roomAlias
  if room.truthy then field room else .ok .null

/-- `content_display`, `action_display` and `is_image`. -/
structure MessageText where
  contentDisplay : Json
  actionDisplay : Json
  isImage : Bool

/-- The content has both a msgtype and a body. -/
def hasText (content : Json) : Py SygnalExn Bool :=
  if content.truthy then do
    let msgtype ← content.has "msgtype"
    if msgtype then content.has "body" else .ok false
  else .ok false

/-- The text of a message. -/
def messageText (content : Json) : Py SygnalExn MessageText := do
  let present ← hasText content
  if present then
    let body ← content.item "body"
    let text ← cleanMessageBody body
    let msgtype ← content.item "msgtype"
    if msgtype = .str "m.emote" then .ok ⟨.null, text, false⟩
    else .ok ⟨text, .null, msgtype = .str "m.image"⟩
  else .ok ⟨.null, .null, false⟩

/-- A loc-key with its arguments. -/
structure Loc where
  key : PyStr
  args : List Json

/-- The loc-key of a message. -/
def messageLoc (sender room : Json) (text : MessageText) : Loc :=
  if room.truthy then
    if text.isImage then ⟨"IMAGE_FROM_USER_IN_ROOM", [sender, text.contentDisplay, room]⟩
    else if text.contentDisplay.truthy then
      ⟨"MSG_FROM_USER_IN_ROOM_WITH_CONTENT", [sender, room, text.contentDisplay]⟩
    else if text.actionDisplay.truthy then
      ⟨"ACTION_FROM_USER_IN_ROOM", [room, sender, text.actionDisplay]⟩
    else ⟨"MSG_FROM_USER_IN_ROOM", [sender, room]⟩
  else
    if text.isImage then ⟨"IMAGE_FROM_USER", [sender, text.contentDisplay]⟩
    else if text.contentDisplay.truthy then
      ⟨"MSG_FROM_USER_WITH_CONTENT", [sender, text.contentDisplay]⟩
    else if text.actionDisplay.truthy then ⟨"ACTION_FROM_USER", [sender, text.actionDisplay]⟩
    else ⟨"MSG_FROM_USER", [sender]⟩

/-- `"offer" in content and "sdp" in content["offer"]`, for a content that is not empty. -/
def hasSdp (content : Json) : Py SygnalExn Bool :=
  if content.truthy then do
    let offer ← content.has "offer"
    if offer then
      let offer ← content.item "offer"
      offer.has "sdp"
    else .ok false
  else .ok false

/-- `is_video_call`. -/
def isVideoCall (content : Json) : Py SygnalExn Bool := do
  let present ← hasSdp content
  if present then
    let offer ← content.item "offer"
    let sdp ← offer.item "sdp"
    sdp.has "m=video"
  else .ok false

/-- The user is invited to a room. -/
def isInvite (n : Notification) : Bool :=
  n.userIsTarget.truthy && n.membership = .str "invite"

/-- The type is that of a message. -/
def isMessage (n : Notification) : Bool :=
  n.type = .str "m.room.message" || n.type = .str "m.room.encrypted"

/-- `loc_key` and `loc_args`. -/
def locOf (n : Notification) (sender : Json) : Py SygnalExn (Option Loc) :=
  if isMessage n then do
    let room ← roomDisplay n
    let text ← messageText n.content
    .ok (some (messageLoc sender room text))
  else if n.type = .str "m.call.invite" then do
    let video ← isVideoCall n.content
    .ok (some ⟨if video then "VIDEO_CALL_FROM_USER" else "VOICE_CALL_FROM_USER", [sender]⟩)
  else if n.type = .str "m.room.member" then
    if isInvite n then do
      let room ← roomDisplay n
      .ok (some (if (n.roomName.or n.roomAlias).truthy then
        ⟨"USER_INVITE_TO_NAMED_ROOM", [sender, room]⟩ else ⟨"USER_INVITE_TO_CHAT", [sender]⟩))
    else .ok none
  else if n.type.truthy then .ok (some ⟨"MSG_FROM_USER", [sender]⟩)
  else .ok none

/-- The badge: the unread messages and the missed calls, where either is given. -/
def badgeOf (n : Notification) (sendBadgeCounts : Bool) : Option PyInt :=
  if sendBadgeCounts then
    match n.counts.unread, n.counts.missedCalls with
    | none, none => none
    | some u, none => some u
    | none, some m => some (.int m.val)
    | some u, some m => some (.int (u.val + m.val))
  else none

/-- `payload["aps"].setdefault("alert", {})` with the loc-key and its arguments. -/
def setLoc (aps : Json) : Option Loc → Py SygnalExn Json
  | none => .ok aps
  | some loc =>
      match aps with
      | .obj aps =>
          match (Dict.get? aps "alert").getD (.obj []) with
          | .obj alert =>
              let alert := Dict.set alert "loc-key" (.str loc.key)
              .ok (.obj (Dict.set aps "alert" (.obj (alert.set "loc-args" (.arr loc.args)))))
          | _ => Py.throw .typeError
      | _ => Py.throw .attributeError

/-- `payload["aps"][key] = value`. -/
def setAps (aps : Json) (key : PyStr) (value : Json) : Py SygnalExn Json :=
  match aps with
  | .obj aps => .ok (.obj (Dict.set aps key value))
  | _ => Py.throw .typeError

/-- The badge is written where there is one. -/
def setBadge (aps : Json) : Option PyInt → Py SygnalExn Json
  | none => .ok aps
  | some badge => setAps aps "badge" badge.json

/-! ### The builders -/

/-- The text of the numbers as `json.dumps` prints them; each was read from JSON, and can be
printed. -/
def countText (key : PyStr) : Option PyInt → List PyStr
  | none => []
  | some (.int n) => [py "\"" ++ key ++ py "\": " ++ py (toString n)]
  | some (.bool b) => [py "\"" ++ key ++ py "\": " ++ (if b then py "true" else py "false")]

/-- The entry `counts`, a JSON text. -/
def countsEntry (counts : Counts) : Dict :=
  match countText "unread" counts.unread ++ countText "missed_calls" counts.missedCalls with
  | [] => []
  | items => [("counts", .str (py "\x7b" ++ List.intercalate (py ", ") items ++ py "\x7d"))]

/-- The text of a preview, where there is one. -/
def previewBody : Option PyStr → Dict
  | none => []
  | some body => [("body", .str (body.take maxFieldLength))]

/-- The mark of a voice message. -/
def previewVoice (content : Dict) : Dict :=
  if hasVoiceMarker content then [("voice", .bool true)] else []

/-- `content_preview`. -/
def contentPreview (content : Dict) : Dict :=
  let body := previewBody ((asStr (content.get "body")).map cleanText)
  match content.get "msgtype" with
  | .str msgtype =>
      if msgtype ∈ mediaMsgtypes then
        (py "msgtype", .str msgtype) :: (previewVoice content ++ previewBody (mediaCaption content))
      else (py "msgtype", .str msgtype) :: body
  | _ => body

/-- The entry `content`: only a dictionary has `get`. -/
def contentEntry (content : Json) : Py SygnalExn Dict :=
  if content.truthy then
    match content with
    | .obj content =>
        .ok (if contentPreview content = [] then [] else [("content", .obj (contentPreview content))])
    | _ => Py.throw .attributeError
  else .ok []

/-- `device.data`, where it is not empty, decides whether there is a default payload. -/
def hasData (device : Device) : Bool := device.data.any fun data => data ≠ []

/-- `payload.setdefault("aps", {})` on the payload a builder starts from. -/
def apsOf (base : Dict) : Json := (base.get? "aps").getD (.obj [])

/-- The payload a builder starts from; only a dictionary has `setdefault`. -/
def asPayload : Json → Py SygnalExn Dict
  | .obj d => .ok d
  | _ => Py.throw .attributeError

/-- A copy of the default payload, where there is one to copy. -/
def startPayload (depth : ℕ) (copied : Bool) (device : Device) : Py SygnalExn Json :=
  if copied then deepcopy depth (defaultPayload device) else .ok (.obj [])

/-- `_get_payload_story`. -/
def getPayloadStory (L : Limits) (n : Notification) (device : Device) (sender : Json)
    (sendBadgeCounts : Bool) : Py SygnalExn Dict := do
  let start ← startPayload L.storyDepth (hasData device) device
  let base ← asPayload start
  let aps ← setAps (apsOf base) "alert"
    (.obj [("title", sender), ("body", .str storyPublishedBody)])
  let aps ← setBadge aps (badgeOf n sendBadgeCounts)
  let sent ← fieldEntry "sender" n.sender
  let name ← fieldEntry "sender_display_name" n.senderDisplayName
  .ok ((base.set "aps" aps).update (plainEntry "room_id" n.roomId ++
    plainEntry "event_id" n.eventId ++ sent ++ name ++ plainEntry "type" n.type ++
    [(py "story", .bool true)]))

/-- `_get_payload_full` for everything but stories, from the alert on. -/
def getPayloadAlert (L : Limits) (n : Notification) (device : Device) (loc : Option Loc)
    (badge : Option PyInt) : Py SygnalExn Dict := do
  let start ← startPayload L.copyDepth (n.type.truthy && hasData device) device
  let base ← asPayload start
  let aps ← setLoc (apsOf base) loc
  let aps ← setBadge aps badge
  let ids := if loc.isSome then plainEntry "room_id" n.roomId ++ plainEntry "event_id" n.eventId
    else []
  let sent ← fieldEntry "sender" n.sender
  let name ← fieldEntry "sender_display_name" n.senderDisplayName
  let room ← fieldEntry "room_name" n.roomName
  let content ← contentEntry n.content
  .ok ((base.set "aps" aps).update (ids ++ sent ++ name ++ room ++ plainEntry "type" n.type ++
    content ++ countsEntry n.counts))

/-- `_get_payload_full`: `none` where there is nothing to do. -/
def getPayloadFull (L : Limits) (n : Notification) (device : Device) (sendBadgeCounts : Bool) :
    Py SygnalExn (Option Dict) := do
  let sender ← field (fromDisplay n)
  if isStory n.content then
    let payload ← getPayloadStory L n device sender sendBadgeCounts
    .ok (some payload)
  else
    let loc ← locOf n sender
    let badge := badgeOf n sendBadgeCounts
    if loc.isNone ∧ badge = none then .ok none
    else
      let payload ← getPayloadAlert L n device loc badge
      .ok (some payload)

/-- An entry for a count that is given. -/
def optEntry (key : PyStr) : Option PyInt → Dict
  | none => []
  | some n => [(key, n.json)]

/-- `_get_payload_clearing`. -/
def getPayloadClearing (n : Notification) (payload : Dict) : Dict :=
  ((payload.erase "aps").update [("aps", .obj [("content-available", .int 1)]),
    ("liza_clear", .int 1)]).update
      (n.counts.unread.toList.map fun u => ("counts", .obj [("unread", u.json)]))

/-- `_get_payload_event_id_only`. -/
def getPayloadEventIdOnly (n : Notification) (payload : Dict) (sendBadgeCounts : Bool) : Dict :=
  payload.update (plainEntry "room_id" n.roomId ++ plainEntry "event_id" n.eventId ++
    if sendBadgeCounts then
      optEntry "unread_count" n.counts.unread ++ optEntry "missed_calls" n.counts.missedCalls
    else [])

end Sygnal
end Liza
