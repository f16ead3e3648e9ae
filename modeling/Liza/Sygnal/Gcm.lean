/-
# Pushes through FCM

`servers/sygnal/sygnal/gcmpushkin.py`: `_build_data`, `_build_android_notification`,
`truncate_str`, and the part of `_dispatch_notification_unlimited` that builds the
request body.  The body starts from a shallow copy of the dictionary `fcm_options` of
the configuration, so the dictionary under its key `android` is the one of the
configuration; what is written to it stays.  `base` below is that shared dictionary,
passed along from dispatch to dispatch.

The count of overflowing fields is logged only and left out.  Of a request the first
attempt is modelled.
-/

import Liza.Sygnal.CleanBody

set_option autoImplicit false

namespace Liza
namespace Sygnal

open Lib

/-- `APIVersion`. -/
inductive APIVersion where
  | legacy
  | v1
deriving DecidableEq

/-- `MAX_BYTES_PER_FIELD`. -/
def maxBytesPerField : ℕ := 1024

/-- `truncate_str`, of which the second result is only counted. -/
def truncateStr (input : Json) (maxBytes : ℕ) : Py SygnalExn PyStr :=
  match input with
  | .str s => do
      let length ← encode s
      if length ≤ maxBytes then .ok s else .ok (takeBytes (maxBytes - 3) s ++ py "…")
  | _ => Py.throw .attributeError

/-- The fields of a notification that go into the data, in their order. -/
def dataFields (n : Notification) : List (PyStr × Json) :=
  [("event_id", n.eventId), ("type", n.type), ("sender", n.sender), ("room_name", n.roomName),
    ("room_alias", n.roomAlias), ("membership", n.membership),
    ("sender_display_name", n.senderDisplayName), ("content", n.content), ("room_id", n.roomId)]

/-- One round of the loop over the fields. -/
def addField (data : Dict) (attr : PyStr) (current : Json) : Py SygnalExn Dict :=
  match current with
  | .null => .ok data
  | .str _ => do
      let v ← truncateStr current maxBytesPerField
      .ok (data.set attr (.str v))
  | _ => .ok (if attr = py "content" then data.set "content" current else data)

/-- The loop over the fields. -/
def addFields (data : Dict) : List (PyStr × Json) → Py SygnalExn Dict
  | [] => .ok data
  | (attr, current) :: fields => do
      let data ← addField data attr current
      addFields data fields

/-- The loop over the items of the content: the strings become fields of their own. -/
def flattenContent (data : Dict) : List (PyStr × Json) → Py SygnalExn Dict
  | [] => .ok data
  | (attr, .str value) :: items => do
      let v ← truncateStr (.str value) maxBytesPerField
      flattenContent (data.set (py "content_" ++ attr) (.str v)) items
  | _ :: items => flattenContent data items

/-- The content of the data, flattened for the API v1. -/
def flatten (apiVersion : APIVersion) (data : Dict) : Py SygnalExn Dict :=
  match apiVersion, data.get? "content" with
  | .v1, some (.obj content) => do
      let data ← flattenContent data content
      .ok (data.erase "content")
  | _, _ => .ok data

/-- A count that is not zero. -/
def countEntry (apiVersion : APIVersion) (key : PyStr) : Option PyInt → Dict
  | none => []
  | some n =>
      if n.val = 0 then []
      else
        match apiVersion with
        | .legacy => [(key, n.json)]
        | .v1 => [(key, .str n.text)]

/-- `counts` of `_build_data`. -/
def dataCounts (n : Notification) (apiVersion : APIVersion) (sendBadgeCounts : Bool) : Dict :=
  if sendBadgeCounts then
    countEntry apiVersion "unread" n.counts.unread ++
      countEntry apiVersion "missed_calls" n.counts.missedCalls
  else []

/-- `device.data.get("default_payload", {})`, where there is any data. -/
def defaultPayload (device : Device) : Json :=
  match device.data with
  | some data => if data = [] then .obj [] else (data.get? "default_payload").getD (.obj [])
  | none => .obj []

/-- `_build_data`: `none` where `default_payload` is misconfigured, and an empty
dictionary where there is nothing to send. -/
def buildData (n : Notification) (device : Device) (apiVersion : APIVersion)
    (sendBadgeCounts : Bool) : Py SygnalExn (Option Dict) :=
  match defaultPayload device with
  | .obj payload => do
      let data ← addFields payload (dataFields n)
      let data ← flatten apiVersion data
      let data := data.set "prio" (.str (if n.prio = .str "low" then "normal" else "high"))
      let counts := dataCounts n apiVersion sendBadgeCounts
      if ¬(data.get "room_id").truthy ∧ ¬(data.get "event_id").truthy ∧ counts = [] then
        .ok (some [])
      else .ok (some (data.update counts))
  | _ => .ok none

/-- The title of the banner. -/
def androidTitle (n : Notification) : Json :=
  if isStory n.content then n.senderDisplayName.or (.str "Liza")
  else (n.roomName.or n.senderDisplayName).or (.str "Liza")

/-- The text of the banner for a message that is no media. -/
def plainBody (content : Dict) : PyStr :=
  match content.get "body" with
  | .str raw => if raw.all isSpace then "Новое сообщение" else cleanText raw
  | _ => "Новое сообщение"

/-- The text of the banner. -/
def androidBody (n : Notification) : Py SygnalExn PyStr :=
  match n.content with
  | .obj content =>
      if isStory n.content then .ok storyPublishedBody
      else do
        let media ← isMediaMsgtype content
        if media then .ok ((mediaCaption content).getD (mediaTypeLabel content))
        else .ok (plainBody content)
  | _ => .ok "Новое сообщение"

/-- `_build_android_notification`. -/
def buildAndroidNotification (n : Notification) : Py SygnalExn Dict := do
  let body ← androidBody n
  let title ← truncateStr (androidTitle n) maxBytesPerField
  let body ← truncateStr (.str body) maxBytesPerField
  .ok [("title", .str title), ("body", .str body), ("channel_id", .str "liza_push"),
    ("sound", .str "default"), ("notification_priority", .str "PRIORITY_HIGH"),
    ("default_vibrate_timings", .bool true), ("tag", n.roomId.or (.str "liza"))]

/-! ### The request body -/

/-- The configuration of a `GcmPushkin`; `handlesAppid` is its pattern of app ids. -/
structure GcmConfig where
  apiVersion : APIVersion
  fcmOptions : Dict
  sendBadgeCounts : Bool
  handlesAppid : PyStr → Bool

/-- What becomes of a dispatch: nothing, since the first device of the notification has
sent it; the pushkeys are rejected; the notification is discarded; or a request is sent
to FCM. -/
inductive Outcome where
  | alreadySent
  | rejected (pushkeys : List PyStr)
  | discarded
  | request (body : Dict)
deriving DecidableEq

/-- `android`, with the priority and the notification block: the dictionary as it is
left, and the result. -/
def fillAndroid (n : Notification) : Json → Json × Py SygnalExn Dict
  | .obj android =>
      let android := Dict.set android "priority" (.str "high")
      if n.eventId.truthy then
        match (Dict.get? android "notification").getD (.obj []) with
        | .obj notification =>
            match buildAndroidNotification n with
            | .ok built =>
                let android := Dict.set android "notification" (.obj (Dict.update notification built))
                (.obj android, .ok android)
            | .error e => (.obj android, .error e)
        | _ => (.obj android, Py.throw .typeError)
      else (.obj android, .ok android)
  | v => (v, Py.throw .typeError)

/-- `base` after a dispatch has left `android` in it: the dictionary of the
configuration where there is one, and else one of the dispatch's own. -/
def keepAndroid (base : Dict) (android : Json) : Dict :=
  if base.contains "android" then base.set "android" android else base

/-- The request for the API v1. -/
def requestV1 (base data : Dict) (n : Notification) (device : Device) :
    Dict × Py SygnalExn Dict :=
  let filled := fillAndroid n ((base.get? "android").getD (.obj []))
  (keepAndroid base filled.1, do
    let android ← filled.2
    let message := ((base.set "data" (.obj data)).set "android" (.obj android)).set "token"
      (.str device.pushkey)
    .ok [("message", .obj message)])

/-- The request for the legacy API, as it is first sent. -/
def requestLegacy (base data : Dict) (pushkeys : List PyStr) : Dict :=
  let body := (base.set "data" (.obj data)).set "priority" (.str "high")
  match pushkeys with
  | [pushkey] => body.set "to" (.str pushkey)
  | _ => body.set "registration_ids" (.arr (pushkeys.map .str))

/-- The pushkeys that a dispatch is for. -/
def pushkeysOf (cfg : GcmConfig) (n : Notification) (device : Device) : List PyStr :=
  match cfg.apiVersion with
  | .legacy => (n.devices.filter fun d => cfg.handlesAppid d.appId).map Device.pushkey
  | .v1 => [device.pushkey]

/-- `_dispatch_notification_unlimited`, up to the request: the shared dictionary as it is
left, and what becomes of the dispatch. -/
def dispatch (cfg : GcmConfig) (base : Dict) (n : Notification) (device : Device) :
    Dict × Py SygnalExn Outcome :=
  let pushkeys := pushkeysOf cfg n device
  if pushkeys.head? ≠ some device.pushkey then (base, .ok .alreadySent)
  else
    match buildData n device cfg.apiVersion cfg.sendBadgeCounts with
    | .error e => (base, .error e)
    | .ok none => (base, .ok (.rejected pushkeys))
    | .ok (some []) => (base, .ok .discarded)
    | .ok (some data) =>
        match cfg.apiVersion with
        | .legacy => (base, .ok (.request (requestLegacy base data pushkeys)))
        | .v1 =>
            let r := requestV1 base data n device
            (r.1, do
              let body ← r.2
              .ok (.request body))

/-- The shared dictionary after a history of dispatches. -/
def baseAfter (cfg : GcmConfig) (history : List (Notification × Device)) : Dict :=
  history.foldl (fun base p => (dispatch cfg base p.1 p.2).1) cfg.fcmOptions

end Sygnal
end Liza
