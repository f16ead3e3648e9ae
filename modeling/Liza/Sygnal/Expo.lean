/-
# Pushes through Expo

`servers/sygnal/expo_pushkin.py`.  The request to the Expo endpoint is a parameter: it raises (the
network, a timeout, bytes that are no text), or it brings a text, of which only the JSON counts.
The status of the answer is never looked at.

`_dispatch_notification_unlimited` rejects the pushkey on every answer but a ticket with the status
`ok`, and a rejected pushkey is a pusher that the homeserver removes.
-/

import Liza.Sygnal.Gateway

set_option autoImplicit false

namespace Liza
namespace Sygnal

open Lib

/-- What the request to the endpoint comes to; `none` is a text that is not JSON. -/
inductive Reply where
  | raises
  | text (json : Option Json)

/-- `ExpoResponse.success`; `none` for an exception. -/
def ExpoResponse.success : Option Json → Option Bool
  | none => some false
  | some (.obj responseJson) =>
      match (Dict.get? responseJson "data").getD (.obj []) with
      | .obj data => some (Dict.get data "status" = .str "ok")
      | _ => none
  | some _ => none

/-- `expo_message`. -/
def expoMessage (n : Notification) (device : Device) (content : Dict) : Json :=
  .obj [("to", .str device.pushkey),
    ("title", n.roomName.or (.str "New message")),
    ("body", (Dict.get? content "body").getD (.str "You have a new message")),
    ("data", .obj [("room_id", n.roomId), ("event_id", n.eventId), ("sender", n.sender),
      ("type", n.type)]),
    ("sound", .str "default"),
    ("badge", (n.counts.unread.map PyInt.json).getD .null)]

/-- `ExpoPushkin._dispatch_notification_unlimited`. -/
def expoDispatch (endpoint : Json → Reply) (n : Notification) (device : Device) :
    Py SygnalExn (List PyStr) :=
  match n.content with
  | .obj content =>
      match endpoint (expoMessage n device content) with
      | .raises => .ok [device.pushkey]
      | .text json =>
          match ExpoResponse.success json with
          | some true => .ok []
          | _ => .ok [device.pushkey]
  -- `n.content.get` outside of the `try`
  | _ => Py.throw .attributeError

/-- `ExpoPushkin`. -/
def expoPushkin (endpoint : Json → Reply) : Pushkin := fun n device =>
  (expoDispatch endpoint n device).toOption

/-! ### What an answer says of the token -/

/-- The ticket of the answer. -/
def Reply.ticket : Reply → Option Dict
  | .text (some (.obj json)) => asDict (Dict.get json "data")
  | _ => none

/-- The ticket says that the token is dead: `DeviceNotRegistered`. -/
def Reply.dead (reply : Reply) : Prop :=
  ∃ ticket details, reply.ticket = some ticket ∧ Dict.get? ticket "details" = some (.obj details) ∧
    Dict.get? details "error" = some (.str "DeviceNotRegistered")

/-- The ticket says that the notification was taken. -/
def Reply.taken (reply : Reply) : Prop :=
  ∃ ticket, reply.ticket = some ticket ∧ Dict.get? ticket "status" = some (.str "ok")

/-- The answers that are read as a success. -/
theorem success_iff (json : Option Json) :
    ExpoResponse.success json = some true ↔ (Reply.text json).taken := by
  have hget : ∀ ticket : Dict, Dict.get ticket "status" = .str "ok" ↔
      Dict.get? ticket "status" = some (.str "ok") := by
    intro ticket
    unfold Dict.get
    cases Dict.get? ticket "status" <;> simp
  unfold ExpoResponse.success Reply.taken Reply.ticket
  split
  · simp
  · rename_i responseJson
    cases hdata : Dict.get? responseJson "data" with
    | none => simp [Dict.get, hdata, asDict]
    | some data =>
        have hvalue : Dict.get responseJson "data" = data := by simp [Dict.get, hdata]
        dsimp only
        rw [hvalue]
        cases data <;> simp [asDict, hget]
  · rename_i value hvalue
    cases value with
    | obj d => exact absurd rfl (hvalue d)
    | _ => simp

/-- **Every answer that is not a ticket with the status `ok` rejects the pushkey.** -/
theorem expoDispatch_eq (endpoint : Json → Reply) {n : Notification} (device : Device)
    {content : Dict} (hcontent : n.content = .obj content) :
    ((endpoint (expoMessage n device content)).taken ∧ expoDispatch endpoint n device = .ok []) ∨
      (¬(endpoint (expoMessage n device content)).taken ∧
        expoDispatch endpoint n device = .ok [device.pushkey]) := by
  unfold expoDispatch
  rw [hcontent]
  dsimp only
  cases hreply : endpoint (expoMessage n device content) with
  | raises => exact .inr ⟨fun ⟨ticket, hticket, _⟩ => (by cases hticket), rfl⟩
  | text json =>
      rw [← success_iff]
      dsimp only
      split
      · rename_i hsuccess
        exact .inl ⟨hsuccess, rfl⟩
      · rename_i hsuccess
        exact .inr ⟨hsuccess, rfl⟩

/-- The answer to the notification, where one is asked for, does not report a dead token. -/
def NotDead (endpoint : Json → Reply) (n : Notification) (device : Device) : Prop :=
  ∀ content, n.content = .obj content → ¬(endpoint (expoMessage n device content)).dead

/-- The pushkey is not rejected. -/
def KeepsPushkey (endpoint : Json → Reply) (n : Notification) (device : Device) : Prop :=
  ∀ rejected, expoPushkin endpoint n device = some rejected → device.pushkey ∉ rejected

/-- The pushkey is not rejected, and through the gateway the pusher is not removed. -/
def KeepsPusher (F : CaseFolding) (findPushkins : PyStr → List Pushkin)
    (endpoint : Json → Reply) (n : Notification) (device : Device) : Prop :=
  KeepsPushkey endpoint n device ∧
    removesPusher device.pushkey (handleDispatch F findPushkins n) = false

/-- The answer to the notification, where one is asked for, is a ticket with the status `ok`, or
reports a dead token. -/
def Settled (endpoint : Json → Reply) (n : Notification) (device : Device) : Prop :=
  ∀ content, n.content = .obj content →
    (endpoint (expoMessage n device content)).taken ∨
      (endpoint (expoMessage n device content)).dead

/-- **A pushkey whose token is not reported dead is kept exactly when the answer is a ticket with the
status `ok`.** -/
theorem keepsPushkey_iff (endpoint : Json → Reply) (n : Notification) (device : Device) :
    (NotDead endpoint n device → KeepsPushkey endpoint n device) ↔ Settled endpoint n device := by
  constructor
  · intro hkeeps content hcontent
    by_cases hdead : (endpoint (expoMessage n device content)).dead
    · exact .inr hdead
    · left
      have hnot : NotDead endpoint n device := by
        intro other hother
        obtain rfl := Json.obj.inj (hcontent.symm.trans hother)
        exact hdead
      obtain ⟨htaken, -⟩ | ⟨-, heq⟩ := expoDispatch_eq endpoint device hcontent
      · exact htaken
      · exact absurd List.mem_cons_self (hkeeps hnot _ (by rw [expoPushkin, heq]; rfl))
  · intro hgood hnot rejected heq
    cases hcontent : n.content with
    | obj content =>
        have htaken := (hgood content hcontent).resolve_right (hnot content hcontent)
        obtain ⟨-, hnil⟩ | ⟨hnone, -⟩ := expoDispatch_eq endpoint device hcontent
        · rw [expoPushkin, hnil] at heq
          rw [← Option.some.inj heq]
          exact List.not_mem_nil
        · exact absurd htaken hnone
    | _ =>
        rw [expoPushkin, expoDispatch, hcontent] at heq
        cases heq

/-- **A pusher whose token is not reported dead is kept exactly when the answer is a ticket with
the status `ok`**, or the answer reports the token dead, or there is no content to send: the pushkin
keeps the pushkey then, whatever other devices the notification has, and the gateway the pusher of a
notification with one device. -/
theorem keepsPusher_iff (F : CaseFolding) (findPushkins : PyStr → List Pushkin)
    (endpoint : Json → Reply) (now limit : ℕ) (n : Notification) (device : Device) :
    ((NotDead endpoint n device → KeepsPushkey endpoint n device) ↔ Settled endpoint n device) ∧
    (n.devices = [device] →
      findPushkins device.appId = [dispatchNotification now limit (expoPushkin endpoint)] →
        ((NotDead endpoint n device → KeepsPusher F findPushkins endpoint n device) ↔
          Settled endpoint n device)) := by
  refine ⟨keepsPushkey_iff endpoint n device, fun hdevices hpushkin => ⟨fun hkeeps => ?_, ?_⟩⟩
  · exact (keepsPushkey_iff endpoint n device).1 fun hnot => (hkeeps hnot).1
  · intro hgood hnot
    have hkey := (keepsPushkey_iff endpoint n device).2 hgood hnot
    refine ⟨hkey, Bool.eq_false_iff.2 fun hremoved => ?_⟩
    obtain ⟨rejected, hresult, hmem⟩ := of_removesPusher F findPushkins hdevices hpushkin hremoved
    exact hkey rejected (dispatchNotification_eq_some_iff.1 hresult).2 hmem

/-- The answer of the endpoint to one message. -/
def answerTicket (ticket : Dict) : Json → Reply := fun _ => .text (some (.obj [("data", .obj ticket)]))

/-- A message with one device of an Expo app. -/
def expoNotification : Notification where
  roomName := .str "Лиза"
  roomAlias := .null
  prio := .str "high"
  membership := .null
  senderDisplayName := .null
  content := .obj [("body", .str "Привет")]
  eventId := .str "$event"
  roomId := .str "!room:liza.local"
  userIsTarget := .null
  type := .str "m.room.message"
  sender := .str "@user:liza.local"
  counts := ⟨some (.int 1), none⟩
  devices := [⟨"ru.liza.expo", "token", .int 0, none, ⟨none⟩⟩]

/-- The device of it. -/
def expoDevice : Device := ⟨"ru.liza.expo", "token", .int 0, none, ⟨none⟩⟩

/-- A notification that is taken keeps the pusher. -/
theorem keepsPusher_on_ok :
    NotDead (answerTicket [("status", .str "ok")]) expoNotification expoDevice ∧
      KeepsPusher asciiFolding
        (fun _ => [dispatchNotification 0 512 (expoPushkin (answerTicket [("status", .str "ok")]))])
        (answerTicket [("status", .str "ok")]) expoNotification expoDevice := by
  have hnot : NotDead (answerTicket [("status", .str "ok")]) expoNotification expoDevice := by
    rintro content - ⟨ticket, details, hticket, hdetails, -⟩
    obtain rfl : [(py "status", Json.str "ok")] = ticket := Option.some.inj hticket
    cases hdetails
  refine ⟨hnot, (keepsPusher_iff asciiFolding
    (fun _ => [dispatchNotification 0 512 (expoPushkin (answerTicket [("status", .str "ok")]))])
    (answerTicket [("status", .str "ok")]) 0 512 expoNotification expoDevice).2 rfl rfl |>.2 ?_ hnot⟩
  exact fun content _ => .inl ⟨_, rfl, rfl⟩

/-- **A timeout of the endpoint removes the pusher; so does a ticket with `MessageRateExceeded`.**
-/
theorem pusher_removed_on_timeout :
    ¬(NotDead (fun _ => .raises) expoNotification expoDevice →
        KeepsPusher asciiFolding
          (fun _ => [dispatchNotification 0 512 (expoPushkin fun _ => .raises)])
          (fun _ => .raises) expoNotification expoDevice) ∧
      removesPusher "token" (handleDispatch asciiFolding
        (fun _ => [dispatchNotification 0 512 (expoPushkin fun _ => .raises)])
        expoNotification) = true ∧
      removesPusher "token" (handleDispatch asciiFolding
        (fun _ => [dispatchNotification 0 512 (expoPushkin (answerTicket
          [("status", .str "error"),
            ("details", .obj [("error", .str "MessageRateExceeded")])]))])
        expoNotification) = true := by
  refine ⟨fun h => ?_, by decide, by decide⟩
  have hnot : NotDead (fun _ => .raises) expoNotification expoDevice := by
    rintro content - ⟨ticket, details, hticket, -⟩
    cases hticket
  have hremoved := (h hnot).2
  revert hremoved
  decide

end Sygnal
end Liza
