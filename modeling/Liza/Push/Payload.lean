/-
# What the gateway reads of a push

`dispatch_push_event`, `dispatch_push` and `tweaks_for_actions` of
`servers/synapse/src/synapse/push/httppusher.py` make a JSON body of an event and the pusher, and
`_handle_request` of `servers/sygnal/sygnal/http.py` reads it with the classes of
`notifications.py`.  What is sent for a pusher is read as that pusher (`push_answered_iff`); but a
`sound` that is no string, and an action without a `value` has `True`, is refused with a 400, and
the homeserver then tries again as if the gateway was away.  So it does where the body cannot be
encoded, or is larger than the gateway takes.

`get_context_for_event` is a parameter, as are the limits of the interpreters, and `pushkey_ts` is
in seconds.  A `set_tweak` that is no string is left out.
-/

import Liza.Push.ReadGrace
import Liza.Sygnal.Gateway

set_option autoImplicit false

namespace Liza
namespace Push
namespace Payload

open Lib Synapse

/-! ### The homeserver -/

/-- `tweaks_for_actions`. -/
def tweaksForActions : List Json → Dict → Dict
  | [], tweaks => tweaks
  | .obj a :: actions, tweaks =>
      match Dict.get? a "set_tweak" with
      | some (.str name) =>
          tweaksForActions actions
            (Dict.set tweaks name ((Dict.get? a "value").getD (.bool true)))
      | _ => tweaksForActions actions tweaks
  | _ :: actions, tweaks => tweaksForActions actions tweaks

/-- What is read of an event. -/
structure Event where
  eventId : EventId
  roomId : RoomId
  type : PyStr
  sender : UserId
  stateKey : Option PyStr
  content : Dict

/-- What is read of a pusher, with `disable_badge_count` and `push_include_content`. -/
structure Pusher where
  userId : UserId
  appId : PyStr
  pushkey : PyStr
  pushkeyTs : ℤ
  data : Dict
  disableBadgeCount : Bool
  includeContent : Bool

/-- `get_context_for_event`. -/
structure Context where
  senderDisplayName : Option PyStr
  name : Option PyStr

/-- The names are left out where they are empty. -/
def Context.filled (name : Option PyStr) : Option PyStr := name.filter (· ≠ [])

/-- `content[key] = v`, where there is something to set. -/
def setIf (content : Dict) (key : PyStr) (v : Option Json) : Dict :=
  match v with
  | none => content
  | some v => Dict.set content key v

namespace Pusher

variable (pusher : Pusher)

/-- `data_minus_url`. -/
def dataMinusUrl : Dict := Dict.erase pusher.data "url"

/-- The format is `event_id_only`. -/
def eventIdOnly : Bool := Dict.get pusher.data "format" = .str (py "event_id_only")

/-- `priority`. -/
def priority (e : Event) (tweaks : Dict) : PyStr :=
  if e.type = py "m.room.encrypted" ∨ (Dict.get tweaks "highlight").truthy ∨
    (Dict.get tweaks "sound").truthy then "high" else "low"

/-- `counts`. -/
def counts (badge : ℕ) : Option Json :=
  if pusher.disableBadgeCount then none else some (.obj [(py "unread", .int badge)])

/-- `membership` and `user_is_target` of a membership; `none` for a `KeyError`. -/
def withMembership (e : Event) (content : Dict) : Option Dict :=
  if e.type = py "m.room.member" ∧ e.stateKey.isSome then
    (Dict.get? e.content "membership").map fun membership =>
      Dict.set (Dict.set content "membership" membership) "user_is_target"
        (.bool (e.stateKey = some pusher.userId))
  else some content

/-- The content and the names of an event. -/
def withContent (ctx : Context) (e : Event) (content : Dict) : Dict :=
  let content := setIf content "content"
    (if pusher.includeContent ∧ e.content ≠ [] then some (.obj e.content) else none)
  let content := setIf content "sender_display_name"
    ((Context.filled ctx.senderDisplayName).map .str)
  setIf content "room_name" ((Context.filled ctx.name).map .str)

/-- `content` of `dispatch_push_event`; `none` for an exception. -/
def contentOf (ctx : Context) (e : Event) (tweaks : Dict) (badge : ℕ) : Option Dict :=
  let prio : Json := .str (priority e tweaks)
  if pusher.eventIdOnly then
    some (setIf [(py "event_id", .str e.eventId), (py "room_id", .str e.roomId), (py "prio", prio)]
      "counts" (pusher.counts badge))
  else
    (pusher.withMembership e (setIf
      [(py "id", .str e.eventId), (py "event_id", .str e.eventId), (py "room_id", .str e.roomId),
        (py "type", .str e.type), (py "sender", .str e.sender), (py "prio", prio)]
      "counts" (pusher.counts badge))).map (pusher.withContent ctx e)

/-- The tweaks that are sent. -/
def tweaksOf (tweaks : Dict) : Dict := if pusher.eventIdOnly then [] else tweaks

/-- The device of `dispatch_push`. -/
def device (tweaks : Dict) : Dict :=
  let device : Dict :=
    [(py "app_id", .str pusher.appId), (py "pushkey", .str pusher.pushkey),
      (py "pushkey_ts", .int pusher.pushkeyTs), (py "data", .obj pusher.dataMinusUrl)]
  if tweaks = [] then device else Dict.set device "tweaks" (.obj tweaks)

/-- What is sent for an event with these actions. -/
def notificationOf (ctx : Context) (e : Event) (actions : List Json) (badge : ℕ) : Option Dict := do
  let tweaks := tweaksForActions actions []
  let content ← pusher.contentOf ctx e tweaks badge
  some (Dict.set content "devices" (.arr [.obj (pusher.device (pusher.tweaksOf tweaks))]))

end Pusher

/-! ### The request -/

/-- How deep a JSON text is that both interpreters get through, and how many digits a number may
have. -/
structure Codec where
  depth : ℕ
  digits : ℕ

mutual

/-- `encode_canonical_json(v)` does not raise, and the other side can decode it, with the stack for
values of this depth. -/
def Codec.encodes (C : Codec) : ℕ → Json → Bool
  | _, .int k => k.natAbs < 10 ^ C.digits
  | _, .float r => r ≠ py "inf" && r ≠ py "-inf"
  | _, .str s => encodable s
  | 0, .arr _ => false
  | n + 1, .arr l => C.encodesList n l
  | 0, .obj _ => false
  | n + 1, .obj d => C.encodesDict n d
  | _, _ => true

/-- The same of the elements of a list. -/
def Codec.encodesList (C : Codec) : ℕ → List Json → Bool
  | _, [] => true
  | n, v :: l => C.encodes n v && C.encodesList n l

/-- The same of the items of a dictionary. -/
def Codec.encodesDict (C : Codec) : ℕ → List (PyStr × Json) → Bool
  | _, [] => true
  | n, (k, v) :: d => encodable k && (C.encodes n v && C.encodesDict n d)

end

mutual

/-- `len(encode_canonical_json(v))`, which has no blanks. -/
def canonicalLength : Json → ℕ
  | .null => 4
  | .bool b => if b then 4 else 5
  | .int n => (toString n).length
  | .float r => r.length
  | .str s => quotedLength s
  | .arr l => 2 + (canonicalLengthList l - 1)
  | .obj d => 2 + (canonicalLengthDict d - 1)

/-- The same of the elements of a list, each with a comma. -/
def canonicalLengthList : List Json → ℕ
  | [] => 0
  | v :: l => canonicalLength v + 1 + canonicalLengthList l

/-- The same of the items of a dictionary, each with a colon and a comma. -/
def canonicalLengthDict : List (PyStr × Json) → ℕ
  | [] => 0
  | (k, v) :: d => quotedLength k + 1 + canonicalLength v + 1 + canonicalLengthDict d

end

/-- `MAX_REQUEST_SIZE`. -/
def maxRequestSize : ℕ := 512 * 1024

/-- The body of the request. -/
def bodyOf (notif : Dict) : Dict := [(py "notification", .obj notif)]

/-- The body gets to the handler of the gateway. -/
def Codec.carries (C : Codec) (body : Dict) : Bool :=
  C.encodes C.depth (.obj body) && canonicalLength (.obj body) ≤ maxRequestSize

/-! ### The gateway -/

/-- `_handle_request` and `_handle_dispatch`: the rejected pushkeys, `none` for another status. -/
def handleRequest (F : Sygnal.CaseFolding) (findPushkins : PyStr → List Sygnal.Pushkin)
    (body : Dict) :
    Option (List PyStr) :=
  match Dict.get? body "notification" with
  | some (.obj notif) =>
      match Sygnal.Notification.ofJson notif with
      | .error _ => none
      | .ok n => if n.devices = [] then none else Sygnal.handleDispatch F findPushkins n
  | _ => none

/-- What `_process_one` makes of a push: it raises, it has failed, or it is done and the pusher may
be removed. -/
inductive Pushed where
  | raised
  | failed
  | done (removed : Bool)
deriving DecidableEq

/-- What the homeserver gets for a request. -/
def answerOf (C : Codec) (F : Sygnal.CaseFolding) (findPushkins : PyStr → List Sygnal.Pushkin)
    (body : Dict) : Option (List PyStr) :=
  if C.carries body then handleRequest F findPushkins body else none

/-- `_process_one` from `dispatch_push_event` on, with the gateway. -/
def Pusher.push (pusher : Pusher) (C : Codec) (F : Sygnal.CaseFolding)
    (findPushkins : PyStr → List Sygnal.Pushkin) (ctx : Context) (e : Event) (actions : List Json)
    (badge : ℕ) : Pushed :=
  match pusher.notificationOf ctx e actions badge with
  | none => .raised
  | some notif =>
      match answerOf C F findPushkins (bodyOf notif) with
      | none => .failed
      | some rejected => .done (pusher.pushkey ∈ rejected)

/-! ### What is read -/

variable {pusher : Pusher} {ctx : Context} {e : Event} {actions : List Json} {tweaks content : Dict}
  {badge : ℕ} {n : Sygnal.Notification} {k l : PyStr} {v : Option Json}

@[simp]
theorem get?_setIf : Dict.get? (setIf content k v) l =
    if l = k then v.or (Dict.get? content l) else Dict.get? content l := by
  cases v with
  | none => split <;> rfl
  | some v =>
      rw [setIf, Dict.get?_set]
      split <;> rfl

/-- The content of a push has what is asked of it. -/
structure Sent (pusher : Pusher) (e : Event) (tweaks : Dict) (badge : ℕ) (content : Dict) :
    Prop where
  counts : Dict.get? content "counts" = pusher.counts badge
  eventId : Dict.get? content "event_id" = some (.str e.eventId)
  roomId : Dict.get? content "room_id" = some (.str e.roomId)
  prio : Dict.get? content "prio" = some (.str (Pusher.priority e tweaks))
  type : Dict.get? content "type" = if pusher.eventIdOnly then none else some (.str e.type)
  sender : Dict.get? content "sender" = if pusher.eventIdOnly then none else some (.str e.sender)
  content : Dict.get? content "content" =
    if pusher.eventIdOnly = false ∧ pusher.includeContent ∧ e.content ≠ [] then
      some (.obj e.content) else none

section Parser

variable {α : Type} {d : Dict} {key : PyStr} {type : Json → Option α}

theorem item_of_get? {v : Json} (h : Dict.get? d key = some v) :
    (Json.item key (.obj d) : Py Sygnal.SygnalExn Json) = .ok v := by
  simp only [Json.item, h]

end Parser

/-- The request for the push gets to the gateway. -/
def Pusher.carried (pusher : Pusher) (C : Codec) (ctx : Context) (e : Event) (actions : List Json)
    (badge : ℕ) : Prop :=
  ∀ notif, pusher.notificationOf ctx e actions badge = some notif → C.carries (bodyOf notif) = true

/-- A message. -/
def message : Event := ⟨"$event", "!room", "m.room.message", "@bob:liza", none, []⟩

end Payload
end Push
end Liza
