/-
# Notifications as Sygnal receives them

`servers/sygnal/sygnal/notifications.py`: the classes `Notification`, `Counts`,
`Device` and `Tweaks`, with the checks of their constructors.  Most fields of a
notification are taken from the JSON object without any check of their type.
-/

import Liza.Lib.PyOps

set_option autoImplicit false

namespace Liza
namespace Sygnal

open Lib

/-- The exceptions of Sygnal: `InvalidNotificationException` with its text, and
`BodyTooLongException`. -/
inductive SygnalExn where
  | invalidNotification (message : PyStr)
  | bodyTooLong
deriving DecidableEq

/-- The limits of the interpreter, as they are where they are reached: how deep a value is that
`copy.deepcopy` gets through, in `_get_payload_full` and in `_get_payload_story`, which that
calls; how deep one that `json.dumps` gets through; and how many digits of a number it writes. -/
structure Limits where
  copyDepth : ℕ
  storyDepth : ℕ
  dumpDepth : ℕ
  digits : ℕ

/-- A value of the Python type `int`; `bool` is one of its subtypes. -/
inductive PyInt where
  | int (n : ℤ)
  | bool (b : Bool)
deriving DecidableEq

namespace PyInt

/-- `isinstance(v, int)`. -/
def ofJson : Json → Option PyInt
  | .int n => some (.int n)
  | .bool b => some (.bool b)
  | _ => none

/-- The number. -/
def val : PyInt → ℤ
  | .int n => n
  | .bool b => if b then 1 else 0

/-- The value again. -/
def json : PyInt → Json
  | .int n => .int n
  | .bool b => .bool b

/-- `str(v)`.  Each number of a notification is read from JSON, which has no more digits than are
written, so this does not fail; a sum of two may have one more. -/
def text : PyInt → PyStr
  | .int n => py (toString n)
  | .bool b => if b then py "True" else py "False"

end PyInt

/-- `isinstance(v, str)`. -/
def asStr : Json → Option PyStr
  | .str s => some s
  | _ => none

/-- `isinstance(v, dict)`. -/
def asDict : Json → Option Dict
  | .obj d => some d
  | _ => none

/-- `get_key`, where `type` checks the type; `none` stands for the default. -/
def getKey {α : Type} (raw : Json) (key : PyStr) (type : Json → Option α) :
    Py SygnalExn (Option α) := do
  let present ← Json.has key raw
  if present then
    let v ← Json.item key raw
    match type v with
    | some a => .ok (some a)
    | none => Py.throw (.user (.invalidNotification (key ++ py " is of invalid type")))
  else .ok none

/-- `Tweaks`. -/
structure Tweaks where
  sound : Option PyStr
deriving DecidableEq

/-- `Counts`. -/
structure Counts where
  unread : Option PyInt
  missedCalls : Option PyInt
deriving DecidableEq

/-- `Device`. -/
structure Device where
  appId : PyStr
  pushkey : PyStr
  pushkeyTs : PyInt
  data : Option Dict
  tweaks : Tweaks

/-- `Notification`. -/
structure Notification where
  roomName : Json
  roomAlias : Json
  prio : Json
  membership : Json
  senderDisplayName : Json
  content : Json
  eventId : Json
  roomId : Json
  userIsTarget : Json
  type : Json
  sender : Json
  counts : Counts
  devices : List Device

/-- `Tweaks.__init__`. -/
def Tweaks.ofJson (raw : Json) : Py SygnalExn Tweaks := do
  let sound ← getKey raw "sound" asStr
  .ok ⟨sound⟩

/-- `Counts.__init__`. -/
def Counts.ofJson (raw : Json) : Py SygnalExn Counts := do
  let unread ← getKey raw "unread" PyInt.ofJson
  let missedCalls ← getKey raw "missed_calls" PyInt.ofJson
  .ok ⟨unread, missedCalls⟩

/-- A string that a device must have. -/
def requiredStr (raw : Json) (key : PyStr) : Py SygnalExn PyStr := do
  let present ← Json.has key raw
  let missing : Py SygnalExn PyStr :=
    Py.throw (.user (.invalidNotification (py "Device with missing or non-string " ++ key)))
  if present then
    let v ← Json.item key raw
    match v with
    | .str s => .ok s
    | _ => missing
  else missing

/-- `Device.__init__`. -/
def Device.ofJson (raw : Json) : Py SygnalExn Device := do
  let appId ← requiredStr raw "app_id"
  let pushkey ← requiredStr raw "pushkey"
  let pushkeyTs ← getKey raw "pushkey_ts" PyInt.ofJson
  let data ← getKey raw "data" asDict
  let tweaks ← getKey raw "tweaks" asDict
  let tweaks ← Tweaks.ofJson (.obj (tweaks.getD []))
  .ok ⟨appId, pushkey, pushkeyTs.getD (.int 0), data, tweaks⟩

/-- `[Device(d) for d in ...]`. -/
def devicesOf : List Json → Py SygnalExn (List Device)
  | [] => .ok []
  | d :: ds => do
      let device ← Device.ofJson d
      let devices ← devicesOf ds
      .ok (device :: devices)

/-- `Notification.__init__`. -/
def Notification.ofJson (notif : Dict) : Py SygnalExn Notification := do
  match notif.get? "devices" with
  | some (.arr ds) =>
      let counts ← Counts.ofJson ((notif.get? "counts").getD (.obj []))
      let devices ← devicesOf ds
      .ok { roomName := notif.get "room_name"
            roomAlias := notif.get "room_alias"
            prio := notif.get "prio"
            membership := notif.get "membership"
            senderDisplayName := notif.get "sender_display_name"
            content := notif.get "content"
            eventId := notif.get "event_id"
            roomId := notif.get "room_id"
            userIsTarget := notif.get "user_is_target"
            type := notif.get "type"
            sender := notif.get "sender"
            counts := counts
            devices := devices }
  | _ => Py.throw (.user (.invalidNotification "Expected list in 'devices' key"))

end Sygnal
end Liza
