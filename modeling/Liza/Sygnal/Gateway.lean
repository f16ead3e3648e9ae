/-
# The push gateway

`V1NotifyHandler._handle_dispatch` of `servers/sygnal/sygnal/http.py`: every device of a
notification is given to the one pushkin of its app, and the pushkeys that the pushkins reject are
the answer.  An exception of a pushkin ends the request with a status of 500 or 502; on the side
of the homeserver, `HttpPusher.dispatch_push` makes `False` of either, so that an exception is
`none` here.  `_process_one` removes the pusher when its pushkey is among the rejected ones.
-/

import Liza.Sygnal.NewsAudience

set_option autoImplicit false

namespace Liza
namespace Sygnal

open Lib

/-- `dispatch_notification` of a pushkin: the pushkeys it rejects, `none` where it raises. -/
abbrev Pushkin := Notification → Device → Option (List PyStr)

/-- `ConcurrencyLimitedPushkin.dispatch_notification`, with `concurrentNow` requests in flight. -/
def dispatchNotification (concurrentNow concurrentLimit : ℕ) (unlimited : Pushkin) : Pushkin :=
  fun n device => if concurrentNow ≥ concurrentLimit then none else unlimited n device

variable (F : CaseFolding) (findPushkins : PyStr → List Pushkin)

/-- The loop over the devices. -/
def handleDevices (n : Notification) : List Device → List PyStr → Option (List PyStr)
  | [], rejected => some rejected
  | d :: ds, rejected =>
      match findPushkins d.appId with
      | [pushkin] =>
          match shouldSkip F n d with
          | .error _ => none
          | .ok (some _) => handleDevices n ds rejected
          | .ok none =>
              match pushkin n d with
              | none => none
              | some result => handleDevices n ds (rejected ++ result)
      -- no pushkin for the app, or more than one
      | _ => handleDevices n ds (rejected ++ [d.pushkey])

/-- `_handle_dispatch`: the rejected pushkeys; `none` for a status of 500 or 502. -/
def handleDispatch (n : Notification) : Option (List PyStr) :=
  handleDevices F findPushkins n n.devices []

/-- What `_process_one` does with the answer of the gateway: whether the pusher is removed. -/
def removesPusher (pushkey : PyStr) (answer : Option (List PyStr)) : Bool :=
  answer.any fun rejected => pushkey ∈ rejected

/-- **A pusher is removed only when the pushkin of its device rejects it.** -/
theorem of_removesPusher {n : Notification} {device : Device} {pushkin : Pushkin}
    (hdevices : n.devices = [device]) (hpushkin : findPushkins device.appId = [pushkin])
    (h : removesPusher device.pushkey (handleDispatch F findPushkins n) = true) :
    ∃ rejected, pushkin n device = some rejected ∧ device.pushkey ∈ rejected := by
  simp only [handleDispatch, hdevices, handleDevices, hpushkin, List.nil_append] at h
  split at h
  · exact absurd h Bool.false_ne_true
  · simp [removesPusher] at h
  · split at h
    · exact absurd h Bool.false_ne_true
    · rename_i rejected hrejected
      exact ⟨rejected, hrejected, by simpa [removesPusher] using h⟩

/-- What a dispatch that is let through returns. -/
theorem dispatchNotification_eq_some_iff {now limit : ℕ} {unlimited : Pushkin} {n : Notification}
    {device : Device} {rejected : List PyStr} :
    dispatchNotification now limit unlimited n device = some rejected ↔
      now < limit ∧ unlimited n device = some rejected := by
  unfold dispatchNotification
  split
  · rename_i h
    simp [Nat.not_lt.2 h]
  · rename_i h
    simp [Nat.not_le.1 h]

end Sygnal
end Liza
