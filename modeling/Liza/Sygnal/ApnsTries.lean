/-
# The tries of a dispatch to APNs

`ApnsPushkin._dispatch_notification_unlimited` of `servers/sygnal/sygnal/apnspushkin.py`, from the
request on, with `_dispatch_request`.  What APNs does is a parameter: a reply for every try.

When the tries are used up the pushkin raises, so that the gateway answers with 502 and the
homeserver tries again; the pushkin for FCM returns there.  `apns_answers_iff` is the difference:
that nothing is rejected is answered for no message that APNs has not taken.
-/

import Liza.Lib.Tries
import Liza.Sygnal.ApnsRequest
import Liza.Sygnal.GcmTries

set_option autoImplicit false

namespace Liza
namespace Sygnal

open Lib

/-- `ApnsPushkin.MAX_TRIES`. -/
def apnsMaxTries : ℕ := 3

/-- `TOKEN_ERRORS`. -/
def tokenErrors : List (ℕ × Option PyStr) :=
  [(400, some (py "BadDeviceToken")), (400, some (py "DeviceTokenNotForTopic")),
    (400, some (py "TopicDisallowed")), (410, some (py "Unregistered"))]

/-- What a try meets: `aioapns.ConnectionError`, another exception of the client or of the
conversion of the token, or a response. -/
inductive ApnsReply where
  | connectionError
  | failure
  | response (code : ℕ) (description : Option PyStr)
deriving DecidableEq

/-- `_dispatch_request`: another try after a temporary failure; `none` for another exception. -/
def dispatchRequest (device : Device) : ApnsReply → Try Unit (Option (List PyStr))
  | .connectionError => .again ()
  | .failure => .stop none
  | .response code description =>
      if code = 200 then .stop (some [])
      else if (code, description) ∈ tokenErrors then .stop (some [device.pushkey])
      else if 500 ≤ code ∧ code < 600 then .again ()
      else .stop none

/-- The loop over the tries; it raises when they are used up. -/
def apnsSend (server : ℕ → ApnsRequest → ApnsReply) (request : ApnsRequest) (device : Device) :
    Option (List PyStr) :=
  match tries (fun k _ => dispatchRequest device (server k request)) apnsMaxTries 0 () with
  | .again _ => none
  | .stop result => result

/-- `_dispatch_notification_unlimited`; `none` for an exception. -/
def apnsPushkin (cfg : ApnsConfig) (server : ℕ → ApnsRequest → ApnsReply) : Pushkin :=
  fun n device =>
    match apnsDispatch cfg n device with
    | .error _ => none
    | .ok (.rejected pushkeys) => some pushkeys
    | .ok .nothing => some []
    | .ok (.request request) => apnsSend server request device

/-! ### What the replies say -/

namespace ApnsReply

/-- The failure is temporary. -/
def Temporary : ApnsReply → Prop
  | .connectionError => True
  | .failure => False
  | .response code description =>
      500 ≤ code ∧ code < 600 ∧ (code, description) ∉ tokenErrors

/-- APNs has taken the notification. -/
def Taken : ApnsReply → Prop
  | .response code _ => code = 200
  | _ => False

/-- The token is to be rejected. -/
def Rejects : ApnsReply → Prop
  | .response code description => (code, description) ∈ tokenErrors
  | _ => False

end ApnsReply

/-- No token error has the status of a success. -/
theorem code_ne_of_mem_tokenErrors {code : ℕ} {description : Option PyStr}
    (h : (code, description) ∈ tokenErrors) : code ≠ 200 := by
  simp only [tokenErrors, List.mem_cons, Prod.mk.injEq, List.not_mem_nil, or_false] at h
  omega

section

variable {device : Device}

theorem dispatchRequest_again_iff (reply : ApnsReply) :
    dispatchRequest device reply = .again () ↔ reply.Temporary := by
  cases reply with
  | connectionError => simp [dispatchRequest, ApnsReply.Temporary]
  | failure => simp [dispatchRequest, ApnsReply.Temporary]
  | response code description =>
      unfold dispatchRequest ApnsReply.Temporary
      dsimp only
      split_ifs with h200 htoken h5
      · simp [h200]
      · simp [htoken]
      · simp [h5, htoken]
      · simp only [false_iff]
        exact fun h => h5 ⟨h.1, h.2.1⟩

theorem dispatchRequest_taken_iff (reply : ApnsReply) :
    dispatchRequest device reply = .stop (some []) ↔ reply.Taken := by
  cases reply with
  | connectionError => simp [dispatchRequest, ApnsReply.Taken]
  | failure => simp [dispatchRequest, ApnsReply.Taken]
  | response code description =>
      unfold dispatchRequest ApnsReply.Taken
      dsimp only
      split_ifs <;> simp_all

theorem dispatchRequest_rejects_iff (reply : ApnsReply) :
    (∃ rejected, dispatchRequest device reply = .stop (some rejected) ∧ device.pushkey ∈ rejected) ↔
      reply.Rejects := by
  cases reply with
  | connectionError => simp [dispatchRequest, ApnsReply.Rejects]
  | failure => simp [dispatchRequest, ApnsReply.Rejects]
  | response code description =>
      unfold dispatchRequest ApnsReply.Rejects
      dsimp only
      split_ifs with h200 htoken h5
      · have : (code, description) ∉ tokenErrors := fun h => code_ne_of_mem_tokenErrors h h200
        simp [this]
      · simp [htoken]
      · simp [htoken]
      · simp [htoken]

/-- Some try has a reply of a kind, and those before it fail for the time being. -/
def AfterTemporary (server : ℕ → ApnsRequest → ApnsReply) (request : ApnsRequest)
    (kind : ApnsReply → Prop) : Prop :=
  ∃ k < apnsMaxTries, kind (server k request) ∧ ∀ j < k, (server j request).Temporary

variable {server : ℕ → ApnsRequest → ApnsReply} {request : ApnsRequest}

/-- **What the loop returns, some try has returned**, and those before it failed for the time
being. -/
theorem apnsSend_eq_some_iff {rejected : List PyStr} :
    apnsSend server request device = some rejected ↔
      AfterTemporary server request fun reply =>
        dispatchRequest device reply = .stop (some rejected) := by
  have hstop : apnsSend server request device = some rejected ↔
      tries (fun k _ => dispatchRequest device (server k request)) apnsMaxTries 0 () =
        .stop (some rejected) := by
    unfold apnsSend
    split <;> rename_i h <;> simp [h]
  rw [hstop, tries_eq_stop_iff fun _ _ _ => rfl]
  unfold AfterTemporary
  simp only [Nat.zero_add, dispatchRequest_again_iff]

theorem apnsSend_nil_iff :
    apnsSend server request device = some [] ↔
      AfterTemporary server request ApnsReply.Taken := by
  rw [apnsSend_eq_some_iff]
  unfold AfterTemporary
  simp only [dispatchRequest_taken_iff]

theorem apnsSend_rejects_iff :
    (∃ rejected, apnsSend server request device = some rejected ∧ device.pushkey ∈ rejected) ↔
      AfterTemporary server request ApnsReply.Rejects := by
  simp only [apnsSend_eq_some_iff, AfterTemporary]
  constructor
  · rintro ⟨rejected, ⟨k, hk, hreply, hbefore⟩, hmem⟩
    exact ⟨k, hk, (dispatchRequest_rejects_iff _).1 ⟨rejected, hreply, hmem⟩, hbefore⟩
  · rintro ⟨k, hk, hreply, hbefore⟩
    obtain ⟨rejected, heq, hmem⟩ := (dispatchRequest_rejects_iff _).2 hreply
    exact ⟨rejected, ⟨k, hk, heq, hbefore⟩, hmem⟩

/-! ### Through the gateway -/

variable {F : CaseFolding} {findPushkins : PyStr → List Pushkin} {cfg : ApnsConfig}
  {n : Notification} {now limit : ℕ}

/-- A dispatch that rejects without a request rejects the pushkey of the device. -/
theorem rejected_of_apnsDispatch {pushkeys : List PyStr}
    (h : apnsDispatch cfg n device = .ok (.rejected pushkeys)) : pushkeys = [device.pushkey] := by
  unfold apnsDispatch at h
  split at h
  · obtain ⟨payload, -, h⟩ := Py.bind_eq_ok h
    split at h
    · cases Except.ok.inj h
    · obtain ⟨shaved, -, h⟩ := Py.bind_eq_ok h
      obtain ⟨prio, -, h⟩ := Py.bind_eq_ok h
      cases Except.ok.inj h
  · exact (ApnsOutcome.rejected.inj (Except.ok.inj h)).symm

/-- **What the gateway answers for a device with APNs.**  The pusher is removed exactly when its
default payload is malformed or APNs refuses the token; and that nothing is rejected is answered
exactly when the post is not for the platform, there is nothing to send, or APNs has taken the
message. -/
theorem apns_answers_iff (hdevices : n.devices = [device])
    (hpushkin : findPushkins device.appId =
      [dispatchNotification now limit (apnsPushkin cfg server)]) :
    (removesPusher device.pushkey (handleDispatch F findPushkins n) = true ↔
      shouldSkip F n device = .ok none ∧ now < limit ∧
        (apnsDispatch cfg n device = .ok (.rejected [device.pushkey]) ∨
          ∃ request, apnsDispatch cfg n device = .ok (.request request) ∧
            AfterTemporary server request ApnsReply.Rejects)) ∧
      (handleDispatch F findPushkins n = some [] ↔
        (∃ platform, shouldSkip F n device = .ok (some platform)) ∨
          shouldSkip F n device = .ok none ∧ now < limit ∧
            (apnsDispatch cfg n device = .ok .nothing ∨
              ∃ request, apnsDispatch cfg n device = .ok (.request request) ∧
                AfterTemporary server request ApnsReply.Taken)) := by
  have hremoves : removesPusher device.pushkey (handleDispatch F findPushkins n) = true ↔
      ∃ rejected, handleDispatch F findPushkins n = some rejected ∧ device.pushkey ∈ rejected := by
    simp [removesPusher, Option.any_eq_true]
  rw [hremoves, handleDispatch_single hdevices hpushkin]
  cases hskip : shouldSkip F n device with
  | error e => simp
  | ok skipped =>
      cases skipped with
      | some platform => simp
      | none =>
          simp only [dispatchNotification_eq_some_iff, apnsPushkin, true_and, and_assoc,
            exists_and_left, reduceCtorEq, Except.ok.injEq, exists_false, false_or]
          cases hdispatch : apnsDispatch cfg n device with
          | error e => simp
          | ok outcome =>
              cases outcome with
              | rejected pushkeys =>
                  obtain rfl := rejected_of_apnsDispatch hdispatch
                  simp
              | nothing => simp
              | request request =>
                  rw [apnsSend_rejects_iff, apnsSend_nil_iff]
                  simp

end

/-- A device of an application that clears notifications. -/
def clearDevice : Device :=
  ⟨"ru.liza.app", "key", .int 0, some [("default_payload", .obj [("liza_clear_v", .int 1)])], ⟨none⟩⟩

/-- The request for it. -/
def clearRequest : ApnsRequest where
  payload := getPayloadClearing (badgePush 0 clearDevice) [("liza_clear_v", .int 1)]
  prio := 5
  pushType := some .background
  timeToLive := some clearingPushTtlSeconds

/-- APNs cannot be reached once, and then says that the token is no longer valid. -/
def gone (k : ℕ) (_ : ApnsRequest) : ApnsReply :=
  if k = 0 then .connectionError else .response 410 (some "Unregistered")

/-- A token that is no longer valid is found out by the second try. -/
theorem token_rejected_on_second_try :
    removesPusher clearDevice.pushkey (handleDispatch asciiFolding
      (fun _ => [dispatchNotification 0 512 (apnsPushkin apnsConfig gone)])
      (badgePush 0 clearDevice)) = true := by
  have hrequest : apnsDispatch apnsConfig (badgePush 0 clearDevice) clearDevice =
      .ok (.request clearRequest) := by
    have hfits : truncate usualLimits clearRequest.payload maxJsonBodySize =
        .ok clearRequest.payload := by
      have hshort : isTooLong usualLimits clearRequest.payload maxJsonBodySize = .ok false := by
        decide +kernel
      have hsilent : clearRequest.payload.get? "aps" = some silentAps := aps_clearing _ _
      rw [truncate_silent hsilent, hshort]
    refine (request_iff _ _ _ _).2 ⟨[("liza_clear_v", .int 1)], _, _, 5, rfl, rfl, ?_, rfl, rfl⟩
    change shavedPayload _ _ _ clearRequest.payload = .ok clearRequest.payload
    rw [shavedPayload, show apnsConfig.limits = usualLimits from rfl, hfits]
  have hrejects : (gone 1 clearRequest).Rejects :=
    show (410, some (py "Unregistered")) ∈ tokenErrors by decide
  refine (@apns_answers_iff clearDevice _ _ _ _ _ _ _ rfl rfl).1.2
    ⟨by decide, by decide, .inr ⟨clearRequest, hrequest, 1, by decide, hrejects, ?_⟩⟩
  intro j hj
  obtain rfl : j = 0 := by omega
  trivial

end Sygnal
end Liza
