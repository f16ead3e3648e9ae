/-
# The tries of a dispatch to FCM

`GcmPushkin._dispatch_notification_unlimited` of `servers/sygnal/sygnal/gcmpushkin.py`, from the
request on: the loop over the tries, with `_request_dispatch`, `_handle_legacy_response` and
`_handle_v1_response`.  A try that fails for the time being is made again after a pause; with the
legacy API an answer may also leave some of the registration ids to be tried again.

What FCM does is a parameter, `server`: for every try the answer to the request, `none` where
`_perform_http_request` fails.  Of an answer there are the status, the `Retry-After` headers as
`int` reads them (`none` where it raises), and the text as JSON (`none` where it is not).
`reactor.callLater` raises for a negative delay.

When the tries are used up the loop is left as if it had been ended: the pushkin returns what was
rejected so far, and the gateway answers that all is well.
-/

import Liza.Lib.Tries
import Liza.Sygnal.Gateway
import Liza.Sygnal.Gcm
import Mathlib.Algebra.Ring.Int.Defs

set_option autoImplicit false

namespace Liza
namespace Sygnal

open Lib

/-- `MAX_TRIES`. -/
def maxTries : ℕ := 3

/-- `RETRY_DELAY_BASE`. -/
def retryDelayBase : ℤ := 10

/-- `RETRY_DELAY_BASE_QUOTA_EXCEEDED`. -/
def retryDelayBaseQuotaExceeded : ℤ := 60

/-- `BAD_PUSHKEY_FAILURE_CODES`. -/
def badPushkeyFailureCodes : List PyStr :=
  [py "MissingRegistration", py "InvalidRegistration", py "NotRegistered", py "InvalidPackageName",
    py "MismatchSenderId"]

/-- `BAD_MESSAGE_FAILURE_CODES`. -/
def badMessageFailureCodes : List PyStr :=
  [py "MessageTooBig", py "InvalidDataKey", py "InvalidTtl"]

/-- An answer of FCM. -/
structure FcmAnswer where
  code : ℕ
  retryAfter : List (Option ℤ)
  json : Option Json

/-- How `_request_dispatch` ends: the pushkeys that failed and those to try again, one of the two
exceptions that the loop catches, or another one. -/
inductive Handled where
  | sorted (failed newPushkeys : List PyStr)
  | temporary (customRetryDelay : Option ℤ)
  | quota (customRetryDelay : Option ℤ)
  | raised
deriving DecidableEq

/-- `retry_after` after the loop over the headers. -/
def retryAfterOf (headers : List (Option ℤ)) : Option (Option ℤ) :=
  headers.foldlM (fun _ header => header.map some) none

/-- An exception that carries `retry_after`. -/
def withRetryAfter (answer : FcmAnswer) (exception : Option ℤ → Handled) : Handled :=
  match retryAfterOf answer.retryAfter with
  | some delay => exception delay
  | none => .raised

/-- The values that `enumerate` goes through. -/
def elements : Json → Option (List Json)
  | .arr l => some l
  | .obj d => some (d.map fun kv => .str kv.1)
  | .str s => some (s.map fun c => .str [c])
  | _ => none

/-- `result["error"]` where there is one. -/
def errorOf (result : Json) : Option (Option Json) :=
  match (result.has "error" : Py Unit Bool) with
  | .error _ => none
  | .ok false => some none
  | .ok true =>
      match (result.item "error" : Py Unit Json) with
      | .ok error => some (some error)
      | .error _ => none

/-- `value in codes`. -/
def isCode (codes : List PyStr) : Json → Bool
  | .str s => s ∈ codes
  | _ => false

/-- The loop over the results: the failed pushkeys and those to try again; `none` for an
exception. -/
def sortResults : List PyStr → List Json → Option (List PyStr × List PyStr)
  | _, [] => some ([], [])
  | pushkeys, result :: results => do
      let error ← errorOf result
      match error with
      | none => sortResults pushkeys.tail results
      | some error =>
          let pushkey ← pushkeys.head?
          let (failed, newPushkeys) ← sortResults pushkeys.tail results
          if isCode badPushkeyFailureCodes error then some (pushkey :: failed, newPushkeys)
          else if isCode badMessageFailureCodes error then some (failed, newPushkeys)
          else some (failed, pushkey :: newPushkeys)

/-- `resp_object["results"]`, looked at one by one. -/
def resultsOf (answer : FcmAnswer) : Option (List Json) := do
  let json ← answer.json
  let results ← (json.item "results" : Py Unit Json).toOption
  elements results

/-- `_handle_legacy_response`. -/
def handleLegacyResponse (answer : FcmAnswer) (pushkeys : List PyStr) : Handled :=
  if 500 ≤ answer.code ∧ answer.code < 600 then withRetryAfter answer .temporary
  else if answer.code = 404 then .sorted pushkeys []
  else if 200 ≤ answer.code ∧ answer.code < 300 then
    match (resultsOf answer).bind (sortResults pushkeys) with
    | some (failed, newPushkeys) => .sorted failed newPushkeys
    | none => .raised
  else .raised

/-- `_handle_v1_response`. -/
def handleV1Response (answer : FcmAnswer) (pushkeys : List PyStr) : Handled :=
  if 500 ≤ answer.code ∧ answer.code < 600 then withRetryAfter answer .temporary
  else if answer.code = 429 then withRetryAfter answer .quota
  else if answer.code = 404 then .sorted pushkeys []
  else if 200 ≤ answer.code ∧ answer.code < 300 then .sorted [] []
  else .raised

/-- `_request_dispatch`. -/
def requestDispatch (apiVersion : APIVersion) (reply : Option FcmAnswer) (pushkeys : List PyStr) :
    Handled :=
  match reply with
  | none => .temporary none
  | some answer =>
      match apiVersion with
      | .legacy => handleLegacyResponse answer pushkeys
      | .v1 => handleV1Response answer pushkeys

/-- The pause after a try, where one is made. -/
def retryDelay (retryNumber : ℕ) : Handled → Option ℤ
  | .temporary custom => some (custom.getD (retryDelayBase * 2 ^ retryNumber))
  | .quota custom => some (custom.getD (retryDelayBaseQuotaExceeded * 2 ^ retryNumber))
  | _ => none

/-- `body` and `pushkeys` before a try, and `failed`. -/
structure Sending where
  body : Dict
  pushkeys : List PyStr
  failed : List PyStr

/-- The body with the addresses of a try. -/
def address (apiVersion : APIVersion) (body : Dict) (pushkeys : List PyStr) : Dict :=
  match apiVersion with
  | .legacy =>
      match pushkeys with
      | [pushkey] => body.set "to" (.str pushkey)
      | _ => body.set "registration_ids" (.arr (pushkeys.map .str))
  | .v1 => body

/-- The request of a try. -/
def Sending.request (apiVersion : APIVersion) (s : Sending) : Dict :=
  address apiVersion s.body s.pushkeys

/-- One try: the loop is left with the failed pushkeys, or by an exception (`none`). -/
def sendOnce (apiVersion : APIVersion) (server : ℕ → Dict → Option FcmAnswer) (retryNumber : ℕ)
    (s : Sending) : Try Sending (Option (List PyStr)) :=
  let body := s.request apiVersion
  let handled := requestDispatch apiVersion (server retryNumber body) s.pushkeys
  match handled with
  | .sorted newFailed [] => .stop (some (s.failed ++ newFailed))
  | .sorted newFailed newPushkeys => .again ⟨body, newPushkeys, s.failed ++ newFailed⟩
  | _ =>
      match retryDelay retryNumber handled with
      | none => .stop none
      | some delay => if delay < 0 then .stop none else .again { s with body := body }

/-- The loop over the tries, and what is returned after it. -/
def sendAll (apiVersion : APIVersion) (server : ℕ → Dict → Option FcmAnswer) (s : Sending) :
    Option (List PyStr) :=
  match tries (sendOnce apiVersion server) maxTries 0 s with
  | .again s => some s.failed
  | .stop result => result

/-- What the world does for a dispatch: whether `_get_auth_header` returns, and the replies. -/
structure Fcm where
  authorised : Bool
  server : ℕ → Dict → Option FcmAnswer

/-- `_dispatch_notification_unlimited`; `none` for an exception. -/
def gcmDispatch (cfg : GcmConfig) (base : Dict) (fcm : Fcm) (n : Notification) (device : Device) :
    Option (List PyStr) :=
  match (dispatch cfg base n device).2 with
  | .error _ => none
  | .ok .alreadySent => some []
  | .ok (.rejected pushkeys) => some pushkeys
  | .ok .discarded => some []
  | .ok (.request body) =>
      if fcm.authorised then sendAll cfg.apiVersion fcm.server ⟨body, pushkeysOf cfg n device, []⟩
      else none

/-- The request is addressed already when the loop is entered. -/
theorem address_requestLegacy (base data : Dict) (pushkeys : List PyStr) :
    address .legacy (requestLegacy base data pushkeys) pushkeys =
      requestLegacy base data pushkeys := by
  match pushkeys with
  | [] => exact Dict.set_set _ _ _ _
  | [_] => exact Dict.set_set _ _ _ _
  | _ :: _ :: _ => exact Dict.set_set _ _ _ _

/-! ### The API v1 -/

/-- A try with this reply is followed by a pause: the request failed, or FCM answered with 5xx or
429 and no `Retry-After` header that `int` or `callLater` refuses. -/
def Pauses (reply : Option FcmAnswer) : Prop :=
  ∀ answer ∈ reply, (500 ≤ answer.code ∧ answer.code < 600 ∨ answer.code = 429) ∧
    ∃ delay, retryAfterOf answer.retryAfter = some delay ∧ ∀ seconds ∈ delay, 0 ≤ seconds

/-- FCM does not know the registration id. -/
def Gone (reply : Option FcmAnswer) : Prop := ∃ answer ∈ reply, answer.code = 404

/-- FCM has taken the message. -/
def Accepts (reply : Option FcmAnswer) : Prop :=
  ∃ answer ∈ reply, 200 ≤ answer.code ∧ answer.code < 300

/-- What one try comes to with the API v1. -/
inductive SentV1 (reply : Option FcmAnswer) (s : Sending) (pushkey : PyStr) :
    Try Sending (Option (List PyStr)) → Prop where
  | pauses (h : Pauses reply) : SentV1 reply s pushkey (.again s)
  | gone (h : Gone reply) : SentV1 reply s pushkey (.stop (some [pushkey]))
  | accepts (h : Accepts reply) : SentV1 reply s pushkey (.stop (some []))
  | raised (hp : ¬Pauses reply) (hg : ¬Gone reply) (ha : ¬Accepts reply) :
      SentV1 reply s pushkey (.stop none)

section V1

variable {server : ℕ → Dict → Option FcmAnswer} {body : Dict} {pushkey : PyStr} {i : ℕ}

/-- A default delay is not negative. -/
theorem retryDelay_default_nonneg {base : ℤ} (hbase : 0 ≤ base) (custom : Option ℤ) (i : ℕ)
    (h : ∀ seconds ∈ custom, 0 ≤ seconds) : 0 ≤ custom.getD (base * 2 ^ i) := by
  cases custom with
  | none => exact Int.mul_nonneg hbase (Int.pow_nonneg (by decide))
  | some seconds => exact h seconds rfl

/-- A try whose answer asks for a pause. -/
theorem sentV1_withRetryAfter {answer : FcmAnswer} (exception : Option ℤ → Handled) (base : ℤ)
    (hbase : 0 ≤ base)
    (hcode : 500 ≤ answer.code ∧ answer.code < 600 ∨ answer.code = 429)
    (hexception : ∀ custom, retryDelay i (exception custom) = some (custom.getD (base * 2 ^ i)))
    (hhandled : requestDispatch .v1 (server i body) [pushkey] = withRetryAfter answer exception)
    (hreply : server i body = some answer) :
    SentV1 (server i body) ⟨body, [pushkey], []⟩ pushkey
      (sendOnce .v1 server i ⟨body, [pushkey], []⟩) := by
  have hother : ∀ a ∈ server i body, a = answer := by
    intro a ha
    exact Option.some.inj ((Option.mem_def.1 ha).symm.trans hreply)
  have hgone : ¬Gone (server i body) := by
    rintro ⟨a, ha, hcode'⟩
    obtain rfl := hother a ha
    omega
  have haccepts : ¬Accepts (server i body) := by
    rintro ⟨a, ha, hcode'⟩
    obtain rfl := hother a ha
    omega
  have hsorted : ∀ custom failed new, exception custom ≠ .sorted failed new := by
    intro custom failed new h
    have := hexception custom
    rw [h] at this
    cases this
  unfold sendOnce
  simp only [Sending.request, address, hhandled, withRetryAfter]
  cases hdelay : retryAfterOf answer.retryAfter with
  | none =>
      refine .raised (fun hp => ?_) hgone haccepts
      obtain ⟨-, delay, hsome, -⟩ := hp answer hreply
      rw [hdelay] at hsome
      cases hsome
  | some custom =>
      dsimp only
      split
      · rename_i h
        exact absurd h (hsorted custom _ _)
      · rename_i h
        exact absurd h (hsorted custom _ _)
      · rw [hexception custom]
        dsimp only
        split
        · rename_i hneg
          refine .raised (fun hp => ?_) hgone haccepts
          obtain ⟨-, delay, hsome, hdelays⟩ := hp answer hreply
          obtain rfl := Option.some.inj (hdelay.symm.trans hsome)
          exact absurd (retryDelay_default_nonneg hbase custom i hdelays) (Int.not_le.2 hneg)
        · rename_i hnonneg
          refine .pauses fun a ha => ?_
          obtain rfl := hother a ha
          refine ⟨hcode, custom, hdelay, fun seconds hseconds => ?_⟩
          obtain rfl := Option.mem_def.1 hseconds
          exact Int.not_lt.1 hnonneg

/-- **One try with the API v1**, by its reply. -/
theorem sentV1 (server : ℕ → Dict → Option FcmAnswer) (body : Dict) (pushkey : PyStr) (i : ℕ) :
    SentV1 (server i body) ⟨body, [pushkey], []⟩ pushkey
      (sendOnce .v1 server i ⟨body, [pushkey], []⟩) := by
  cases hreply : server i body with
  | none =>
      have hpause : ¬retryDelayBase * 2 ^ i < 0 :=
        Int.not_lt.2 (retryDelay_default_nonneg (by decide) none i (by simp))
      have hagain : sendOnce .v1 server i ⟨body, [pushkey], []⟩ = .again ⟨body, [pushkey], []⟩ := by
        simp [sendOnce, Sending.request, address, hreply, requestDispatch, retryDelay, hpause]
      rw [hagain]
      exact .pauses (by simp [Pauses])
  | some answer =>
      rw [← hreply]
      by_cases h5 : 500 ≤ answer.code ∧ answer.code < 600
      · refine sentV1_withRetryAfter .temporary retryDelayBase (by decide)
          (.inl h5) (fun _ => rfl) ?_ hreply
        simp [requestDispatch, hreply, handleV1Response, h5]
      by_cases h429 : answer.code = 429
      · refine sentV1_withRetryAfter .quota retryDelayBaseQuotaExceeded
          (by decide) (.inr h429) (fun _ => rfl) ?_ hreply
        simp [requestDispatch, hreply, handleV1Response, h429]
      by_cases h404 : answer.code = 404
      · have hstop : sendOnce .v1 server i ⟨body, [pushkey], []⟩ = .stop (some [pushkey]) := by
          simp [sendOnce, Sending.request, address, hreply, requestDispatch, handleV1Response, h404]
        rw [hstop]
        exact .gone ⟨answer, hreply, h404⟩
      by_cases h2 : 200 ≤ answer.code ∧ answer.code < 300
      · have hstop : sendOnce .v1 server i ⟨body, [pushkey], []⟩ = .stop (some []) := by
          simp [sendOnce, Sending.request, address, hreply, requestDispatch, handleV1Response, h5,
            h429, h404, h2]
        rw [hstop]
        exact .accepts ⟨answer, hreply, h2⟩
      have hstop : sendOnce .v1 server i ⟨body, [pushkey], []⟩ = .stop none := by
        simp [sendOnce, Sending.request, address, hreply, requestDispatch, handleV1Response, h5,
          h429, h404, h2, retryDelay]
      rw [hstop]
      refine .raised ?_ ?_ ?_
      · intro hp
        obtain ⟨hcode, -⟩ := hp answer hreply
        exact hcode.elim h5 h429
      · rintro ⟨a, ha, hcode⟩
        obtain rfl := Option.some.inj ((Option.mem_def.1 ha).symm.trans hreply)
        exact h404 hcode
      · rintro ⟨a, ha, hcode⟩
        obtain rfl := Option.some.inj ((Option.mem_def.1 ha).symm.trans hreply)
        exact h2 hcode

theorem Pauses.not_gone {reply : Option FcmAnswer} (h : Pauses reply) : ¬Gone reply := by
  rintro ⟨answer, hanswer, hcode⟩
  have := (h answer hanswer).1
  omega

theorem Pauses.not_accepts {reply : Option FcmAnswer} (h : Pauses reply) : ¬Accepts reply := by
  rintro ⟨answer, hanswer, hcode⟩
  have := (h answer hanswer).1
  omega

theorem Gone.not_accepts {reply : Option FcmAnswer} (h : Gone reply) : ¬Accepts reply := by
  rintro ⟨answer, hanswer, hcode⟩
  obtain ⟨other, hother, hgone⟩ := h
  obtain rfl := Option.some.inj ((Option.mem_def.1 hanswer).symm.trans hother)
  omega

theorem sendOnce_v1_again_iff {t : Sending} :
    sendOnce .v1 server i ⟨body, [pushkey], []⟩ = .again t ↔
      t = ⟨body, [pushkey], []⟩ ∧ Pauses (server i body) := by
  have hsent := sentV1 server body pushkey i
  generalize sendOnce .v1 server i ⟨body, [pushkey], []⟩ = r at hsent ⊢
  cases hsent with
  | pauses h => exact ⟨fun ht => ⟨(Try.again.inj ht).symm, h⟩, fun ht => ht.1 ▸ rfl⟩
  | gone h => exact ⟨fun ht => (by cases ht), fun ht => absurd h ht.2.not_gone⟩
  | accepts h => exact ⟨fun ht => (by cases ht), fun ht => absurd h ht.2.not_accepts⟩
  | raised hp hg ha => exact ⟨fun ht => (by cases ht), fun ht => absurd ht.2 hp⟩

theorem sendOnce_v1_gone_iff :
    sendOnce .v1 server i ⟨body, [pushkey], []⟩ = .stop (some [pushkey]) ↔
      Gone (server i body) := by
  have hsent := sentV1 server body pushkey i
  generalize sendOnce .v1 server i ⟨body, [pushkey], []⟩ = r at hsent ⊢
  cases hsent with
  | pauses h => exact ⟨fun ht => (by cases ht), fun hg => absurd hg h.not_gone⟩
  | gone h => exact ⟨fun _ => h, fun _ => rfl⟩
  | accepts h => exact ⟨fun ht => (by cases ht), fun hg => absurd h hg.not_accepts⟩
  | raised hp hg ha => exact ⟨fun ht => (by cases ht), fun h => absurd h hg⟩

theorem sendOnce_v1_accepts_iff :
    sendOnce .v1 server i ⟨body, [pushkey], []⟩ = .stop (some []) ↔ Accepts (server i body) := by
  have hsent := sentV1 server body pushkey i
  generalize sendOnce .v1 server i ⟨body, [pushkey], []⟩ = r at hsent ⊢
  cases hsent with
  | pauses h => exact ⟨fun ht => (by cases ht), fun ha => absurd ha h.not_accepts⟩
  | gone h => exact ⟨fun ht => (by cases ht), fun ha => absurd ha h.not_accepts⟩
  | accepts h => exact ⟨fun _ => h, fun _ => rfl⟩
  | raised hp hg ha => exact ⟨fun ht => (by cases ht), fun h => absurd h ha⟩

/-- Some try has a reply of a kind, and those before it were followed by a pause. -/
def AfterPauses (server : ℕ → Dict → Option FcmAnswer) (body : Dict)
    (kind : Option FcmAnswer → Prop) : Prop :=
  ∃ k < maxTries, kind (server k body) ∧ ∀ j < k, Pauses (server j body)

/-- Every try was followed by a pause. -/
def OnlyPauses (server : ℕ → Dict → Option FcmAnswer) (body : Dict) : Prop :=
  ∀ j < maxTries, Pauses (server j body)

/-- **How the loop ends, by the reply it ends with.** -/
theorem tries_v1_iff {result : Option (List PyStr)} {kind : Option FcmAnswer → Prop}
    (hkind : ∀ i, sendOnce .v1 server i ⟨body, [pushkey], []⟩ = .stop result ↔
      kind (server i body)) :
    tries (sendOnce .v1 server) maxTries 0 ⟨body, [pushkey], []⟩ = .stop result ↔
      AfterPauses server body kind := by
  rw [tries_eq_stop_iff fun j t h => (sendOnce_v1_again_iff.1 h).1]
  refine exists_congr fun k => and_congr_right fun _ => and_congr ?_ ?_
  · rw [Nat.zero_add]
    exact hkind k
  · refine forall_congr' fun j => imp_congr_right fun _ => ?_
    rw [Nat.zero_add]
    exact sendOnce_v1_again_iff.trans (and_iff_right rfl)

/-- The tries are used up when every one of them was followed by a pause. -/
theorem tries_v1_again_iff {t : Sending} :
    tries (sendOnce .v1 server) maxTries 0 ⟨body, [pushkey], []⟩ = .again t ↔
      t = ⟨body, [pushkey], []⟩ ∧ OnlyPauses server body := by
  rw [tries_eq_again_iff fun j t h => (sendOnce_v1_again_iff.1 h).1]
  refine and_congr_right fun _ => forall_congr' fun j => imp_congr_right fun _ => ?_
  rw [Nat.zero_add]
  exact sendOnce_v1_again_iff.trans (and_iff_right rfl)

theorem sendAll_v1_rejects_iff :
    sendAll .v1 server ⟨body, [pushkey], []⟩ = some [pushkey] ↔ AfterPauses server body Gone := by
  rw [← @tries_v1_iff server body pushkey _ _ fun i => sendOnce_v1_gone_iff]
  unfold sendAll
  cases h : tries (sendOnce .v1 server) maxTries 0 ⟨body, [pushkey], []⟩ with
  | again t =>
      obtain ⟨rfl, -⟩ := tries_v1_again_iff.1 h
      simp
  | stop result => simp

/-- **Nothing is rejected when FCM takes the message, and also when the tries are used up.** -/
theorem sendAll_v1_nil_iff :
    sendAll .v1 server ⟨body, [pushkey], []⟩ = some [] ↔
      AfterPauses server body Accepts ∨ OnlyPauses server body := by
  rw [← @tries_v1_iff server body pushkey _ _ fun i => sendOnce_v1_accepts_iff]
  unfold sendAll
  cases h : tries (sendOnce .v1 server) maxTries 0 ⟨body, [pushkey], []⟩ with
  | again t =>
      obtain ⟨rfl, hpauses⟩ := tries_v1_again_iff.1 h
      simp [hpauses]
  | stop result =>
      have hnot : ¬OnlyPauses server body := by
        intro hpauses
        have := (@tries_v1_again_iff server body pushkey _).2 ⟨rfl, hpauses⟩
        rw [h] at this
        cases this
      simp [hnot]

/-- A kind of reply that nothing is rejected for is not met in two ways. -/
theorem AfterPauses.not_onlyPauses {kind : Option FcmAnswer → Prop}
    (hkind : ∀ reply, Pauses reply → ¬kind reply) (h : AfterPauses server body kind) :
    ¬OnlyPauses server body := by
  obtain ⟨k, hk, hreply, -⟩ := h
  exact fun hpauses => hkind _ (hpauses k hk) hreply

/-! ### Through the gateway -/

variable {F : CaseFolding} {findPushkins : PyStr → List Pushkin} {cfg : GcmConfig} {base : Dict}
  {fcm : Fcm} {n : Notification} {device : Device} {now limit : ℕ}

/-- A notification for one device of an app with one pushkin. -/
theorem handleDispatch_single {pushkin : Pushkin} (hdevices : n.devices = [device])
    (hpushkin : findPushkins device.appId = [pushkin]) :
    handleDispatch F findPushkins n =
      match shouldSkip F n device with
      | .error _ => none
      | .ok (some _) => some []
      | .ok none => pushkin n device := by
  simp only [handleDispatch, hdevices, handleDevices, hpushkin, List.nil_append]
  cases shouldSkip F n device with
  | error e => rfl
  | ok skipped =>
      cases skipped with
      | some platform => rfl
      | none =>
          cases pushkin n device with
          | none => rfl
          | some rejected => rfl

/-- The request that a dispatch with the API v1 sends. -/
def Requests (cfg : GcmConfig) (base : Dict) (fcm : Fcm) (n : Notification) (device : Device)
    (body : Dict) : Prop :=
  (dispatch cfg base n device).2 = .ok (.request body) ∧ fcm.authorised = true

/-- What a dispatch with the API v1 comes to. -/
theorem gcmDispatch_v1_eq_some_iff (hv1 : cfg.apiVersion = .v1) {rejected : List PyStr} :
    gcmDispatch cfg base fcm n device = some rejected ↔
      (rejected = [device.pushkey] ∧
          buildData n device .v1 cfg.sendBadgeCounts = .ok none) ∨
        (rejected = [] ∧ buildData n device .v1 cfg.sendBadgeCounts = .ok (some [])) ∨
        ∃ body, Requests cfg base fcm n device body ∧
          sendAll .v1 fcm.server ⟨body, [device.pushkey], []⟩ = some rejected := by
  have hkeys : pushkeysOf cfg n device = [device.pushkey] := by rw [pushkeysOf, hv1]
  unfold gcmDispatch Requests dispatch
  simp only [hkeys, hv1, List.head?_cons, ne_eq, not_true_eq_false, if_false]
  cases hdata : buildData n device .v1 cfg.sendBadgeCounts with
  | error e => simp
  | ok data =>
      cases data with
      | none =>
          constructor
          · exact fun h => .inl ⟨(Option.some.inj h).symm, rfl⟩
          · rintro (⟨rfl, -⟩ | ⟨-, h⟩ | ⟨body, ⟨h, -⟩, -⟩)
            · rfl
            · cases h
            · cases h
      | some data =>
          cases data with
          | nil =>
              constructor
              · exact fun h => .inr (.inl ⟨(Option.some.inj h).symm, rfl⟩)
              · rintro (⟨-, h⟩ | ⟨rfl, -⟩ | ⟨body, ⟨h, -⟩, -⟩)
                · cases h
                · rfl
                · cases h
          | cons kv data =>
              dsimp only
              cases hbody : (requestV1 base (kv :: data) n device).2 with
              | error e => simp [bind, Except.bind]
              | ok body => simp [bind, Except.bind]

/-- One request is sent. -/
theorem requests_inj {body body' : Dict} (h : Requests cfg base fcm n device body)
    (h' : Requests cfg base fcm n device body') : body = body' :=
  Outcome.request.inj (Except.ok.inj (h.1.symm.trans h'.1))

/-- Without data no request is sent. -/
theorem requests_of_no_data (hv1 : cfg.apiVersion = .v1) {body : Dict}
    (hdata : buildData n device .v1 cfg.sendBadgeCounts = .ok (some [])) :
    ¬Requests cfg base fcm n device body := by
  rintro ⟨h, -⟩
  rw [dispatch, pushkeysOf, hv1] at h
  simp [hdata] at h

/-- A pushkey that is rejected is the only one. -/
theorem eq_singleton_of_sendAll {rejected : List PyStr}
    (h : sendAll .v1 server ⟨body, [pushkey], []⟩ = some rejected) (hmem : pushkey ∈ rejected) :
    rejected = [pushkey] := by
  unfold sendAll at h
  cases htries : tries (sendOnce .v1 server) maxTries 0 ⟨body, [pushkey], []⟩ with
  | again t =>
      obtain ⟨rfl, -⟩ := tries_v1_again_iff.1 htries
      rw [htries] at h
      obtain rfl := Option.some.inj h
      cases hmem
  | stop result =>
      rw [htries] at h
      obtain rfl : result = some rejected := h
      obtain ⟨k, -, hstop, -⟩ := (tries_eq_stop_iff fun j t h => (sendOnce_v1_again_iff.1 h).1).1
        htries
      have hsent := sentV1 server body pushkey (0 + k)
      rw [hstop] at hsent
      generalize hr : (Try.stop (some rejected) : Try Sending (Option (List PyStr))) = r at hsent
      cases hsent with
      | pauses h => cases hr
      | gone h => exact Option.some.inj (Try.stop.inj hr)
      | accepts h =>
          obtain rfl := Option.some.inj (Try.stop.inj hr)
          cases hmem
      | raised hp hg ha => cases Try.stop.inj hr

/-- **A pusher is removed exactly when its default payload is malformed, or FCM answers one of the
tries with 404** and each try before that was followed by a pause. -/
theorem gcm_removes_iff (hv1 : cfg.apiVersion = .v1) (hdevices : n.devices = [device])
    (hpushkin : findPushkins device.appId =
      [dispatchNotification now limit (gcmDispatch cfg base fcm)]) :
    removesPusher device.pushkey (handleDispatch F findPushkins n) = true ↔
      shouldSkip F n device = .ok none ∧ now < limit ∧
        (buildData n device .v1 cfg.sendBadgeCounts = .ok none ∨
          ∃ body, Requests cfg base fcm n device body ∧ AfterPauses fcm.server body Gone) := by
  have hremoves : removesPusher device.pushkey (handleDispatch F findPushkins n) = true ↔
      ∃ rejected, handleDispatch F findPushkins n = some rejected ∧ device.pushkey ∈ rejected := by
    simp [removesPusher, Option.any_eq_true]
  rw [hremoves, handleDispatch_single hdevices hpushkin]
  cases hskip : shouldSkip F n device with
  | error e => simp
  | ok skipped =>
      cases skipped with
      | some platform => simp
      | none =>
          simp only [dispatchNotification_eq_some_iff, gcmDispatch_v1_eq_some_iff hv1, true_and]
          constructor
          · rintro ⟨rejected, ⟨hnow, hcases⟩, hmem⟩
            refine ⟨hnow, ?_⟩
            rcases hcases with ⟨-, hdata⟩ | ⟨rfl, -⟩ | ⟨body, hbody, hsend⟩
            · exact .inl hdata
            · cases hmem
            · refine .inr ⟨body, hbody, ?_⟩
              rw [← @sendAll_v1_rejects_iff fcm.server body device.pushkey, hsend]
              exact congrArg some (eq_singleton_of_sendAll hsend hmem)
          · rintro ⟨hnow, hdata | ⟨body, hbody, hgone⟩⟩
            · exact ⟨_, ⟨hnow, .inl ⟨rfl, hdata⟩⟩, List.mem_singleton_self _⟩
            · exact ⟨_, ⟨hnow, .inr (.inr ⟨body, hbody, sendAll_v1_rejects_iff.2 hgone⟩)⟩,
                List.mem_singleton_self _⟩

/-- FCM has taken the message for the device. -/
def Taken (F : CaseFolding) (cfg : GcmConfig) (base : Dict) (fcm : Fcm) (now limit : ℕ)
    (n : Notification) (device : Device) : Prop :=
  shouldSkip F n device = .ok none ∧ now < limit ∧
    ∃ body, Requests cfg base fcm n device body ∧ AfterPauses fcm.server body Accepts

/-- **When the gateway answers that nothing was rejected although FCM took no message**: the post
is not for the platform of the device, there is nothing to send, or the tries are used up. -/
theorem gcm_loses_iff (hv1 : cfg.apiVersion = .v1) (hdevices : n.devices = [device])
    (hpushkin : findPushkins device.appId =
      [dispatchNotification now limit (gcmDispatch cfg base fcm)]) :
    handleDispatch F findPushkins n = some [] ∧ ¬Taken F cfg base fcm now limit n device ↔
      (∃ platform, shouldSkip F n device = .ok (some platform)) ∨
        shouldSkip F n device = .ok none ∧ now < limit ∧
          (buildData n device .v1 cfg.sendBadgeCounts = .ok (some []) ∨
            ∃ body, Requests cfg base fcm n device body ∧ OnlyPauses fcm.server body) := by
  unfold Taken
  rw [handleDispatch_single hdevices hpushkin]
  cases hskip : shouldSkip F n device with
  | error e => simp
  | ok skipped =>
      cases skipped with
      | some platform => simp
      | none =>
          simp only [dispatchNotification_eq_some_iff, gcmDispatch_v1_eq_some_iff hv1, true_and,
            List.ne_cons_self, false_and, false_or, sendAll_v1_nil_iff]
          constructor
          · rintro ⟨⟨hnow, hcases⟩, hnot⟩
            refine .inr ⟨hnow, ?_⟩
            rcases hcases with hdata | ⟨body, hbody, htaken | hpauses⟩
            · exact .inl hdata
            · exact absurd ⟨hnow, body, hbody, htaken⟩ hnot
            · exact .inr ⟨body, hbody, hpauses⟩
          · rintro (⟨platform, h⟩ | ⟨hnow, hcases⟩)
            · cases h
            · refine ⟨⟨hnow, hcases.imp id fun ⟨body, hbody, hpauses⟩ =>
                ⟨body, hbody, .inr hpauses⟩⟩, ?_⟩
              rintro ⟨-, body, hbody, htaken⟩
              rcases hcases with hdata | ⟨body', hbody', hpauses⟩
              · exact requests_of_no_data hv1 hdata hbody
              · obtain rfl := requests_inj hbody hbody'
                exact htaken.not_onlyPauses (fun _ => Pauses.not_accepts) hpauses

end V1

/-- A device with FCM, and a message to it. -/
def fcmDevice : Device := ⟨py "ru.liza.android", py "token", .int 0, none, ⟨none⟩⟩

/-- A message for the device. -/
def fcmPush : Notification where
  roomName := .null
  roomAlias := .null
  prio := .str (py "high")
  membership := .null
  senderDisplayName := .null
  content := .null
  eventId := .str (py "$event")
  roomId := .str (py "!room:liza.local")
  userIsTarget := .null
  type := .str (py "m.room.message")
  sender := .str (py "@user:liza.local")
  counts := ⟨none, none⟩
  devices := [fcmDevice]

/-- A pushkin for the API v1. -/
def fcmConfig : GcmConfig := ⟨.v1, [], true, fun _ => true⟩

/-- FCM fails for the first tries, and then answers with a status. -/
def fcmAfter (failures code : ℕ) : Fcm where
  authorised := true
  server k _ := if k < failures then none else some ⟨code, [], none⟩

/-- A registration id that FCM does not know is found out by the second try. -/
theorem removed_on_second_try :
    removesPusher (py "token") (handleDispatch asciiFolding
      (fun _ => [dispatchNotification 0 512 (gcmDispatch fcmConfig [] (fcmAfter 1 404))]) fcmPush) = true := by
  refine (@gcm_removes_iff _ _ _ _ _ _ fcmDevice _ _ rfl rfl rfl).2 ⟨by decide, by decide, .inr ?_⟩
  refine ⟨_, ⟨rfl, rfl⟩, 1, by decide, ⟨⟨404, [], none⟩, rfl, rfl⟩, fun j hj => ?_⟩
  obtain rfl : j = 0 := by omega
  exact fun answer h => by cases h

/-- A message is lost when FCM is away for three tries. -/
theorem lost_when_fcm_is_away :
    handleDispatch asciiFolding
      (fun _ => [dispatchNotification 0 512 (gcmDispatch fcmConfig [] (fcmAfter 3 200))]) fcmPush = some [] ∧
      ¬Taken asciiFolding fcmConfig [] (fcmAfter 3 200) 0 512 fcmPush fcmDevice := by
  refine (gcm_loses_iff rfl rfl rfl).2 (.inr ⟨by decide, by decide, .inr ?_⟩)
  refine ⟨_, ⟨rfl, rfl⟩, fun j hj answer h => ?_⟩
  have hnone : ∀ body, (fcmAfter 3 200).server j body = none := fun _ => if_pos hj
  rw [hnone] at h
  cases h

end Sygnal
end Liza
