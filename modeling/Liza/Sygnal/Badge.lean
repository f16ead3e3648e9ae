/-
# Pushes of counts alone

`HttpPusher._send_badge` of `servers/synapse/src/synapse/push/httppusher.py` sends the number of
unread rooms without an event.  The FCM pushkin puts the number into the data where it is not
zero; the APNs pushkin puts it into a push that clears the notifications, whatever it is.

The notification is followed from the object the homeserver posts, through
`Notification.__init__`, to the request of each pushkin.
-/

import Liza.Sygnal.ApnsRequest

set_option autoImplicit false

namespace Liza
namespace Sygnal

open Lib

/-- What `_send_badge` reads of a pusher; the time is in milliseconds. -/
structure HttpPusher where
  appId : PyStr
  pushkey : PyStr
  pushkeyTs : ℤ
  dataMinusUrl : Dict

/-- The notification that `_send_badge` posts. -/
def sendBadge (pusher : HttpPusher) (badge : ℕ) : Dict :=
  [("id", .str ""), ("type", .null), ("sender", .str ""),
    ("counts", .obj [("unread", .int badge)]),
    ("devices", .arr [.obj [("app_id", .str pusher.appId), ("pushkey", .str pusher.pushkey),
      ("pushkey_ts", .int (pusher.pushkeyTs.tdiv 1000)), ("data", .obj pusher.dataMinusUrl)]])]

/-- The device of a pusher. -/
def HttpPusher.device (pusher : HttpPusher) : Device :=
  ⟨pusher.appId, pusher.pushkey, .int (pusher.pushkeyTs.tdiv 1000), some pusher.dataMinusUrl, ⟨none⟩⟩

/-- What Sygnal reads of the notification. -/
theorem ofJson_sendBadge (pusher : HttpPusher) (badge : ℕ) :
    Notification.ofJson (sendBadge pusher badge) = .ok (badgePush badge pusher.device) := rfl

/-! ### FCM -/

/-- A message with the number is sent to the device of the pusher through FCM. -/
def FcmCarries (cfg : GcmConfig) (base : Dict) (pusher : HttpPusher) (badge : ℕ) : Prop :=
  ∃ n device body message data, Notification.ofJson (sendBadge pusher badge) = .ok n ∧
    n.devices = [device] ∧ (dispatch cfg base n device).2 = .ok (.request body) ∧
    Dict.get? body "message" = some (.obj message) ∧ Dict.get? message "data" = some (.obj data) ∧
    Dict.get? data "unread" = some (.str (toString badge))

/-- The condition: `default_payload` is a dictionary, without lone surrogates in a content that it
has; `android` of the options is one; and the number is not zero, unless `default_payload` makes up
for it. -/
structure FcmMeets (base : Dict) (pusher : HttpPusher) (badge : ℕ) (dp : Dict) : Prop where
  payload : defaultPayload pusher.device = .obj dp
  content : ∀ content, dp.get? "content" = some (.obj content) →
    ∀ item ∈ content, textFits item.2 = true
  android : ((Dict.get? base "android").getD (.obj [])).isObj = true
  count : badge ≠ 0 ∨ ((dp.get "room_id").truthy = true ∨ (dp.get "event_id").truthy = true) ∧
    dp.get? "unread" = some (.str "0")

theorem get?_erase_of_ne (d : Dict) {k l : PyStr} (h : l ≠ k) :
    Dict.get? (Dict.erase d k) l = Dict.get? d l := by
  induction d with
  | nil => rfl
  | cons kv rest ih =>
      obtain ⟨m, v⟩ := kv
      by_cases hm : m = k
      · have hml : m ≠ l := fun heq => h (heq ▸ hm)
        have herase : Dict.erase ((m, v) :: rest) k = Dict.erase rest k := by
          simp [Dict.erase, hm]
        rw [herase, ih, Dict.get?_cons, if_neg hml]
      · have herase : Dict.erase ((m, v) :: rest) k = (m, v) :: Dict.erase rest k := by
          simp [Dict.erase, hm]
        rw [herase, Dict.get?_cons, Dict.get?_cons, ih]

/-- Flattening writes keys with `content_` before them only. -/
theorem get?_flattenContent {data data' : Dict} {items : List (PyStr × Json)} {k : PyStr}
    (h : flattenContent data items = .ok data') (hk : k.head? ≠ some (codePoint 'c')) :
    data'.get? k = data.get? k := by
  induction items generalizing data with
  | nil =>
      obtain rfl := Except.ok.inj h
      rfl
  | cons item items ih =>
      obtain ⟨attr, value⟩ := item
      cases value with
      | str s =>
          obtain ⟨v, -, h⟩ := Py.bind_eq_ok h
          have hne : k ≠ py "content_" ++ attr := by
            rintro rfl
            exact hk rfl
          rw [ih h, Dict.get?_set_of_ne _ _ hne]
      | _ => exact ih h

/-- The keys that are not the content are left by flattening. -/
theorem get?_flatten {data data' : Dict} {k : PyStr} (h : flatten .v1 data = .ok data')
    (hk : k.head? ≠ some (codePoint 'c')) : data'.get? k = data.get? k := by
  unfold flatten at h
  split at h
  · obtain ⟨flat, hflat, h⟩ := Py.bind_eq_ok h
    obtain rfl := Except.ok.inj h
    have hne : k ≠ py "content" := by
      rintro rfl
      exact hk rfl
    rw [get?_erase_of_ne _ hne, get?_flattenContent hflat hk]
  · obtain rfl := Except.ok.inj h
    rfl

/-- The fields of the notification add an empty sender. -/
theorem addFields_badge (dp : Dict) (badge : ℤ) (device : Device) :
    addFields dp (dataFields (badgePush badge device)) = .ok (dp.set "sender" (.str "")) := rfl

/-- What flattening makes of a payload with the empty sender. -/
theorem flatten_badge_iff (dp : Dict) :
    (∃ flat, flatten .v1 (dp.set "sender" (.str "")) = .ok flat) ↔
      ∀ content, dp.get? "content" = some (.obj content) →
        ∀ item ∈ content, textFits item.2 = true := by
  have hne : Dict.get? (dp.set "sender" (.str "")) "content" = dp.get? "content" :=
    Dict.get?_set_of_ne _ _ (by decide)
  have hsafe := safe_flatten .v1 (dp.set "sender" (.str ""))
  rw [hne] at hsafe
  have hplain : (flatten .v1 (dp.set "sender" (.str ""))).Plain := by
    have hloop : ∀ data items, (flattenContent data items).Plain := by
      intro data items
      induction items generalizing data with
      | nil => exact Py.plain_ok data
      | cons item items ih =>
          obtain ⟨attr, value⟩ := item
          cases value with
          | str s => exact (plain_truncateStr _ _).bind fun v => ih _
          | _ => exact ih data
    unfold flatten
    split
    · exact (hloop _ _).bind fun flat => Py.plain_ok _
    · exact Py.plain_ok _
  have hcond : (∀ content, (dp.get? "content").bind asDict = some content →
      ∀ item ∈ content, textFits item.2 = true) ↔
      ∀ content, dp.get? "content" = some (.obj content) →
        ∀ item ∈ content, textFits item.2 = true := by
    have hobj : ∀ content, (dp.get? "content").bind asDict = some content ↔
        dp.get? "content" = some (.obj content) := by
      intro content
      cases dp.get? "content" with
      | none => simp
      | some v => cases v <;> simp [asDict]
    simp only [hobj]
  rw [← hcond]
  constructor
  · rintro ⟨flat, hflat⟩
    have hs : (flatten .v1 (dp.set "sender" (.str ""))).Safe := by
      rw [hflat]
      exact Py.safe_ok flat
    exact hsafe.1 hs rfl
  · intro h
    exact hplain.exists_ok (hsafe.2 fun _ => h)

/-- What becomes of data that is built: nothing is sent where it is empty, or where `android` of
the options is not a dictionary. -/
theorem dispatch_badge_iff {cfg : GcmConfig} (base : Dict) {badge : ℤ} {device : Device}
    {data : Dict} (hv1 : cfg.apiVersion = .v1) (hdata : buildData (badgePush badge device) device .v1
      cfg.sendBadgeCounts = .ok (some data)) (unread : Json) :
    (∃ body message sent,
        (dispatch cfg base (badgePush badge device) device).2 = .ok (.request body) ∧
        Dict.get? body "message" = some (.obj message) ∧
        Dict.get? message "data" = some (.obj sent) ∧ Dict.get? sent "unread" = some unread) ↔
      data ≠ [] ∧ ((Dict.get? base "android").getD (.obj [])).isObj = true ∧
        Dict.get? data "unread" = some unread := by
  have hkeys : pushkeysOf cfg (badgePush badge device) device = [device.pushkey] := by
    rw [pushkeysOf, hv1]
  unfold dispatch
  rw [hv1]
  simp only [hkeys, hdata, List.head?_cons, ne_eq, not_true_eq_false, if_false]
  cases data with
  | nil => simp
  | cons kv rest =>
      cases handroid : (Dict.get? base "android").getD (.obj []) with
      | obj android =>
          have hget : ∀ w : Json, Dict.get? (((base.set "data" (.obj (kv :: rest))).set "android"
              w).set "token" (.str device.pushkey)) "data" = some (.obj (kv :: rest)) := by
            intro w
            rw [Dict.get?_set_of_ne _ _ (by decide), Dict.get?_set_of_ne _ _ (by decide),
              Dict.get?_set_self]
          have hsent : (requestV1 base (kv :: rest) (badgePush badge device) device).2 =
              .ok [("message", .obj (((base.set "data" (.obj (kv :: rest))).set "android"
                (.obj (Dict.set android "priority" (.str "high")))).set "token"
                  (.str device.pushkey)))] := by
            simp only [requestV1, handroid]
            rfl
          simp only [hsent, Py.ok_bind]
          constructor
          · rintro ⟨body, message, sent, hbody, hmessage, hsent', hunread⟩
            obtain rfl := Outcome.request.inj (Except.ok.inj hbody)
            obtain rfl := Json.obj.inj (Option.some.inj hmessage)
            obtain rfl := Json.obj.inj (Option.some.inj ((hget _).symm.trans hsent'))
            exact ⟨List.cons_ne_nil _ _, rfl, hunread⟩
          · rintro ⟨-, -, hunread⟩
            exact ⟨_, _, kv :: rest, rfl, rfl, hget _, hunread⟩
      | _ =>
          have hraises : (requestV1 base (kv :: rest) (badgePush badge device) device).2 =
              Py.throw .typeError := by
            simp only [requestV1, handroid]
            rfl
          simp only [hraises, Py.throw_bind]
          constructor
          · rintro ⟨body, message, sent, hbody, -⟩
            cases hbody
          · rintro ⟨-, hobj, -⟩
            cases hobj

/-- The data of a badge, and when it has the number. -/
theorem buildData_badge (badge : ℕ) {device : Device} {dp flat : Dict}
    (hdp : defaultPayload device = .obj dp)
    (hflat : flatten .v1 (dp.set "sender" (.str "")) = .ok flat) :
    ∃ data, buildData (badgePush badge device) device .v1 true = .ok (some data) ∧
      (data ≠ [] ∧ Dict.get? data "unread" = some (.str (toString badge)) ↔
        badge ≠ 0 ∨ ((dp.get "room_id").truthy = true ∨ (dp.get "event_id").truthy = true) ∧
          dp.get? "unread" = some (.str "0")) := by
  have hget : ∀ k : PyStr, k.head? ≠ some (codePoint 'c') → k ≠ py "prio" → k ≠ py "sender" →
      Dict.get? (flat.set "prio" (.str "high")) k = dp.get? k := by
    intro k hk hprio hsender
    rw [Dict.get?_set_of_ne _ _ hprio, get?_flatten hflat hk, Dict.get?_set_of_ne _ _ hsender]
  have hroom := hget "room_id" (by decide) (by decide) (by decide)
  have hevent := hget "event_id" (by decide) (by decide) (by decide)
  have hunread := hget "unread" (by decide) (by decide) (by decide)
  have hprio : (badgePush badge device).prio ≠ .str "low" := by
    intro h
    cases h
  rw [buildData, hdp]
  simp only [addFields_badge, Py.ok_bind, hflat, if_neg hprio]
  by_cases hzero : badge = 0
  · have hnone : dataCounts (badgePush badge device) .v1 true = [] := by
      rw [hzero]
      rfl
    simp only [hnone, Dict.get, hroom, hevent, and_true]
    split
    · rename_i hdiscard
      refine ⟨[], rfl, ?_⟩
      simp [hzero, hdiscard.1, hdiscard.2]
    · rename_i hkept
      refine ⟨_, rfl, ?_⟩
      change Dict.set flat "prio" _ ≠ [] ∧ Dict.get? (Dict.set flat "prio" _) "unread" = _ ↔ _
      rw [hunread]
      have hsome : (((Dict.get? dp "room_id").getD .null).truthy = true ∨
          ((Dict.get? dp "event_id").getD .null).truthy = true) := by
        by_contra hno
        exact hkept ⟨fun h => hno (.inl h), fun h => hno (.inr h)⟩
      simp only [hzero, ne_eq, not_true_eq_false, false_or, hsome, true_and, set_ne_nil,
        not_false_eq_true]
      rfl
  · have hsome : dataCounts (badgePush badge device) .v1 true =
        [(py "unread", .str (py (toString badge)))] := by
      have hint : ((badge : ℕ) : ℤ) ≠ 0 := by exact_mod_cast hzero
      change countEntry .v1 "unread" (some (.int badge)) ++ [] = _
      simp only [countEntry, PyInt.val, List.append_nil]
      exact if_neg hint
    simp only [hsome, List.cons_ne_nil, and_false, if_false]
    refine ⟨_, rfl, ?_⟩
    change Dict.set _ "unread" _ ≠ [] ∧ Dict.get? (Dict.set _ "unread" _) "unread" = _ ↔ _
    simp [hzero, set_ne_nil]

/-- Where the data cannot be built, the dispatch raises. -/
theorem dispatch_of_error {cfg : GcmConfig} (base : Dict) {n : Notification} {device : Device}
    {e : Exn SygnalExn} (hv1 : cfg.apiVersion = .v1)
    (h : buildData n device .v1 cfg.sendBadgeCounts = .error e) :
    (dispatch cfg base n device).2 = .error e := by
  have hkeys : pushkeysOf cfg n device = [device.pushkey] := by rw [pushkeysOf, hv1]
  simp [dispatch, hkeys, hv1, h]

/-- Where `default_payload` is misconfigured, the pushkey is rejected. -/
theorem dispatch_of_none {cfg : GcmConfig} (base : Dict) {n : Notification} {device : Device}
    (hv1 : cfg.apiVersion = .v1) (h : buildData n device .v1 cfg.sendBadgeCounts = .ok none) :
    (dispatch cfg base n device).2 = .ok (.rejected [device.pushkey]) := by
  have hkeys : pushkeysOf cfg n device = [device.pushkey] := by rw [pushkeysOf, hv1]
  simp [dispatch, hkeys, hv1, h]

/-- **The number is sent through FCM exactly under the condition.** -/
theorem fcmCarries_iff {cfg : GcmConfig} (base : Dict) (pusher : HttpPusher) (badge : ℕ)
    (hv1 : cfg.apiVersion = .v1) (hcounts : cfg.sendBadgeCounts = true) :
    FcmCarries cfg base pusher badge ↔ ∃ dp, FcmMeets base pusher badge dp := by
  have hstart : FcmCarries cfg base pusher badge ↔ ∃ body message sent,
      (dispatch cfg base (badgePush badge pusher.device) pusher.device).2 = .ok (.request body) ∧
      Dict.get? body "message" = some (.obj message) ∧
      Dict.get? message "data" = some (.obj sent) ∧
      Dict.get? sent "unread" = some (.str (toString badge)) := by
    constructor
    · rintro ⟨n, device, body, message, sent, hn, hdevice, hrest⟩
      obtain rfl := Except.ok.inj ((ofJson_sendBadge pusher badge).symm.trans hn)
      obtain rfl := (List.cons.inj hdevice).1
      exact ⟨body, message, sent, hrest⟩
    · rintro ⟨body, message, sent, hrest⟩
      exact ⟨_, _, body, message, sent, ofJson_sendBadge pusher badge, rfl, hrest⟩
  rw [hstart]
  cases hdp : defaultPayload pusher.device with
  | obj dp =>
      by_cases hcontent : ∀ content, Dict.get? dp "content" = some (.obj content) →
          ∀ item ∈ content, textFits item.2 = true
      · obtain ⟨flat, hflat⟩ := (flatten_badge_iff dp).2 hcontent
        obtain ⟨data, hdata, hmeets⟩ := buildData_badge badge hdp hflat
        rw [← hcounts] at hdata
        rw [dispatch_badge_iff base hv1 hdata]
        constructor
        · rintro ⟨hne, handroid, hunread⟩
          exact ⟨dp, hdp, hcontent, handroid, hmeets.1 ⟨hne, hunread⟩⟩
        · rintro ⟨dp', hdp', -, handroid, hcount⟩
          obtain rfl := Json.obj.inj (hdp.symm.trans hdp')
          obtain ⟨hne, hunread⟩ := hmeets.2 hcount
          exact ⟨hne, handroid, hunread⟩
      · have hraises : ∃ e, buildData (badgePush badge pusher.device) pusher.device .v1
            cfg.sendBadgeCounts = .error e := by
          have hnone : ∀ flat, flatten .v1 (Dict.set dp "sender" (.str "")) ≠ .ok flat :=
            fun flat hflat => hcontent ((flatten_badge_iff dp).1 ⟨flat, hflat⟩)
          rw [buildData, hdp]
          simp only [addFields_badge, Py.ok_bind]
          cases hflat : flatten .v1 (Dict.set dp "sender" (.str "")) with
          | error e => exact ⟨e, rfl⟩
          | ok flat => exact absurd hflat (hnone flat)
        obtain ⟨e, he⟩ := hraises
        constructor
        · rintro ⟨body, message, sent, hbody, -⟩
          rw [dispatch_of_error base hv1 he] at hbody
          cases hbody
        · rintro ⟨dp', hdp', hcontent', -⟩
          obtain rfl := Json.obj.inj (hdp.symm.trans hdp')
          exact absurd hcontent' hcontent
  | _ =>
      have hnone : buildData (badgePush badge pusher.device) pusher.device .v1
          cfg.sendBadgeCounts = .ok none := by rw [buildData, hdp]
      constructor
      · rintro ⟨body, message, sent, hbody, -⟩
        rw [dispatch_of_none base hv1 hnone] at hbody
        cases hbody
      · rintro ⟨dp, hdp', -⟩
        rw [hdp] at hdp'
        cases hdp'

/-! ### APNs -/

/-- The payload has the number in its counts. -/
def carriesCount (payload : Dict) (badge : ℕ) : Prop :=
  ∃ counts, Dict.get? payload "counts" = some (.obj counts) ∧
    Dict.get? counts "unread" = some (.int badge)

/-- A background push with the number is sent to the device of the pusher through APNs. -/
def ApnsCarries (cfg : ApnsConfig) (pusher : HttpPusher) (badge : ℕ) : Prop :=
  ∃ n device r, Notification.ofJson (sendBadge pusher badge) = .ok n ∧ n.devices = [device] ∧
    apnsDispatch cfg n device = .ok (.request r) ∧ r.pushType = some .background ∧
    carriesCount r.payload badge

/-- The payload that is built for the number is too long, and cannot be cut. -/
def TooLongFor (cfg : ApnsConfig) (pusher : HttpPusher) (badge : ℕ) (dp : Dict) : Prop :=
  ∃ payload, payloadOf cfg (badgePush badge pusher.device) pusher.device dp = .ok (some payload) ∧
    truncate cfg.limits payload maxJsonBodySize = .error (.user .bodyTooLong)

/-- The condition: the push that clears is not switched off, and it fits.  A payload that does not
fit is replaced by `default_payload`, which may have the number by itself. -/
def ApnsMeets (cfg : ApnsConfig) (pusher : HttpPusher) (badge : ℕ) (dp : Dict) : Prop :=
  (cfg.clearingPush = true ∧
      isTooLong cfg.limits (getPayloadClearing (badgePush badge pusher.device) dp)
        maxJsonBodySize = .ok false) ∨
    (TooLongFor cfg pusher badge dp ∧
      (cfg.clearingPush = true ∨ cfg.pushType = some .background) ∧
      (apsOf dp).isObj = true ∧ carriesCount dp badge)

/-- The entries that stand in for a payload leave the counts. -/
theorem carriesCount_fallback (cfg : ApnsConfig) (badge : ℕ) (device : Device) (dp : Dict) :
    carriesCount (fallbackPayload cfg (badgePush badge device) dp) badge ↔
      carriesCount dp badge := by
  have hleft : leftPayload (badgePush badge device) dp = dp := if_neg Bool.false_ne_true
  have hget : Dict.get? (fallbackPayload cfg (badgePush badge device) dp) "counts" =
      dp.get? "counts" := by
    unfold fallbackPayload
    rw [hleft]
    refine Dict.get?_update_of_ne _ fun kv hkv => ?_
    cases hsend : cfg.sendBadgeCounts with
    | false =>
        rw [hsend] at hkv
        cases hkv
    | true =>
        rw [hsend] at hkv
        obtain rfl : kv = (py "unread_count", Json.int badge) := List.mem_singleton.1 hkv
        exact show py "unread_count" ≠ py "counts" by decide
  unfold carriesCount
  rw [hget]

/-- What is sent of a payload that is built. -/
theorem apnsCarries_iff_of_payload {cfg : ApnsConfig} {pusher : HttpPusher} {badge : ℕ}
    {dp payload : Dict} (hdp : defaultPayload pusher.device = .obj dp)
    (hpayload : payloadOf cfg (badgePush badge pusher.device) pusher.device dp =
      .ok (some payload)) :
    ApnsCarries cfg pusher badge ↔
      (isClearingPush cfg (badgePush badge pusher.device) dp = true ∨
          cfg.pushType = some .background) ∧
        ((∃ p, truncate cfg.limits payload maxJsonBodySize = .ok p ∧ (apsOf p).isObj = true ∧
            carriesCount p badge) ∨
          (truncate cfg.limits payload maxJsonBodySize = .error (.user .bodyTooLong) ∧
            (apsOf dp).isObj = true ∧ carriesCount dp badge)) := by
  constructor
  · rintro ⟨n, device, r, hn, hdevice, hr, hbackground, hcarries⟩
    obtain rfl := Except.ok.inj ((ofJson_sendBadge pusher badge).symm.trans hn)
    obtain rfl := (List.cons.inj hdevice).1
    obtain ⟨dp', payload', shaved, prio, hdp', hpayload', hshaved, hprio, rfl⟩ :=
      (request_iff cfg _ _ r).1 hr
    obtain rfl := Json.obj.inj (hdp.symm.trans hdp')
    obtain rfl := Option.some.inj (Except.ok.inj (hpayload.symm.trans hpayload'))
    refine ⟨(background_iff _ _ _ _ _).1 hbackground, ?_⟩
    have hobj := (prioOf_eq_ok_iff shaved).1 ⟨prio, hprio⟩
    unfold shavedPayload at hshaved
    split at hshaved
    · rename_i hlong
      obtain rfl := Except.ok.inj hshaved
      refine .inr ⟨hlong, ?_, (carriesCount_fallback cfg badge pusher.device dp).1 hcarries⟩
      rwa [← isObj_fallback cfg (badgePush badge pusher.device) dp]
    · exact .inl ⟨shaved, hshaved, hobj, hcarries⟩
  · rintro ⟨hbackground, ⟨p, hcut, hobj, hcarries⟩ | ⟨hlong, hobj, hcarries⟩⟩
    · obtain ⟨prio, hprio⟩ := (prioOf_eq_ok_iff p).2 hobj
      have hshaved : shavedPayload cfg (badgePush badge pusher.device) dp payload = .ok p := by
        rw [shavedPayload, hcut]
      exact ⟨_, _, _, ofJson_sendBadge pusher badge, rfl, (request_iff cfg _ _ _).2
        ⟨dp, payload, p, prio, hdp, hpayload, hshaved, hprio, rfl⟩,
        (background_iff _ _ _ _ _).2 hbackground, hcarries⟩
    · obtain ⟨prio, hprio⟩ :=
        (prioOf_eq_ok_iff (fallbackPayload cfg (badgePush badge pusher.device) dp)).2
          ((isObj_fallback cfg (badgePush badge pusher.device) dp).trans hobj)
      have hshaved : shavedPayload cfg (badgePush badge pusher.device) dp payload =
          .ok (fallbackPayload cfg (badgePush badge pusher.device) dp) := by
        rw [shavedPayload, hlong]
        rfl
      exact ⟨_, _, _, ofJson_sendBadge pusher badge, rfl, (request_iff cfg _ _ _).2
        ⟨dp, payload, _, prio, hdp, hpayload, hshaved, hprio, rfl⟩,
        (background_iff _ _ _ _ _).2 hbackground,
        (carriesCount_fallback cfg badge pusher.device dp).2 hcarries⟩

/-- A push that clears has the number. -/
theorem carriesCount_clearing (badge : ℕ) (device : Device) (dp : Dict) :
    carriesCount (getPayloadClearing (badgePush badge device) dp) badge :=
  ⟨[("unread", .int badge)], Dict.get?_set_self _ _ _, rfl⟩

/-- Without the push that clears, the counts are a text. -/
theorem not_carriesCount_full {L : Limits} {badge : ℕ} {device : Device}
    {sendBadgeCounts : Bool} {payload : Dict}
    (h : getPayloadFull L (badgePush badge device) device sendBadgeCounts = .ok (some payload)) :
    ∀ counts, Dict.get? payload "counts" ≠ some (.obj counts) := by
  cases sendBadgeCounts with
  | false => cases h
  | true =>
      obtain rfl := Option.some.inj (Except.ok.inj h)
      intro counts hget
      cases hget

/-- **The number is sent through APNs exactly under the condition**, to a device that declares
`liza_clear_v`. -/
theorem apnsCarries_iff (cfg : ApnsConfig) (pusher : HttpPusher) (badge : ℕ) {dp : Dict}
    (hdp : defaultPayload pusher.device = .obj dp)
    (hdeclares : dp.get? "liza_clear_v" = some (.int 1)) :
    ApnsCarries cfg pusher badge ↔ ApnsMeets cfg pusher badge dp := by
  have hclearing : isClearingPush cfg (badgePush badge pusher.device) dp = cfg.clearingPush := by
    rw [isClearingPush, Dict.get, hdeclares]
    simp [countsOnlyPush, badgePush, Json.truthy, equalsOne]
  unfold ApnsMeets TooLongFor
  by_cases hon : cfg.clearingPush = true
  · have hpayload : payloadOf cfg (badgePush badge pusher.device) pusher.device dp =
        .ok (some (getPayloadClearing (badgePush badge pusher.device) dp)) := by
      rw [payloadOf, hclearing, if_pos hon]
    have haps := aps_clearing (badgePush badge pusher.device) dp
    have hcut : (∃ p, truncate cfg.limits (getPayloadClearing (badgePush badge pusher.device) dp)
          maxJsonBodySize = .ok p ∧ (apsOf p).isObj = true ∧ carriesCount p badge) ↔
        isTooLong cfg.limits (getPayloadClearing (badgePush badge pusher.device) dp)
          maxJsonBodySize = .ok false := by
      constructor
      · rintro ⟨p, hp, -⟩
        rw [truncate_silent haps] at hp
        split at hp
        · cases hp
        · assumption
        · cases hp
      · intro hfits
        refine ⟨_, by rw [truncate_silent haps, hfits], ?_, carriesCount_clearing badge _ dp⟩
        rw [apsOf, haps]
        rfl
    rw [apnsCarries_iff_of_payload hdp hpayload, hclearing, hpayload, hcut]
    simp only [hon, true_or, true_and, Except.ok.injEq, Option.some.injEq, exists_eq_left']
  · have hpayload : payloadOf cfg (badgePush badge pusher.device) pusher.device dp =
        getPayloadFull cfg.limits (badgePush badge pusher.device) pusher.device
          cfg.sendBadgeCounts := by
      rw [payloadOf, hclearing, if_neg hon, if_neg (by exact Bool.false_ne_true)]
    simp only [hon, Bool.false_eq_true, false_and, false_or]
    by_cases hsome : ∃ payload, getPayloadFull cfg.limits (badgePush badge pusher.device)
        pusher.device cfg.sendBadgeCounts = .ok (some payload)
    · obtain ⟨payload, hfull⟩ := hsome
      have hcut : ¬∃ p, truncate cfg.limits payload maxJsonBodySize = .ok p ∧
          (apsOf p).isObj = true ∧ carriesCount p badge := by
        rintro ⟨p, hp, -, counts, hcounts, -⟩
        rw [get?_truncate hp (by decide)] at hcounts
        exact not_carriesCount_full hfull counts hcounts
      rw [hpayload, hfull, apnsCarries_iff_of_payload hdp (hpayload.trans hfull), hclearing]
      simp only [hon, Bool.false_eq_true, false_or, Except.ok.injEq, Option.some.injEq,
        exists_eq_left', hcut]
      tauto
    · constructor
      · rintro ⟨n, device, r, hn, hdevice, hr, -⟩
        obtain rfl := Except.ok.inj ((ofJson_sendBadge pusher badge).symm.trans hn)
        obtain rfl := (List.cons.inj hdevice).1
        obtain ⟨dp', payload, -, -, hdp', hpayload', -⟩ := (request_iff cfg _ _ r).1 hr
        obtain rfl := Json.obj.inj (hdp.symm.trans hdp')
        exact absurd ⟨payload, hpayload.symm.trans hpayload'⟩ hsome
      · rintro ⟨⟨payload, hpayload', -⟩, -⟩
        exact absurd ⟨payload, hpayload.symm.trans hpayload'⟩ hsome

/-- **Both transports carry the number exactly under their conditions**: through FCM v1, with the
counts switched on, to any device, and through APNs to a device that declares `liza_clear_v`. -/
theorem badge_carried_iff (fcm : GcmConfig) (base : Dict) (apns : ApnsConfig)
    (android apple : HttpPusher) (badge : ℕ) {dp : Dict}
    (hv1 : fcm.apiVersion = .v1) (hcounts : fcm.sendBadgeCounts = true)
    (hdp : defaultPayload apple.device = .obj dp)
    (hdeclares : dp.get? "liza_clear_v" = some (.int 1)) :
    (FcmCarries fcm base android badge ↔ ∃ dp, FcmMeets base android badge dp) ∧
      (ApnsCarries apns apple badge ↔ ApnsMeets apns apple badge dp) :=
  ⟨fcmCarries_iff base android badge hv1 hcounts, apnsCarries_iff apns apple badge hdp hdeclares⟩

/-- A pusher of an Android phone. -/
def androidPusher : HttpPusher := ⟨"ru.liza.app.data_message", "token", 1700000000000, []⟩

/-- A pusher of an iPhone that declares `liza_clear_v`. -/
def applePusher : HttpPusher :=
  ⟨"ru.liza.app", "key", 1700000000000,
    [("default_payload", .obj [("liza_clear_v", .int 1), ("aps", .obj [("sound", .str "default")])])]⟩

/-- The configuration of FCM v1. -/
def fcmV1 : GcmConfig := ⟨.v1, [], true, fun _ => true⟩

/-- Three unread rooms reach both phones, none reaches the iPhone. -/
theorem badge_carried_of_three :
    FcmCarries fcmV1 [] androidPusher 3 ∧ ApnsCarries apnsConfig applePusher 3 ∧
      ApnsCarries apnsConfig applePusher 0 := by
  have hthree := badge_carried_iff fcmV1 [] apnsConfig androidPusher applePusher 3
    rfl rfl rfl rfl
  have hzero := badge_carried_iff fcmV1 [] apnsConfig androidPusher applePusher 0
    rfl rfl rfl rfl
  refine ⟨hthree.1.2 ⟨[], rfl, ?_, rfl, .inl (by decide)⟩,
    hthree.2.2 (.inl ⟨rfl, by decide +kernel⟩), hzero.2.2 (.inl ⟨rfl, by decide +kernel⟩)⟩
  intro content h
  cases h

/-- **The last room that is read does not reach an Android phone.** -/
theorem badge_zero_dropped : ¬FcmCarries fcmV1 [] androidPusher 0 := by
  rintro ⟨n, device, body, message, sent, hn, hdevice, hsent, -⟩
  obtain rfl := Except.ok.inj ((ofJson_sendBadge androidPusher 0).symm.trans hn)
  obtain rfl := (List.cons.inj hdevice).1
  cases hsent

end Sygnal
end Liza
