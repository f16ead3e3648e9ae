/-
# Requests to APNs

`ApnsPushkin._dispatch_notification_unlimited` of `servers/sygnal/sygnal/apnspushkin.py`, up to the
request: which payload is built, how it is cut, what stands in for one that cannot be cut to size,
and the priority and the type it is sent with.  The tries of `_dispatch_request` all send the same.

A payload that is cut loses characters of its alert only (`Chopped`).  The payload that stands in
is not cut.  In the branch for a bare event id it starts from a dictionary whose alert the
truncation has emptied, because the payload shares `aps` with `default_payload` there; `chopAll` is
that alert.
-/

import Liza.Sygnal.Building

set_option autoImplicit false

namespace Liza
namespace Sygnal

open Lib

/-- `PushType`, as far as `APNS_PUSH_TYPES` names it. -/
inductive PushType where
  | alert
  | background
  | voip
  | complication
  | fileprovider
  | mdm
deriving DecidableEq

/-- The configuration of an `ApnsPushkin`, and the limits of the interpreter it runs on. -/
structure ApnsConfig where
  limits : Limits
  sendBadgeCounts : Bool
  clearingPush : Bool
  pushType : Option PushType

/-- `CLEARING_PUSH_TTL_SECONDS`. -/
def clearingPushTtlSeconds : ℕ := 3600

/-- What is handed to `_dispatch_request`, with the type that it makes of `push_type`. -/
structure ApnsRequest where
  payload : Dict
  prio : ℕ
  pushType : Option PushType
  timeToLive : Option ℕ

/-- What becomes of a notification. -/
inductive ApnsOutcome where
  | rejected (pushkeys : List PyStr)
  | nothing
  | request (r : ApnsRequest)

/-- `v == 1`. -/
def equalsOne : Json → Bool
  | .int n => n = 1
  | .bool b => b
  | .float r => r = py "1.0"
  | _ => false

/-- The notification names neither an event nor a type. -/
def countsOnlyPush (n : Notification) : Bool := !n.eventId.truthy && !n.type.truthy

/-- `_is_clearing_push`. -/
def isClearingPush (cfg : ApnsConfig) (n : Notification) (defaultPayload : Dict) : Bool :=
  countsOnlyPush n && cfg.clearingPush && equalsOne (defaultPayload.get "liza_clear_v")

/-- The notification has an event id and nothing else to show. -/
def eventIdOnlyPush (n : Notification) : Bool := n.eventId.truthy && !n.type.truthy

/-- The payload before it is cut. -/
def payloadOf (cfg : ApnsConfig) (n : Notification) (device : Device) (defaultPayload : Dict) :
    Py SygnalExn (Option Dict) :=
  if isClearingPush cfg n defaultPayload then .ok (some (getPayloadClearing n defaultPayload))
  else if eventIdOnlyPush n then
    .ok (some (getPayloadEventIdOnly n defaultPayload cfg.sendBadgeCounts))
  else getPayloadFull cfg.limits n device cfg.sendBadgeCounts

/-- `aps` as the loop of `truncate` leaves it when it gives up. -/
def chopAll (aps : Json) : Json :=
  match _h : chop aps with
  | .ok (some aps') => chopAll aps'
  | _ => aps
termination_by weight aps
decreasing_by exact weight_chop _h

/-- `default_payload` after `truncate` has given up. -/
def leftPayload (n : Notification) (defaultPayload : Dict) : Dict :=
  if eventIdOnlyPush n then
    match defaultPayload.get? "aps" with
    | some aps => defaultPayload.set "aps" (chopAll aps)
    | none => defaultPayload
  else defaultPayload

/-- `shaved_payload`. -/
def shavedPayload (cfg : ApnsConfig) (n : Notification) (defaultPayload payload : Dict) :
    Py SygnalExn Dict :=
  match truncate cfg.limits payload maxJsonBodySize with
  | .error (.user .bodyTooLong) =>
      .ok (getPayloadEventIdOnly n (leftPayload n defaultPayload) cfg.sendBadgeCounts)
  | result => result

/-- `prio`; only a dictionary has `get`. -/
def prioOf (payload : Dict) : Py SygnalExn ℕ :=
  match apsOf payload with
  | .obj aps =>
      .ok (if (Dict.get aps "alert").truthy ∨ (Dict.get aps "sound").truthy ∨
        (Dict.get aps "badge").truthy then 10 else 5)
  | _ => Py.throw .attributeError

/-- `_dispatch_notification_unlimited`, up to the request. -/
def apnsDispatch (cfg : ApnsConfig) (n : Notification) (device : Device) :
    Py SygnalExn ApnsOutcome :=
  match defaultPayload device with
  | .obj defaultPayload => do
      let payload ← payloadOf cfg n device defaultPayload
      match payload with
      | none => .ok .nothing
      | some payload =>
          let shaved ← shavedPayload cfg n defaultPayload payload
          let prio ← prioOf shaved
          let clearing := isClearingPush cfg n defaultPayload
          .ok (.request
            { payload := shaved
              prio := prio
              pushType := if clearing then some .background else cfg.pushType
              timeToLive := if clearing then some clearingPushTtlSeconds else none })
  | _ => .ok (.rejected [device.pushkey])

/-! ### What a cut leaves -/

/-- `aps` after some rounds of `truncate`: the same, or with another alert, which is a dictionary
if it was one. -/
def Chopped (aps aps' : Json) : Prop :=
  aps' = aps ∨ ∃ d v v', aps = .obj d ∧ Dict.get? d "alert" = some v ∧
    aps' = .obj (Dict.set d "alert" v') ∧ ∀ a, v = .obj a → ∃ a', v' = .obj a' ∧ a' ≠ []

/-- A dictionary that was written to is not empty. -/
theorem set_ne_nil (d : Dict) (k : PyStr) (v : Json) : Dict.set d k v ≠ [] := by
  intro hnil
  have hget := Dict.get?_set_self d k v
  rw [hnil] at hget
  cases hget

theorem chopped_chop {aps aps' : Json} (h : chop aps = .ok (some aps')) : Chopped aps aps' := by
  obtain ⟨d, rfl, ⟨s, hd, -, rfl⟩ | ⟨a, s, hd, -, -, rfl⟩ | ⟨a, l, i, s, hd, -, -, -, rfl⟩⟩ :=
    chop_cases h
  · exact .inr ⟨d, _, _, rfl, hd, rfl, fun a ha => by cases ha⟩
  · exact .inr ⟨d, _, _, rfl, hd, rfl, fun _ _ => ⟨_, rfl, set_ne_nil _ _ _⟩⟩
  · exact .inr ⟨d, _, _, rfl, hd, rfl, fun _ _ => ⟨_, rfl, set_ne_nil _ _ _⟩⟩

theorem Chopped.trans {x y z : Json} (hxy : Chopped x y) (hyz : Chopped y z) : Chopped x z := by
  rcases hxy with rfl | ⟨d, v, v', rfl, hd, rfl, hv⟩
  · exact hyz
  · rcases hyz with rfl | ⟨e, w, w', he, hw, rfl, hw'⟩
    · exact .inr ⟨d, v, v', rfl, hd, rfl, hv⟩
    · obtain rfl := Json.obj.inj he
      obtain rfl : v' = w := by simpa using hw
      refine .inr ⟨d, v, w', rfl, hd, by rw [Dict.set_set], ?_⟩
      intro a ha
      obtain ⟨a', ha', -⟩ := hv a ha
      exact hw' a' ha'

theorem plain_longestFrom (aps : Json) (longest : Option Choppable) (k : ℕ)
    (cs : List Choppable) : (longestFrom aps longest k cs).Plain := by
  induction cs generalizing longest k with
  | nil => exact Py.plain_ok _
  | cons c' cs ih =>
      refine (plain_choppableGet aps c').bind fun val => (Json.plain_encode val).bind fun len => ?_
      split
      · exact ih _ _
      · exact ih _ _

theorem plain_choppablePut (aps : Json) (c' : Choppable) (val : Json) :
    (choppablePut aps c' val).Plain := by
  have hset : ∀ v k w, (Json.setItem v k w : Py SygnalExn Json).Plain := by
    intro v k w e h
    cases v <;> cases h
  have hindex : ∀ v i w, (Json.setIndex v i w : Py SygnalExn Json).Plain := by
    intro v i w e h
    cases v <;> cases h
  cases c' with
  | alert => exact hset _ _ _
  | alertBody =>
      exact (Json.plain_item _ _).bind fun alert => (hset _ _ _).bind fun alert' => hset _ _ _
  | alertLocArg i =>
      exact (Json.plain_item _ _).bind fun alert => (Json.plain_item _ _).bind fun args =>
        (hindex _ _ _).bind fun args' => (hset _ _ _).bind fun alert' => hset _ _ _

/-- A round raises no exception of its own. -/
theorem plain_chop (aps : Json) : (chop aps).Plain := by
  have hlongest : (longestChoppable aps).Plain :=
    (plain_choppablesForAps aps).bind fun cs => plain_longestFrom aps none 0 cs
  refine hlongest.bind fun longest => ?_
  cases longest with
  | none => exact Py.plain_ok none
  | some c' =>
      refine (plain_choppableGet aps c').bind fun txt => Py.Plain.bind ?_ fun txt' =>
        (plain_choppablePut aps c' txt').bind fun aps' => Py.plain_ok _
      intro e h
      cases txt <;> cases h

theorem plain_isTooLong {L : Limits} {payload : Dict} {maxLength : ℕ} :
    (isTooLong L payload maxLength).Plain := by
  unfold isTooLong
  split
  · split
    · exact Py.plain_ok _
    · exact Py.plain_unicodeEncodeError
  · exact Py.plain_limitError

/-- What the loop of `truncate` returns fits, and only the alert is shorter. -/
theorem of_truncateLoop {L : Limits} {maxLength : ℕ} {payload p' : Dict} {aps : Json}
    (h : truncateLoop L maxLength payload aps = .ok p') :
    isTooLong L p' maxLength = .ok false ∧
      ∃ aps', p' = payload.set "aps" aps' ∧ Chopped aps aps' := by
  fun_induction truncateLoop L maxLength payload aps with
  | case1 aps e hlong => cases h
  | case2 aps hlong =>
      obtain rfl := Except.ok.inj h
      exact ⟨hlong, aps, rfl, .inl rfl⟩
  | case3 aps hlong e hchop => cases h
  | case4 aps hlong hchop => cases h
  | case5 aps hlong aps' hchop ih =>
      obtain ⟨hfits, aps'', heq, hchopped⟩ := ih h
      exact ⟨hfits, aps'', heq, (chopped_chop hchop).trans hchopped⟩

/-- When the loop of `truncate` gives up, the payload is too long with nothing left to cut. -/
theorem tooLong_of_truncateLoop {L : Limits} {maxLength : ℕ} {payload : Dict} {aps : Json}
    (h : truncateLoop L maxLength payload aps = .error (.user .bodyTooLong)) :
    isTooLong L (payload.set "aps" (chopAll aps)) maxLength = .ok true := by
  fun_induction truncateLoop L maxLength payload aps with
  | case1 aps e hlong =>
      rw [Except.error.inj h] at hlong
      exact absurd hlong (plain_isTooLong _)
  | case2 aps hlong => cases h
  | case3 aps hlong e hchop =>
      rw [Except.error.inj h] at hchop
      exact absurd hchop (plain_chop aps _)
  | case4 aps hlong hchop =>
      unfold chopAll
      split
      · rename_i aps' hsome
        rw [hsome] at hchop
        cases hchop
      · exact hlong
  | case5 aps hlong aps' hchop ih =>
      unfold chopAll
      split
      · rename_i other hother
        obtain rfl := Option.some.inj (Except.ok.inj (hchop.symm.trans hother))
        exact ih h
      · rename_i hnot
        exact absurd hchop (hnot aps')

/-- **What `truncate` returns fits, and it has the same entries but for the alert.** -/
theorem of_truncate {L : Limits} {maxLength : ℕ} {payload p' : Dict}
    (h : truncate L payload maxLength = .ok p') :
    isTooLong L p' maxLength = .ok false ∧
      (payload.get? "aps" = none ∧ p' = payload ∨
        ∃ aps aps', payload.get? "aps" = some aps ∧ p'.get? "aps" = some aps' ∧
          Chopped aps aps') := by
  unfold truncate at h
  split at h
  · rename_i hnone
    obtain ⟨long, hlong, h⟩ := Py.bind_eq_ok h
    cases long with
    | true => cases h
    | false =>
        obtain rfl := Except.ok.inj h
        exact ⟨hlong, .inl ⟨hnone, rfl⟩⟩
  · rename_i aps haps
    obtain ⟨cs, -, h⟩ := Py.bind_eq_ok h
    obtain ⟨-, -, h⟩ := Py.bind_eq_ok h
    obtain ⟨hfits, aps', rfl, hchopped⟩ := of_truncateLoop h
    exact ⟨hfits, .inr ⟨aps, aps', haps, Dict.get?_set_self _ _ _, hchopped⟩⟩

/-- What `truncate` returns has the entries of the payload but for `aps`. -/
theorem get?_truncate {L : Limits} {maxLength : ℕ} {payload p' : Dict} {k : PyStr}
    (h : truncate L payload maxLength = .ok p') (hk : k ≠ py "aps") :
    p'.get? k = payload.get? k := by
  unfold truncate at h
  split at h
  · obtain ⟨long, -, h⟩ := Py.bind_eq_ok h
    cases long with
    | true => cases h
    | false => rw [Except.ok.inj h]
  · obtain ⟨cs, -, h⟩ := Py.bind_eq_ok h
    obtain ⟨-, -, h⟩ := Py.bind_eq_ok h
    obtain ⟨-, aps', rfl, -⟩ := of_truncateLoop h
    exact Dict.get?_set_of_ne _ _ hk

/-- **When `truncate` gives up, the payload is too long with nothing left to cut.** -/
theorem tooLong_of_truncate {L : Limits} {maxLength : ℕ} {payload : Dict}
    (h : truncate L payload maxLength = .error (.user .bodyTooLong)) :
    payload.get? "aps" = none ∧ isTooLong L payload maxLength = .ok true ∨
      ∃ aps, payload.get? "aps" = some aps ∧
        isTooLong L (payload.set "aps" (chopAll aps)) maxLength = .ok true := by
  unfold truncate at h
  split at h
  · rename_i hnone
    refine .inl ⟨hnone, ?_⟩
    cases hlong : isTooLong L payload maxLength with
    | error e =>
        rw [hlong] at h
        rw [Except.error.inj h] at hlong
        exact absurd hlong (plain_isTooLong _)
    | ok long =>
        rw [hlong] at h
        cases long with
        | true => rfl
        | false => cases h
  · rename_i aps haps
    refine .inr ⟨aps, haps, ?_⟩
    cases hcs : choppablesForAps aps with
    | error e =>
        rw [hcs] at h
        rw [Except.error.inj h] at hcs
        exact absurd hcs (plain_choppablesForAps aps _)
    | ok cs =>
        rw [hcs, Py.ok_bind] at h
        cases hread : readAll aps cs with
        | error e =>
            rw [hread] at h
            rw [Except.error.inj h] at hread
            exact absurd hread (plain_readAll aps cs _)
        | ok u =>
            rw [hread, Py.ok_bind] at h
            exact tooLong_of_truncateLoop h

/-! ### `aps` of the payloads -/

/-- What a silent push has. -/
def silentAps : Json := .obj [("content-available", .int 1)]

/-- A silent payload has nothing to cut. -/
theorem truncate_silent {L : Limits} {payload : Dict}
    (haps : payload.get? "aps" = some silentAps) (maxLength : ℕ) :
    truncate L payload maxLength =
      match isTooLong L payload maxLength with
      | .error e => .error e
      | .ok false => .ok payload
      | .ok true => Py.throw (.user .bodyTooLong) := by
  have hsame : payload.set "aps" silentAps = payload := Dict.set_of_get? haps
  have hchop : chop silentAps = .ok none := rfl
  rw [truncate, haps]
  change truncateLoop L maxLength payload silentAps = _
  rw [truncateLoop, hsame]
  cases isTooLong L payload maxLength with
  | error e => rfl
  | ok long =>
      cases long with
      | false => rfl
      | true =>
          simp only
          split
          · rename_i e he
            rw [hchop] at he
            cases he
          · rfl
          · rename_i aps' he
            rw [hchop] at he
            cases he

theorem key_of_mem_plainEntry {key : PyStr} {v : Json} {kv : PyStr × Json}
    (h : kv ∈ plainEntry key v) : kv.1 = key := by
  unfold plainEntry at h
  split at h
  · rw [List.mem_singleton.1 h]
  · cases h

theorem key_of_mem_optEntry {key : PyStr} {v : Option PyInt} {kv : PyStr × Json}
    (h : kv ∈ optEntry key v) : kv.1 = key := by
  cases v with
  | none => cases h
  | some i => rw [List.mem_singleton.1 h]

/-- The entries that a payload for an event id adds. -/
theorem eventIdOnly_entries (n : Notification) (sendBadgeCounts : Bool) :
    ∀ kv ∈ plainEntry "room_id" n.roomId ++ plainEntry "event_id" n.eventId ++
      (if sendBadgeCounts then
        optEntry "unread_count" n.counts.unread ++ optEntry "missed_calls" n.counts.missedCalls
      else []), kv.1 ≠ py "aps" := by
  intro kv hkv
  rcases List.mem_append.1 hkv with hids | hcounts
  · rcases List.mem_append.1 hids with hroom | hevent
    · rw [key_of_mem_plainEntry hroom]
      decide
    · rw [key_of_mem_plainEntry hevent]
      decide
  · split at hcounts
    · rcases List.mem_append.1 hcounts with hunread | hmissed
      · rw [key_of_mem_optEntry hunread]
        decide
      · rw [key_of_mem_optEntry hmissed]
        decide
    · cases hcounts

theorem aps_eventIdOnly (n : Notification) (payload : Dict) (sendBadgeCounts : Bool) :
    (getPayloadEventIdOnly n payload sendBadgeCounts).get? "aps" = payload.get? "aps" :=
  Dict.get?_update_of_ne payload (eventIdOnly_entries n sendBadgeCounts)

theorem aps_clearing (n : Notification) (payload : Dict) :
    (getPayloadClearing n payload).get? "aps" = some silentAps := by
  unfold getPayloadClearing
  rw [Dict.get?_update_of_ne]
  · change Dict.get? (Dict.set (Dict.set (payload.erase "aps") "aps" silentAps) "liza_clear"
      (.int 1)) "aps" = _
    rw [Dict.get?_set_of_ne _ _ (by decide), Dict.get?_set_self]
  · intro kv hkv
    obtain ⟨u, -, rfl⟩ := List.mem_map.1 hkv
    exact show py "counts" ≠ py "aps" by decide

theorem key_of_mem_fieldEntry {key : PyStr} {v : Json} {e : Dict} (h : fieldEntry key v = .ok e)
    {kv : PyStr × Json} (hkv : kv ∈ e) : kv.1 = key := by
  unfold fieldEntry at h
  split at h
  · obtain ⟨w, -, h⟩ := Py.bind_eq_ok h
    obtain rfl := Except.ok.inj h
    rw [List.mem_singleton.1 hkv]
  · obtain rfl := Except.ok.inj h
    cases hkv

theorem key_of_mem_contentEntry {content : Json} {e : Dict} (h : contentEntry content = .ok e)
    {kv : PyStr × Json} (hkv : kv ∈ e) : kv.1 = py "content" := by
  unfold contentEntry at h
  split at h
  · split at h
    · obtain rfl := Except.ok.inj h
      split at hkv
      · cases hkv
      · rw [List.mem_singleton.1 hkv]
    · cases h
  · obtain rfl := Except.ok.inj h
    cases hkv

theorem key_of_mem_countsEntry {counts : Counts} {kv : PyStr × Json}
    (h : kv ∈ countsEntry counts) : kv.1 = py "counts" := by
  unfold countsEntry at h
  split at h
  · cases h
  · rw [List.mem_singleton.1 h]

/-- Writing to `aps`. -/
theorem of_setAps {aps aps' : Json} {key : PyStr} {v : Json} (h : setAps aps key v = .ok aps') :
    ∃ d, aps = .obj d ∧ aps' = .obj (Dict.set d key v) := by
  unfold setAps at h
  split at h
  · rename_i d
    exact ⟨d, rfl, (Except.ok.inj h).symm⟩
  · cases h

/-- The badge leaves the alert. -/
theorem of_setBadge {d : Dict} {aps' : Json} {badge : Option PyInt}
    (h : setBadge (.obj d) badge = .ok aps') :
    ∃ d', aps' = .obj d' ∧ Dict.get? d' "alert" = Dict.get? d "alert" ∧
      (badge.isSome = true → (Dict.get? d' "badge").isSome = true) := by
  cases badge with
  | none =>
      obtain rfl := Except.ok.inj h
      exact ⟨d, rfl, rfl, fun h => by cases h⟩
  | some b =>
      have hset : setAps (.obj d) "badge" b.json = .ok aps' := h
      obtain ⟨d', hd', rfl⟩ := of_setAps hset
      obtain rfl := Json.obj.inj hd'
      refine ⟨_, rfl, Dict.get?_set_of_ne _ _ (by decide), fun _ => ?_⟩
      rw [Dict.get?_set_self]
      rfl

/-- What `aps` of a full payload has: an alert or a badge; for a story a dictionary that is not
empty, and without a type no alert otherwise. -/
structure FullAps (n : Notification) (aps : Dict) : Prop where
  shows : (Dict.get? aps "alert").isSome = true ∨ (Dict.get? aps "badge").isSome = true
  story : isStory n.content = true → ∃ a, Dict.get? aps "alert" = some (.obj a) ∧ a ≠ []
  silent : isStory n.content = false → n.type.truthy = false → Dict.get? aps "alert" = none

theorem aps_story {L : Limits} {n : Notification} {device : Device} {sender : Json}
    {sendBadgeCounts : Bool} {payload : Dict}
    (h : getPayloadStory L n device sender sendBadgeCounts = .ok payload)
    (hstory : isStory n.content = true) :
    ∃ aps, payload.get? "aps" = some (.obj aps) ∧ FullAps n aps := by
  obtain ⟨start, -, h⟩ := Py.bind_eq_ok h
  obtain ⟨base, -, h⟩ := Py.bind_eq_ok h
  obtain ⟨aps, haps, h⟩ := Py.bind_eq_ok h
  obtain ⟨d, -, rfl⟩ := of_setAps haps
  obtain ⟨aps', hbadge, h⟩ := Py.bind_eq_ok h
  obtain ⟨d', rfl, halert, -⟩ := of_setBadge hbadge
  obtain ⟨sent, hsent, h⟩ := Py.bind_eq_ok h
  obtain ⟨name, hname, h⟩ := Py.bind_eq_ok h
  obtain rfl := Except.ok.inj h
  have hkeys : ∀ kv ∈ plainEntry "room_id" n.roomId ++ plainEntry "event_id" n.eventId ++ sent ++
      name ++ plainEntry "type" n.type ++ [(py "story", .bool true)], kv.1 ≠ py "aps" := by
    intro kv hkv
    simp only [List.mem_append, List.mem_singleton] at hkv
    obtain ((((hkv | hkv) | hkv) | hkv) | hkv) | rfl := hkv
    · exact key_of_mem_plainEntry hkv ▸ by decide
    · exact key_of_mem_plainEntry hkv ▸ by decide
    · exact key_of_mem_fieldEntry hsent hkv ▸ by decide
    · exact key_of_mem_fieldEntry hname hkv ▸ by decide
    · exact key_of_mem_plainEntry hkv ▸ by decide
    · exact show py "story" ≠ py "aps" by decide
  have hsome : Dict.get? d' "alert" =
      some (.obj [("title", sender), ("body", .str storyPublishedBody)]) := by
    rw [halert, Dict.get?_set_self]
  refine ⟨d', ?_, ?_, fun _ => ⟨_, hsome, List.cons_ne_nil _ _⟩, ?_⟩
  · rw [Dict.get?_update_of_ne _ hkeys, Dict.get?_set_self]
  · exact .inl (by rw [hsome]; rfl)
  · intro hnot
    rw [hstory] at hnot
    cases hnot

/-- The alert after the loc-key. -/
theorem of_setLoc {d : Dict} {aps' : Json} {loc : Option Loc} (h : setLoc (.obj d) loc = .ok aps') :
    ∃ d', aps' = .obj d' ∧ (loc = none → d' = d) ∧
      (loc.isSome = true → (Dict.get? d' "alert").isSome = true) := by
  cases loc with
  | none =>
      obtain rfl := Except.ok.inj h
      exact ⟨d, rfl, fun _ => rfl, fun h => by cases h⟩
  | some l =>
      unfold setLoc at h
      dsimp only at h
      split at h
      · obtain rfl := Except.ok.inj h
        refine ⟨_, rfl, fun hnone => absurd hnone (Option.some_ne_none l), fun _ => ?_⟩
        rw [Dict.get?_set_self]
        rfl
      · cases h

theorem aps_alert {L : Limits} {n : Notification} {device : Device} {loc : Option Loc}
    {badge : Option PyInt} {payload : Dict}
    (h : getPayloadAlert L n device loc badge = .ok payload)
    (hstory : isStory n.content = false) (hloc : n.type.truthy = false → loc = none)
    (hshows : loc.isSome = true ∨ badge.isSome = true) :
    ∃ aps, payload.get? "aps" = some (.obj aps) ∧ FullAps n aps := by
  obtain ⟨start, hstart, h⟩ := Py.bind_eq_ok h
  obtain ⟨base, hbase, h⟩ := Py.bind_eq_ok h
  obtain ⟨aps, haps, h⟩ := Py.bind_eq_ok h
  obtain ⟨aps', hbadge, h⟩ := Py.bind_eq_ok h
  obtain ⟨sent, hsent, h⟩ := Py.bind_eq_ok h
  obtain ⟨name, hname, h⟩ := Py.bind_eq_ok h
  obtain ⟨room, hroom, h⟩ := Py.bind_eq_ok h
  obtain ⟨content, hcontent, h⟩ := Py.bind_eq_ok h
  obtain rfl := Except.ok.inj h
  obtain ⟨d, hd⟩ : ∃ d, apsOf base = .obj d := by
    cases hobj : apsOf base with
    | obj d => exact ⟨d, rfl⟩
    | _ =>
        exfalso
        rw [hobj] at haps
        cases loc with
        | some l => cases haps
        | none =>
            obtain rfl := Except.ok.inj haps
            cases badge with
            | some b => cases hbadge
            | none => simp at hshows
  rw [hd] at haps
  obtain ⟨d₁, rfl, hsame, halert⟩ := of_setLoc haps
  obtain ⟨d₂, rfl, hget, hset⟩ := of_setBadge hbadge
  have hkeys : ∀ kv ∈ (if loc.isSome = true then
      plainEntry "room_id" n.roomId ++ plainEntry "event_id" n.eventId else []) ++ sent ++ name ++
      room ++ plainEntry "type" n.type ++ content ++ countsEntry n.counts, kv.1 ≠ py "aps" := by
    intro kv hkv
    simp only [List.mem_append] at hkv
    obtain (((((hkv | hkv) | hkv) | hkv) | hkv) | hkv) | hkv := hkv
    · split at hkv
      · rcases List.mem_append.1 hkv with hkv | hkv
        · exact key_of_mem_plainEntry hkv ▸ by decide
        · exact key_of_mem_plainEntry hkv ▸ by decide
      · cases hkv
    · exact key_of_mem_fieldEntry hsent hkv ▸ by decide
    · exact key_of_mem_fieldEntry hname hkv ▸ by decide
    · exact key_of_mem_fieldEntry hroom hkv ▸ by decide
    · exact key_of_mem_plainEntry hkv ▸ by decide
    · exact key_of_mem_contentEntry hcontent hkv ▸ by decide
    · exact key_of_mem_countsEntry hkv ▸ by decide
  refine ⟨d₂, ?_, ?_, ?_, ?_⟩
  · rw [Dict.get?_update_of_ne _ hkeys, Dict.get?_set_self]
  · rcases hshows with hsome | hsome
    · exact .inl (by rw [hget]; exact halert hsome)
    · exact .inr (hset hsome)
  · intro hyes
    rw [hstory] at hyes
    cases hyes
  · intro _ htype
    -- without a type the payload starts from nothing
    have hnil : base = [] := by
      have hempty := of_startPayload hstart
      rw [htype, Bool.false_and, if_neg Bool.false_ne_true] at hempty
      rw [hempty] at hbase
      exact (Except.ok.inj hbase).symm
    rw [hnil] at hd
    rw [hget, hsame (hloc htype), ← Json.obj.inj hd]
    rfl

/-- `aps` of a full payload. -/
theorem aps_full {L : Limits} {n : Notification} {device : Device} {sendBadgeCounts : Bool}
    {payload : Dict} (h : getPayloadFull L n device sendBadgeCounts = .ok (some payload)) :
    ∃ aps, payload.get? "aps" = some (.obj aps) ∧ FullAps n aps := by
  obtain ⟨sender, -, h⟩ := Py.bind_eq_ok h
  split at h
  · rename_i hstory
    obtain ⟨p, hp, h⟩ := Py.bind_eq_ok h
    obtain rfl := Option.some.inj (Except.ok.inj h)
    exact aps_story hp hstory
  · rename_i hstory
    obtain ⟨loc, hloc, h⟩ := Py.bind_eq_ok h
    dsimp only at h
    split at h
    · cases h
    · rename_i hshows
      obtain ⟨p, hp, h⟩ := Py.bind_eq_ok h
      obtain rfl := Option.some.inj (Except.ok.inj h)
      refine aps_alert hp (by simpa using hstory) ?_ ?_
      · intro htype
        have hne : ∀ s : PyStr, s ≠ [] → n.type ≠ .str s := by
          intro s hs heq
          rw [heq] at htype
          cases s with
          | nil => exact hs rfl
          | cons a s => cases htype
        have hnone : locOf n sender = .ok none := by
          simp [locOf, isMessage, htype, hne (py "m.room.message") (by decide),
            hne (py "m.room.encrypted") (by decide), hne (py "m.call.invite") (by decide),
            hne (py "m.room.member") (by decide)]
        exact (Except.ok.inj (hnone.symm.trans hloc)).symm
      · cases loc with
        | some l => exact .inl rfl
        | none =>
            right
            cases hb : badgeOf n sendBadgeCounts with
            | some b => rfl
            | none => exact absurd ⟨rfl, hb⟩ hshows

/-! ### Requests that APNs accepts -/

/-- The payload shows an alert. -/
def hasAlert (payload : Dict) : Prop :=
  ∃ aps, payload.get? "aps" = some (.obj aps) ∧ (Dict.get aps "alert").truthy = true

/-- A request that APNs accepts: it fits, a silent one is silent, and a notification without an
event and a type shows nothing. -/
structure Acceptable (L : Limits) (n : Notification) (r : ApnsRequest) : Prop where
  fits : isTooLong L r.payload maxJsonBodySize = .ok false
  silent : r.pushType = some .background → r.payload.get? "aps" = some silentAps ∧ r.prio = 5
  noAlert : countsOnlyPush n = true → ¬hasAlert r.payload

/-- What is asked of a payload that was cut to size: one that is sent silently because the
configuration says so has to be silent itself, and a story has a type. -/
structure CutMeets (cfg : ApnsConfig) (n : Notification) (defaultPayload : Dict) : Prop where
  background : cfg.pushType = some .background → isClearingPush cfg n defaultPayload = false →
    eventIdOnlyPush n = true ∧
      (defaultPayload.get? "aps" = some silentAps ∨ (apsOf defaultPayload).isObj = false)
  story : countsOnlyPush n = true → isClearingPush cfg n defaultPayload = false →
    isStory n.content = false

/-- What is asked where `truncate` gives up, and the payload for an event id stands in: it is not
the one that was too long, it fits, and `aps` of the client is fit for a silent push, where it is
one, and has no alert, where there is no event. -/
structure FallbackMeets (cfg : ApnsConfig) (n : Notification) (defaultPayload : Dict) : Prop where
  other : eventIdOnlyPush n = false
  fits : isTooLong cfg.limits (getPayloadEventIdOnly n defaultPayload cfg.sendBadgeCounts)
    maxJsonBodySize = .ok false
  background : isClearingPush cfg n defaultPayload = true ∨ cfg.pushType = some .background →
    defaultPayload.get? "aps" = some silentAps
  noAlert : countsOnlyPush n = true → ¬hasAlert defaultPayload

/-- The condition, on the payload that is built. -/
def Meets (cfg : ApnsConfig) (n : Notification) (device : Device) : Prop :=
  ∀ dp payload, defaultPayload device = .obj dp → payloadOf cfg n device dp = .ok (some payload) →
    ((∃ p, truncate cfg.limits payload maxJsonBodySize = .ok p) → CutMeets cfg n dp) ∧
    (truncate cfg.limits payload maxJsonBodySize = .error (.user .bodyTooLong) →
      (apsOf dp).isObj = true → FallbackMeets cfg n dp)

/-- The request for a payload. -/
def requestOf (cfg : ApnsConfig) (n : Notification) (dp shaved : Dict) (prio : ℕ) : ApnsRequest where
  payload := shaved
  prio := prio
  pushType := if isClearingPush cfg n dp then some .background else cfg.pushType
  timeToLive := if isClearingPush cfg n dp then some clearingPushTtlSeconds else none

/-- When there is a request. -/
theorem request_iff (cfg : ApnsConfig) (n : Notification) (device : Device) (r : ApnsRequest) :
    apnsDispatch cfg n device = .ok (.request r) ↔
      ∃ dp payload shaved prio, defaultPayload device = .obj dp ∧
        payloadOf cfg n device dp = .ok (some payload) ∧
        shavedPayload cfg n dp payload = .ok shaved ∧ prioOf shaved = .ok prio ∧
        r = requestOf cfg n dp shaved prio := by
  constructor
  · intro h
    unfold apnsDispatch at h
    split at h
    · rename_i dp hdp
      obtain ⟨payload, hpayload, h⟩ := Py.bind_eq_ok h
      cases payload with
      | none => cases h
      | some payload =>
          obtain ⟨shaved, hshaved, h⟩ := Py.bind_eq_ok h
          obtain ⟨prio, hprio, h⟩ := Py.bind_eq_ok h
          obtain rfl := ApnsOutcome.request.inj (Except.ok.inj h)
          exact ⟨dp, payload, shaved, prio, hdp, hpayload, hshaved, hprio, rfl⟩
    · cases h
  · rintro ⟨dp, payload, shaved, prio, hdp, hpayload, hshaved, hprio, rfl⟩
    unfold apnsDispatch
    rw [hdp]
    simp only [hpayload, hshaved, hprio, Py.ok_bind]
    rfl

/-- The priority of a payload with a dictionary `aps`. -/
theorem prioOf_eq_ok_iff (payload : Dict) :
    (∃ prio, prioOf payload = .ok prio) ↔ (apsOf payload).isObj = true := by
  unfold prioOf
  cases apsOf payload <;> simp [Json.isObj, Py.throw]

theorem prioOf_silent {payload : Dict} {prio : ℕ} (haps : payload.get? "aps" = some silentAps)
    (h : prioOf payload = .ok prio) : prio = 5 := by
  simp only [prioOf, apsOf, haps, silentAps, Option.getD_some] at h
  exact (Except.ok.inj h).symm

theorem not_hasAlert_silent {payload : Dict} (haps : payload.get? "aps" = some silentAps) :
    ¬hasAlert payload := by
  rintro ⟨aps, hget, htruthy⟩
  obtain rfl := Json.obj.inj (Option.some.inj (haps.symm.trans hget))
  cases htruthy

theorem Chopped.eq_silentAps_iff {aps aps' : Json} (h : Chopped aps aps') :
    aps' = silentAps ↔ aps = silentAps := by
  rcases h with rfl | ⟨d, v, v', rfl, hd, rfl, -⟩
  · exact Iff.rfl
  · constructor
    · intro heq
      have hget := congrArg (Dict.get? · (py "alert")) (Json.obj.inj heq)
      rw [Dict.get?_set_self] at hget
      cases hget
    · intro heq
      rw [Json.obj.inj heq] at hd
      cases hd

theorem Chopped.isObj_eq {aps aps' : Json} (h : Chopped aps aps') : aps'.isObj = aps.isObj := by
  rcases h with rfl | ⟨d, v, v', rfl, -, rfl, -⟩
  · rfl
  · rfl

/-- A cut leaves an alert or a badge, and a story its alert. -/
theorem FullAps.chopped {n : Notification} {d : Dict} {aps' : Json} (hd : FullAps n d)
    (h : Chopped (.obj d) aps') : ∃ d', aps' = .obj d' ∧ FullAps n d' := by
  rcases h with rfl | ⟨e, v, v', he, hv, rfl, hkeep⟩
  · exact ⟨d, rfl, hd⟩
  · obtain rfl := Json.obj.inj he
    refine ⟨_, rfl, .inl ?_, ?_, ?_⟩
    · rw [Dict.get?_set_self]
      rfl
    · intro hstory
      obtain ⟨a, ha, -⟩ := hd.story hstory
      obtain ⟨a', rfl, hne⟩ := hkeep a (Option.some.inj (hv.symm.trans ha))
      exact ⟨a', Dict.get?_set_self _ _ _, hne⟩
    · intro hstory htype
      rw [hd.silent hstory htype] at hv
      cases hv

theorem FullAps.ne_silentAps {n : Notification} {d : Dict} (h : FullAps n d) :
    Json.obj d ≠ silentAps := by
  intro heq
  obtain rfl := Json.obj.inj heq
  rcases h.shows with halert | hbadge
  · cases halert
  · cases hbadge

/-- Without an event and a type, a full payload shows an alert exactly for a story. -/
theorem FullAps.hasAlert_iff {n : Notification} {d payload : Dict} (h : FullAps n d)
    (haps : payload.get? "aps" = some (.obj d)) (hn : countsOnlyPush n = true) :
    hasAlert payload ↔ isStory n.content = true := by
  have htype : n.type.truthy = false := by
    simp only [countsOnlyPush, Bool.and_eq_true, Bool.not_eq_true'] at hn
    exact hn.2
  constructor
  · rintro ⟨aps, hget, htruthy⟩
    obtain rfl := Json.obj.inj (Option.some.inj (haps.symm.trans hget))
    by_contra hstory
    rw [Dict.get, h.silent (by simpa using hstory) htype] at htruthy
    cases htruthy
  · intro hstory
    obtain ⟨a, ha, hne⟩ := h.story hstory
    refine ⟨d, haps, ?_⟩
    rw [Dict.get, ha]
    simpa [Json.truthy] using hne

/-- **`aps` of a payload that was cut to size**, for each way a payload is built. -/
theorem cut_aps {cfg : ApnsConfig} {n : Notification} {device : Device} {dp payload p : Dict}
    (hpayload : payloadOf cfg n device dp = .ok (some payload))
    (hcut : truncate cfg.limits payload maxJsonBodySize = .ok p) :
    (isClearingPush cfg n dp = true ∧ p.get? "aps" = some silentAps) ∨
      (isClearingPush cfg n dp = false ∧ eventIdOnlyPush n = true ∧
        (p.get? "aps" = some silentAps ↔ dp.get? "aps" = some silentAps) ∧
        (apsOf p).isObj = (apsOf dp).isObj) ∨
      (isClearingPush cfg n dp = false ∧ eventIdOnlyPush n = false ∧
        ∃ d, p.get? "aps" = some (.obj d) ∧ FullAps n d) := by
  have hcases := (of_truncate hcut).2
  unfold payloadOf at hpayload
  split at hpayload
  · rename_i hclearing
    obtain rfl := Option.some.inj (Except.ok.inj hpayload)
    rw [aps_clearing] at hcases
    obtain ⟨hnone, -⟩ | ⟨aps, aps', haps, haps', hchopped⟩ := hcases
    · cases hnone
    · obtain rfl := Option.some.inj haps
      exact .inl ⟨hclearing, by rw [haps', hchopped.eq_silentAps_iff.2 rfl]⟩
  · rename_i hclearing
    split at hpayload
    · rename_i hevent
      obtain rfl := Option.some.inj (Except.ok.inj hpayload)
      rw [aps_eventIdOnly] at hcases
      refine .inr (.inl ⟨by simpa using hclearing, hevent, ?_⟩)
      obtain ⟨hnone, rfl⟩ | ⟨aps, aps', haps, haps', hchopped⟩ := hcases
      · simp [apsOf, aps_eventIdOnly]
      · rw [apsOf, apsOf, haps, haps']
        exact ⟨by simpa using hchopped.eq_silentAps_iff, hchopped.isObj_eq⟩
    · rename_i hevent
      obtain ⟨d, hd, hfull⟩ := aps_full hpayload
      rw [hd] at hcases
      obtain ⟨hnone, -⟩ | ⟨aps, aps', haps, haps', hchopped⟩ := hcases
      · cases hnone
      · obtain rfl := Option.some.inj haps
        obtain ⟨d', rfl, hfull'⟩ := hfull.chopped hchopped
        exact .inr (.inr ⟨by simpa using hclearing, by simpa using hevent, d', haps', hfull'⟩)

/-- A notification with an event id alone is not without an event. -/
theorem not_countsOnly {n : Notification} (h : eventIdOnlyPush n = true) :
    countsOnlyPush n = false := by
  simp only [eventIdOnlyPush, Bool.and_eq_true] at h
  simp [countsOnlyPush, h.1]

/-- What the type of a request says. -/
theorem background_iff (cfg : ApnsConfig) (n : Notification) (dp shaved : Dict) (prio : ℕ) :
    (requestOf cfg n dp shaved prio).pushType = some .background ↔
      isClearingPush cfg n dp = true ∨ cfg.pushType = some .background := by
  unfold requestOf
  cases isClearingPush cfg n dp <;> simp

/-- A payload that was cut to size is accepted exactly under its condition. -/
theorem cut_iff {cfg : ApnsConfig} {n : Notification} {device : Device} {dp payload p : Dict}
    (hpayload : payloadOf cfg n device dp = .ok (some payload))
    (hcut : truncate cfg.limits payload maxJsonBodySize = .ok p) :
    (∀ prio, prioOf p = .ok prio → Acceptable cfg.limits n (requestOf cfg n dp p prio)) ↔
      CutMeets cfg n dp := by
  have hfits := (of_truncate hcut).1
  obtain ⟨hclearing, haps⟩ | ⟨hclearing, hevent, hsilent, hobj⟩ |
    ⟨hclearing, hevent, d, haps, hfull⟩ := cut_aps hpayload hcut
  · -- a push that clears is silent as it is
    refine ⟨fun _ => ⟨fun _ hnot => ?_, fun _ hnot => ?_⟩, fun _ prio hprio => ⟨hfits, fun _ =>
      ⟨haps, prioOf_silent haps hprio⟩, fun _ => not_hasAlert_silent haps⟩⟩
    · rw [hclearing] at hnot
      cases hnot
    · rw [hclearing] at hnot
      cases hnot
  · have hcounts := not_countsOnly hevent
    constructor
    · intro hall
      refine ⟨fun hbackground _ => ⟨hevent, ?_⟩, fun hyes => ?_⟩
      · by_cases hdict : (apsOf dp).isObj = true
        · obtain ⟨prio, hprio⟩ := (prioOf_eq_ok_iff p).2 (hobj.trans hdict)
          exact .inl (hsilent.1 ((hall prio hprio).silent
            ((background_iff cfg n dp p prio).2 (.inr hbackground))).1)
        · exact .inr (by simpa using hdict)
      · rw [hcounts] at hyes
        cases hyes
    · intro hmeets prio hprio
      have hdict := (prioOf_eq_ok_iff p).1 ⟨prio, hprio⟩
      refine ⟨hfits, fun hbackground => ?_, fun hyes => ?_⟩
      · have hconfig := ((background_iff cfg n dp p prio).1 hbackground).resolve_left
          (by simp [hclearing])
        have haps : p.get? "aps" = some silentAps := by
          refine hsilent.2 (((hmeets.background hconfig hclearing).2).resolve_right ?_)
          rw [← hobj, hdict]
          exact Bool.noConfusion
        exact ⟨haps, prioOf_silent haps hprio⟩
      · rw [hcounts] at hyes
        cases hyes
  · have hdict : (apsOf p).isObj = true := by
      rw [apsOf, haps]
      rfl
    constructor
    · intro hall
      obtain ⟨prio, hprio⟩ := (prioOf_eq_ok_iff p).2 hdict
      have haccept := hall prio hprio
      refine ⟨fun hbackground _ => ?_, fun hcounts _ => ?_⟩
      · have hsilent := (haccept.silent
          ((background_iff cfg n dp p prio).2 (.inr hbackground))).1
        exact absurd (Option.some.inj (haps.symm.trans hsilent)) hfull.ne_silentAps
      · have hno := haccept.noAlert hcounts
        rw [show (requestOf cfg n dp p prio).payload = p from rfl,
          hfull.hasAlert_iff haps hcounts] at hno
        simpa using hno
    · intro hmeets prio hprio
      refine ⟨hfits, fun hbackground => ?_, fun hcounts => ?_⟩
      · have hconfig := ((background_iff cfg n dp p prio).1 hbackground).resolve_left
          (by simp [hclearing])
        have hyes := (hmeets.background hconfig hclearing).1
        rw [hevent] at hyes
        cases hyes
      · rw [show (requestOf cfg n dp p prio).payload = p from rfl,
          hfull.hasAlert_iff haps hcounts, hmeets.story hcounts hclearing]
        exact Bool.noConfusion

theorem chopped_chopAll (aps : Json) : Chopped aps (chopAll aps) := by
  fun_induction chopAll aps with
  | case1 aps aps' hchop ih => exact (chopped_chop hchop).trans ih
  | case2 aps hnot => exact .inl rfl

/-- The payload that stands in for one that is too long. -/
def fallbackPayload (cfg : ApnsConfig) (n : Notification) (dp : Dict) : Dict :=
  getPayloadEventIdOnly n (leftPayload n dp) cfg.sendBadgeCounts

theorem isObj_fallback (cfg : ApnsConfig) (n : Notification) (dp : Dict) :
    (apsOf (fallbackPayload cfg n dp)).isObj = (apsOf dp).isObj := by
  unfold apsOf fallbackPayload
  rw [aps_eventIdOnly]
  unfold leftPayload
  split
  · split
    · rename_i aps haps
      rw [Dict.get?_set_self, haps]
      exact (chopped_chopAll aps).isObj_eq
    · rfl
  · rfl

/-- The payload for an event id does not get shorter when it stands in for itself. -/
theorem fallback_tooLong {cfg : ApnsConfig} {n : Notification} {dp : Dict}
    (hevent : eventIdOnlyPush n = true)
    (hlong : truncate cfg.limits (getPayloadEventIdOnly n dp cfg.sendBadgeCounts)
      maxJsonBodySize = .error (.user .bodyTooLong)) :
    isTooLong cfg.limits (fallbackPayload cfg n dp) maxJsonBodySize = .ok true := by
  unfold fallbackPayload leftPayload
  rw [if_pos hevent]
  obtain ⟨hnone, htoo⟩ | ⟨aps, haps, htoo⟩ := tooLong_of_truncate hlong
  · rw [aps_eventIdOnly] at hnone
    rw [hnone]
    exact htoo
  · rw [aps_eventIdOnly] at haps
    rw [haps]
    have hthere : (Dict.get? dp "aps").isSome = true := by
      rw [haps]
      rfl
    have hcomm : getPayloadEventIdOnly n (dp.set "aps" (chopAll aps)) cfg.sendBadgeCounts =
        (getPayloadEventIdOnly n dp cfg.sendBadgeCounts).set "aps" (chopAll aps) :=
      Dict.set_update_comm hthere (eventIdOnly_entries n cfg.sendBadgeCounts) _
    exact hcomm ▸ htoo

/-- A payload that stands in is accepted exactly under its condition. -/
theorem fallback_iff {cfg : ApnsConfig} {n : Notification} {device : Device} {dp payload : Dict}
    (hpayload : payloadOf cfg n device dp = .ok (some payload))
    (hlong : truncate cfg.limits payload maxJsonBodySize = .error (.user .bodyTooLong)) :
    (∀ prio, prioOf (fallbackPayload cfg n dp) = .ok prio →
        Acceptable cfg.limits n (requestOf cfg n dp (fallbackPayload cfg n dp) prio)) ↔
      ((apsOf dp).isObj = true → FallbackMeets cfg n dp) := by
  by_cases hdict : (apsOf dp).isObj = true
  · obtain ⟨prio, hprio⟩ :=
      (prioOf_eq_ok_iff (fallbackPayload cfg n dp)).2 ((isObj_fallback cfg n dp).trans hdict)
    by_cases hevent : eventIdOnlyPush n = true
    · -- the payload that was too long stands in for itself
      have hbuilt : payload = getPayloadEventIdOnly n dp cfg.sendBadgeCounts := by
        have hclearing : isClearingPush cfg n dp = false := by
          simp [isClearingPush, not_countsOnly hevent]
        rw [payloadOf, hclearing, if_neg Bool.false_ne_true, if_pos hevent] at hpayload
        exact (Option.some.inj (Except.ok.inj hpayload)).symm
      rw [hbuilt] at hlong
      have htoo := fallback_tooLong hevent hlong
      constructor
      · intro hall
        have hfits := (hall prio hprio).fits
        rw [show (requestOf cfg n dp (fallbackPayload cfg n dp) prio).payload =
          fallbackPayload cfg n dp from rfl, htoo] at hfits
        cases Except.ok.inj hfits
      · intro hmeets
        have hother := (hmeets hdict).other
        rw [hevent] at hother
        cases hother
    · have hother : eventIdOnlyPush n = false := by simpa using hevent
      have hsame : fallbackPayload cfg n dp =
          getPayloadEventIdOnly n dp cfg.sendBadgeCounts := by
        unfold fallbackPayload leftPayload
        rw [if_neg hevent]
      have haps : (fallbackPayload cfg n dp).get? "aps" = dp.get? "aps" := by
        rw [hsame, aps_eventIdOnly]
      have halert : hasAlert (fallbackPayload cfg n dp) ↔ hasAlert dp := by
        unfold hasAlert
        rw [haps]
      constructor
      · intro hall _
        have haccept := hall prio hprio
        refine ⟨hother, hsame ▸ haccept.fits, fun hbackground => ?_, fun hcounts => ?_⟩
        · rw [← haps]
          exact (haccept.silent ((background_iff cfg n dp _ prio).2 hbackground)).1
        · rw [← halert]
          exact haccept.noAlert hcounts
      · intro hmeets prio' hprio'
        have hmeet := hmeets hdict
        refine ⟨hsame ▸ hmeet.fits, fun hbackground => ?_, fun hcounts => ?_⟩
        · have hsilent := hmeet.background ((background_iff cfg n dp _ prio').1 hbackground)
          rw [← haps] at hsilent
          exact ⟨hsilent, prioOf_silent hsilent hprio'⟩
        · exact fun hshown => hmeet.noAlert hcounts (halert.1 hshown)
  · constructor
    · exact fun _ hyes => absurd hyes hdict
    · intro _ prio hprio
      have hyes := (prioOf_eq_ok_iff _).1 ⟨prio, hprio⟩
      rw [isObj_fallback] at hyes
      exact absurd hyes hdict

/-- **Every request of a notification is one that APNs accepts, exactly when the payload meets the
condition**: where it can be cut to size, it is silent if it is sent silently by configuration, and
a story has a type; where it cannot, the payload that stands in is fit to. -/
theorem requests_acceptable_iff (cfg : ApnsConfig) (n : Notification) (device : Device) :
    (∀ r, apnsDispatch cfg n device = .ok (.request r) → Acceptable cfg.limits n r) ↔
      Meets cfg n device := by
  have hshaved : ∀ dp payload p, truncate cfg.limits payload maxJsonBodySize = .ok p →
      shavedPayload cfg n dp payload = .ok p := by
    intro dp payload p hcut
    rw [shavedPayload, hcut]
  have hstands : ∀ dp payload,
      truncate cfg.limits payload maxJsonBodySize = .error (.user .bodyTooLong) →
      shavedPayload cfg n dp payload = .ok (fallbackPayload cfg n dp) := by
    intro dp payload hlong
    rw [shavedPayload, hlong]
    rfl
  constructor
  · intro hall dp payload hdp hpayload
    constructor
    · rintro ⟨p, hcut⟩
      refine (cut_iff hpayload hcut).1 fun prio hprio => hall _ ?_
      exact (request_iff cfg n device _).2
        ⟨dp, payload, p, prio, hdp, hpayload, hshaved dp payload p hcut, hprio, rfl⟩
    · intro hlong
      refine (fallback_iff hpayload hlong).1 fun prio hprio => hall _ ?_
      exact (request_iff cfg n device _).2
        ⟨dp, payload, _, prio, hdp, hpayload, hstands dp payload hlong, hprio, rfl⟩
  · intro hmeets r hr
    obtain ⟨dp, payload, shaved, prio, hdp, hpayload, hsh, hprio, rfl⟩ :=
      (request_iff cfg n device r).1 hr
    obtain ⟨hcut, hlong⟩ := hmeets dp payload hdp hpayload
    cases htrunc : truncate cfg.limits payload maxJsonBodySize with
    | ok p =>
        obtain rfl := Except.ok.inj ((hshaved dp payload p htrunc).symm.trans hsh)
        exact (cut_iff hpayload htrunc).2 (hcut ⟨p, htrunc⟩) prio hprio
    | error e =>
        by_cases he : e = .user .bodyTooLong
        · rw [he] at htrunc
          obtain rfl := Except.ok.inj ((hstands dp payload htrunc).symm.trans hsh)
          exact (fallback_iff hpayload htrunc).2 (hlong htrunc) prio hprio
        · unfold shavedPayload at hsh
          rw [htrunc] at hsh
          split at hsh
          · rename_i heq
            exact absurd (Except.error.inj heq) he
          · cases hsh

/-- A client that declares `liza_clear_v`, with a long text of its own in `default_payload`. -/
def longPayload : Dict :=
  [("liza_clear_v", .int 1), ("aps", .obj [("sound", .str "default")]),
    ("note", .str (List.replicate 4096 (codePoint 'a')))]

/-- Its device. -/
def longDevice : Device :=
  ⟨"ru.liza.app", "key", .int 0, some [("default_payload", .obj longPayload)], ⟨none⟩⟩

/-- A notification of counts alone. -/
def badgePush (unread : ℤ) (device : Device) : Notification where
  roomName := .null
  roomAlias := .null
  prio := .null
  membership := .null
  senderDisplayName := .null
  content := .null
  eventId := .null
  roomId := .null
  userIsTarget := .null
  type := .null
  sender := .str ""
  counts := ⟨some (.int unread), none⟩
  devices := [device]

/-- The default configuration. -/
def apnsConfig : ApnsConfig := ⟨usualLimits, true, true, none⟩

/-- **A push that clears, too long for APNs, is sent in the background with a sound.** -/
theorem long_clearing_push :
    ¬∀ r, apnsDispatch apnsConfig (badgePush 0 longDevice) longDevice = .ok (.request r) →
      Acceptable apnsConfig.limits (badgePush 0 longDevice) r := by
  intro hall
  have hlong : truncate usualLimits (getPayloadClearing (badgePush 0 longDevice) longPayload)
      maxJsonBodySize = .error (.user .bodyTooLong) := by
    have htoo : isTooLong usualLimits (getPayloadClearing (badgePush 0 longDevice) longPayload)
        maxJsonBodySize = .ok true := by decide +kernel
    rw [truncate_silent (aps_clearing (badgePush 0 longDevice) longPayload), htoo]
    rfl
  have hsent : apnsDispatch apnsConfig (badgePush 0 longDevice) longDevice =
      .ok (.request (requestOf apnsConfig (badgePush 0 longDevice) longPayload
        (fallbackPayload apnsConfig (badgePush 0 longDevice) longPayload) 10)) := by
    refine (request_iff _ _ _ _).2 ⟨longPayload, _, _, 10, rfl, rfl, ?_, rfl, rfl⟩
    rw [shavedPayload, show apnsConfig.limits = usualLimits from rfl, hlong]
    rfl
  have hsilent := ((hall _ hsent).silent rfl).2
  cases hsilent

end Sygnal
end Liza
