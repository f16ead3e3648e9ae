/-
# What one FCM push leaves for the next

A dispatch writes the priority and the notification block into the dictionary `android`
of the request body.  Where the configuration has such a dictionary, it is the
configuration's own, shared by all dispatches.  The priority is the same every time, and
an event push writes every key of the notification block again; but a push without an
event id leaves the block alone, and so carries the title and the text of whatever was
pushed last, to anybody.

A configuration lets nothing through exactly when it has no such dictionary to write the
block to: the legacy API, no `android`, an `android` that is no dictionary (then nothing
is ever sent), or a `notification` in it that is none (then no event push is sent).
-/

import Liza.Sygnal.Gcm

set_option autoImplicit false

namespace Liza
namespace Sygnal

open Lib

/-- The configuration has a dictionary that the notification block is written to. -/
def SharesBlock (cfg : GcmConfig) : Prop :=
  cfg.apiVersion = .v1 ∧ ∃ android, cfg.fcmOptions.get? "android" = some (.obj android) ∧
    ((Dict.get? android "notification").getD (.obj [])).isObj = true

section Frame

variable {cfg : GcmConfig} {base : Dict} {n : Notification} {device : Device} {android : Dict}

/-- `android` with the priority that every dispatch writes. -/
def withPriority (android : Dict) : Dict := Dict.set android "priority" (.str "high")

/-- The priority is written once and for all. -/
theorem fillAndroid_withPriority (n : Notification) (android : Dict) :
    fillAndroid n (.obj (withPriority android)) = fillAndroid n (.obj android) := by
  simp only [fillAndroid, withPriority, Dict.set_set]

/-- A block that is no dictionary is not written to. -/
theorem fillAndroid_of_not_obj (hnot : ((Dict.get? android "notification").getD (.obj [])).isObj = false)
    (n : Notification) : (fillAndroid n (.obj android)).1 = .obj (withPriority android) := by
  have hget : Dict.get? (withPriority android) "notification" = Dict.get? android "notification" :=
    Dict.get?_set_of_ne _ _ (by decide)
  unfold fillAndroid
  simp only [← withPriority.eq_def, hget]
  split
  · split
    · rename_i notification hobj
      rw [hobj] at hnot
      cases hnot
    · rfl
  · rfl

/-- What a dispatch may leave in the shared dictionary. -/
theorem dispatch_base_cases (cfg : GcmConfig) (base : Dict) (n : Notification) (device : Device) :
    (dispatch cfg base n device).1 = base ∨
      cfg.apiVersion = .v1 ∧ (dispatch cfg base n device).1 =
        keepAndroid base (fillAndroid n ((base.get? "android").getD (.obj []))).1 := by
  unfold dispatch
  simp only
  split
  · exact .inl rfl
  · split
    · exact .inl rfl
    · exact .inl rfl
    · exact .inl rfl
    · split
      · exact .inl rfl
      · rename_i hv1
        exact .inr ⟨hv1, rfl⟩

/-- The request does not depend on what stood under `android`, once `android` is filled. -/
theorem requestV1_set_android {x : Json} (hmem : (base.get? "android").isSome = true)
    (hfill : fillAndroid n x = fillAndroid n ((base.get? "android").getD (.obj []))) (data : Dict) :
    (requestV1 (base.set "android" x) data n device).2 = (requestV1 base data n device).2 := by
  have hget : (base.set "android" x).get? "android" = some x := Dict.get?_set_self _ _ _
  have hmessage : ∀ a : Json, ((base.set "android" x).set "data" (.obj data)).set "android" a =
      (base.set "data" (.obj data)).set "android" a := by
    intro a
    rw [Dict.set_comm_of_mem hmem (by decide), Dict.set_set]
  simp only [requestV1, hget, Option.getD_some, hfill, hmessage]

/-- The outcome of a dispatch depends on the shared dictionary through the request only. -/
theorem dispatch_congr {base' : Dict} (hleg : cfg.apiVersion = .legacy → base' = base)
    (hv1 : cfg.apiVersion = .v1 → ∀ data,
      (requestV1 base' data n device).2 = (requestV1 base data n device).2) :
    (dispatch cfg base' n device).2 = (dispatch cfg base n device).2 := by
  unfold dispatch
  simp only
  split
  · rfl
  · split
    · rfl
    · rfl
    · rfl
    · split
      · rename_i hl
        rw [hleg hl]
      · rename_i hv
        simp only [hv1 hv]

end Frame

/-! ### No shared block: nothing is left behind -/

section Kept

variable {cfg : GcmConfig}

/-- What a configuration without a shared block may become: it is as it was, or the
priority is written already. -/
def Unshared (cfg : GcmConfig) (base : Dict) : Prop :=
  base = cfg.fcmOptions ∨ cfg.apiVersion = .v1 ∧
    ∃ android, cfg.fcmOptions.get? "android" = some (.obj android) ∧
      base = cfg.fcmOptions.set "android" (.obj (withPriority android))

/-- One dispatch with the dictionary of the configuration itself. -/
theorem unshared_first (h : ¬SharesBlock cfg) (n : Notification) (device : Device) :
    Unshared cfg (dispatch cfg cfg.fcmOptions n device).1 := by
  rcases dispatch_base_cases cfg cfg.fcmOptions n device with hb | ⟨hv1, hb⟩
  · exact .inl hb
  rw [hb]
  unfold keepAndroid
  split
  · rename_i hcontains
    obtain ⟨v, hv⟩ := Option.isSome_iff_exists.1 hcontains
    simp only [hv, Option.getD_some]
    cases v with
    | obj android =>
        have hnot : ((Dict.get? android "notification").getD (.obj [])).isObj = false := by
          by_contra hobj
          exact h ⟨hv1, android, hv, by simpa using hobj⟩
        rw [fillAndroid_of_not_obj hnot]
        exact .inr ⟨hv1, android, hv, rfl⟩
    | _ => exact .inl (Dict.set_of_get? hv)
  · exact .inl rfl

/-- One dispatch with what earlier ones have left. -/
theorem unshared_step (h : ¬SharesBlock cfg) {base : Dict} (hb : Unshared cfg base)
    (n : Notification) (device : Device) : Unshared cfg (dispatch cfg base n device).1 := by
  rcases hb with rfl | ⟨hv1, android, hget, rfl⟩
  · exact unshared_first h n device
  rcases dispatch_base_cases cfg (cfg.fcmOptions.set "android" (.obj (withPriority android))) n
    device with hb | ⟨-, hb⟩
  · exact .inr ⟨hv1, android, hget, hb⟩
  have hnot : ((Dict.get? android "notification").getD (.obj [])).isObj = false := by
    by_contra hobj
    exact h ⟨hv1, android, hget, by simpa using hobj⟩
  refine .inr ⟨hv1, android, hget, ?_⟩
  rw [hb, keepAndroid, Dict.get?_set_self, if_pos (by simp [Dict.contains]), Option.getD_some,
    fillAndroid_withPriority, fillAndroid_of_not_obj hnot, Dict.set_set]

theorem unshared_baseAfter (h : ¬SharesBlock cfg) (history : List (Notification × Device)) :
    Unshared cfg (baseAfter cfg history) := by
  have hrun : ∀ base, Unshared cfg base →
      Unshared cfg (history.foldl (fun base p => (dispatch cfg base p.1 p.2).1) base) := by
    induction history with
    | nil => exact fun base hb => hb
    | cons p history ih => exact fun base hb => ih _ (unshared_step h hb p.1 p.2)
  exact hrun _ (.inl rfl)

/-- What an unshared dictionary answers is what the configuration answers. -/
theorem dispatch_of_unshared {base : Dict} (hb : Unshared cfg base) (n : Notification)
    (device : Device) :
    (dispatch cfg base n device).2 = (dispatch cfg cfg.fcmOptions n device).2 := by
  rcases hb with rfl | ⟨hv1, android, hget, rfl⟩
  · rfl
  · refine dispatch_congr (fun hleg => ?_) fun _ data => ?_
    · rw [hv1] at hleg
      cases hleg
    · refine requestV1_set_android (by simp [hget]) ?_ data
      rw [hget, Option.getD_some, fillAndroid_withPriority]

end Kept

/-! ### A shared block: the next push carries it -/

section Leak

variable {cfg : GcmConfig}

/-- A device without data of its own. -/
def plainDevice : Device := ⟨"app", "key", .int 0, none, ⟨none⟩⟩

/-- A message in a room with the given name. -/
def messageIn (roomName : PyStr) : Notification where
  roomName := .str roomName
  roomAlias := .null
  prio := .null
  membership := .null
  senderDisplayName := .null
  content := .null
  eventId := .str "$1"
  roomId := .str "!r"
  userIsTarget := .null
  type := .null
  sender := .null
  counts := ⟨none, none⟩
  devices := [plainDevice]

/-- A push without an event. -/
def withoutEvent : Notification :=
  { messageIn [] with roomName := .null, eventId := .null, counts := ⟨some (.int 1), none⟩ }

/-- The notification block of a message in a room. -/
def blockOf (roomName : PyStr) : Dict :=
  [("title", .str roomName), ("body", .str "Новое сообщение"), ("channel_id", .str "liza_push"),
    ("sound", .str "default"), ("notification_priority", .str "PRIORITY_HIGH"),
    ("default_vibrate_timings", .bool true), ("tag", .str "!r")]

/-- The outcome where the data is built and not empty. -/
theorem dispatch_v1 (hv1 : cfg.apiVersion = .v1) {base : Dict} {n : Notification}
    {kv : PyStr × Json} {data : Dict}
    (hdata : buildData n plainDevice .v1 cfg.sendBadgeCounts = .ok (some (kv :: data))) :
    (dispatch cfg base n plainDevice).1 = (requestV1 base (kv :: data) n plainDevice).1 ∧
      (dispatch cfg base n plainDevice).2 = (requestV1 base (kv :: data) n plainDevice).2 >>=
        fun body => .ok (.request body) := by
  have hkeys : pushkeysOf cfg n plainDevice = [plainDevice.pushkey] := by rw [pushkeysOf, hv1]
  unfold dispatch
  simp only [hkeys, hv1, hdata, List.head?_cons, ne_eq, not_true_eq_false, if_false]
  exact ⟨trivial, trivial⟩

theorem buildData_withoutEvent (sendBadgeCounts : Bool) :
    ∃ kv data, buildData withoutEvent plainDevice .v1 sendBadgeCounts = .ok (some (kv :: data)) := by
  cases sendBadgeCounts <;> exact ⟨_, _, rfl⟩

/-- The title of a block that was written over another. -/
theorem title_update (notification : Dict) (roomName : PyStr) :
    Dict.get? (Dict.update notification (blockOf roomName)) "title" = some (.str roomName) := by
  simp [blockOf, Dict.update, Dict.get?_set]

/-- **After a message, a push without an event carries its title:** for the bodies to be
the same, the configuration would have to have that very title. -/
theorem title_of_same_body (hshares : SharesBlock cfg) {roomName : PyStr}
    (hdata : ∃ kv data, buildData (messageIn roomName) plainDevice .v1 cfg.sendBadgeCounts =
      .ok (some (kv :: data)))
    (hblock : buildAndroidNotification (messageIn roomName) = .ok (blockOf roomName))
    (hsame : (dispatch cfg (baseAfter cfg [(messageIn roomName, plainDevice)]) withoutEvent
      plainDevice).2 = (dispatch cfg cfg.fcmOptions withoutEvent plainDevice).2) :
    ∃ android notification, cfg.fcmOptions.get? "android" = some (.obj android) ∧
      Dict.get? android "notification" = some (.obj notification) ∧
      Dict.get? notification "title" = some (.str roomName) := by
  obtain ⟨hv1, android, hget, hobj⟩ := hshares
  obtain ⟨kv, data, hdata⟩ := hdata
  obtain ⟨kv', data', hdata'⟩ := buildData_withoutEvent cfg.sendBadgeCounts
  -- the block of the configuration, empty where there is none
  obtain ⟨notification, hnotification⟩ : ∃ d,
      (Dict.get? android "notification").getD (.obj []) = .obj d := by
    cases hv : (Dict.get? android "notification").getD (.obj []) with
    | obj d => exact ⟨d, rfl⟩
    | _ =>
        rw [hv] at hobj
        cases hobj
  -- what the message leaves behind
  have hleft : baseAfter cfg [(messageIn roomName, plainDevice)] =
      cfg.fcmOptions.set "android" (.obj (Dict.set (withPriority android) "notification"
        (.obj (Dict.update notification (blockOf roomName))))) := by
    have hkeep : Dict.get? (withPriority android) "notification" =
        Dict.get? android "notification" := Dict.get?_set_of_ne _ _ (by decide)
    have hfill : (fillAndroid (messageIn roomName) (.obj android)).1 =
        .obj (Dict.set (withPriority android) "notification"
          (.obj (Dict.update notification (blockOf roomName)))) := by
      simp only [fillAndroid, ← withPriority.eq_def, hkeep, hnotification, hblock]
      rfl
    change (dispatch cfg cfg.fcmOptions (messageIn roomName) plainDevice).1 = _
    rw [(dispatch_v1 hv1 hdata).1]
    simp only [requestV1, hget, Option.getD_some, hfill, keepAndroid, Dict.contains,
      Option.isSome_some, if_true]
  rw [hleft, (dispatch_v1 hv1 hdata').2, (dispatch_v1 hv1 hdata').2] at hsame
  -- both requests are built; their `android` is the same
  have hfilled : ∀ d : Dict, (fillAndroid withoutEvent (.obj d)).2 = .ok (withPriority d) :=
    fun d => rfl
  simp only [requestV1, Dict.get?_set_self, hget, Option.getD_some, hfilled, Py.ok_bind,
    Except.ok.injEq, Outcome.request.injEq, List.cons.injEq, Prod.mk.injEq, Json.obj.injEq,
    and_true, true_and] at hsame
  have hread : ∀ (m : Dict) (v w : Json),
      Dict.get? ((Dict.set m "android" v).set "token" w) "android" = some v := by
    intro m v w
    rw [Dict.get?_set_of_ne _ _ (by decide), Dict.get?_set_self]
  have handroid := congrArg (fun m => Dict.get? m "android") hsame
  simp only [hread] at handroid
  have heq := Json.obj.inj (Option.some.inj handroid)
  have hnot := congrArg (fun m => Dict.get? m "notification") heq
  simp only [withPriority] at hnot
  rw [Dict.get?_set_of_ne _ _ (by decide), Dict.get?_set_self,
    Dict.get?_set_of_ne _ _ (by decide)] at hnot
  exact ⟨android, _, hget, hnot.symm, title_update _ _⟩

/-- **A configuration lets nothing through from one push to another exactly when it has no
dictionary that the notification block is written to.** -/
theorem bodies_independent_iff (cfg : GcmConfig) :
    (∀ history n device, (dispatch cfg (baseAfter cfg history) n device).2 =
        (dispatch cfg cfg.fcmOptions n device).2) ↔ ¬SharesBlock cfg := by
  constructor
  · intro hsame hshares
    have hdata : ∀ t : String, t = "a" ∨ t = "b" → ∃ kv data,
        buildData (messageIn t) plainDevice .v1 cfg.sendBadgeCounts = .ok (some (kv :: data)) := by
      rintro t (rfl | rfl) <;> cases cfg.sendBadgeCounts <;> exact ⟨_, _, rfl⟩
    obtain ⟨android, block, ha, hb, htitle⟩ := title_of_same_body hshares (hdata "a" (.inl rfl)) rfl
      (hsame [(messageIn "a", plainDevice)] withoutEvent plainDevice)
    obtain ⟨android', block', ha', hb', htitle'⟩ := title_of_same_body hshares
      (hdata "b" (.inr rfl)) rfl (hsame [(messageIn "b", plainDevice)] withoutEvent plainDevice)
    -- one title cannot be both
    rw [ha] at ha'
    obtain rfl := Json.obj.inj (Option.some.inj ha')
    rw [hb] at hb'
    obtain rfl := Json.obj.inj (Option.some.inj hb')
    rw [htitle] at htitle'
    exact absurd (Json.str.inj (Option.some.inj htitle')) (by decide)
  · intro h history n device
    exact dispatch_of_unshared (unshared_baseAfter h history) n device

end Leak

/-! ### A banner for nobody's message -/

/-- The API v1 with an option for Android. -/
def ttlConfig : GcmConfig :=
  ⟨.v1, [("android", .obj [("ttl", .str "3600s")])], true, fun _ => true⟩

/-- The push of a badge count, as Synapse sends it after a read receipt. -/
def countsOnly : Notification :=
  { withoutEvent with roomId := .null, sender := .str "", counts := ⟨some (.int 3), none⟩ }

/-- The `android` dictionary of a request. -/
def androidOf : Py SygnalExn Outcome → Option Json
  | .ok (.request body) =>
      match body.get? "message" with
      | some (.obj message) => Dict.get? message "android"
      | _ => none
  | _ => none

/-- **A badge update carries the title of another message:** after a message in the room
`Secret`, the counts-only push has a notification block with that title, where a fresh
pushkin sends none. -/
theorem badge_update_carries_title :
    androidOf (dispatch ttlConfig (baseAfter ttlConfig [(messageIn "Secret", plainDevice)])
        countsOnly plainDevice).2 =
      some (.obj [("ttl", .str "3600s"), ("priority", .str "high"),
        ("notification", .obj (blockOf "Secret"))]) ∧
    androidOf (dispatch ttlConfig ttlConfig.fcmOptions countsOnly plainDevice).2 =
      some (.obj [("ttl", .str "3600s"), ("priority", .str "high")]) := by
  constructor
  · decide
  · decide

end Sygnal
end Liza
