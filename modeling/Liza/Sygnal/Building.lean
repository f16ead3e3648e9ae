/-
# When a payload can be built

A notification is JSON from outside, and the builders apply operations to its values that
not every value has.  For each builder the exact condition is given under which it
returns: no other exception than `BodyTooLongException` leaves it.

The conditions are about the values the builder reads.  They are found by going through
its text with `safe_bind`; a condition that a branch is not taken stands before the
conditions of the branch.

Two of the operations have limits: `copy.deepcopy` of a client's `default_payload`, and
`json.dumps` of the payload that is measured.
-/

import Liza.Sygnal.Apns
import Liza.Sygnal.Cutting

set_option autoImplicit false

namespace Liza
namespace Sygnal

open Lib

/-! ### FCM -/

section Gcm

variable {n : Notification} {device : Device}

/-- A string of the notification has no lone surrogate. -/
def textFits : Json → Bool
  | .str s => encodable s
  | _ => true

/-- The content that `_build_data` flattens, where it is a dictionary: that of the
notification, or else of the default payload. -/
def flattened (n : Notification) (payload : Dict) : Option Dict :=
  if n.content ≠ .null then asDict n.content else (payload.get? "content").bind asDict

/-- `_build_data` works: no field has a lone surrogate, nor has, for the API v1, any string
of the content. -/
def DataFits (n : Notification) (device : Device) (apiVersion : APIVersion) : Prop :=
  ∀ payload, defaultPayload device = .obj payload →
    (∀ f ∈ dataFields n, textFits f.2 = true) ∧
    (apiVersion = .v1 → ∀ content, flattened n payload = some content →
      ∀ item ∈ content, textFits item.2 = true)

theorem plain_truncateStr (v : Json) (maxBytes : ℕ) : (truncateStr v maxBytes).Plain := by
  cases v with
  | str s =>
      refine (plain_encodeStr s).bind fun length => ?_
      split <;> exact Py.plain_ok _
  | _ => exact Py.plain_attributeError

theorem safe_truncateStr (v : Json) (maxBytes : ℕ) :
    (truncateStr v maxBytes).Safe ↔ v.isStr = true ∧ textFits v = true := by
  cases v with
  | str s =>
      simp only [truncateStr, Py.safe_bind, safe_encode, Json.isStr, textFits, true_and]
      refine and_iff_left fun length _ => ?_
      split <;> exact Py.safe_ok _
  | _ => simp [truncateStr, Json.isStr]

theorem plain_addField (data : Dict) (attr : PyStr) (v : Json) : (addField data attr v).Plain := by
  cases v with
  | str s => exact (plain_truncateStr _ _).bind fun _ => Py.plain_ok _
  | _ => exact Py.plain_ok _

theorem safe_addField (data : Dict) (attr : PyStr) (v : Json) :
    (addField data attr v).Safe ↔ textFits v = true := by
  cases v with
  | str s =>
      simp only [addField, Py.safe_bind, safe_truncateStr, Json.isStr, true_and]
      exact and_iff_left fun _ _ => Py.safe_ok _
  | _ => simp [addField, textFits]

theorem plain_addFields (data : Dict) (fields : List (PyStr × Json)) :
    (addFields data fields).Plain := by
  induction fields generalizing data with
  | nil => exact Py.plain_ok data
  | cons f fields ih => exact (plain_addField _ _ _).bind fun data => ih data

/-- The loop over the fields works when none has a lone surrogate. -/
theorem safe_addFields (data : Dict) (fields : List (PyStr × Json)) :
    (addFields data fields).Safe ↔ ∀ f ∈ fields, textFits f.2 = true := by
  induction fields generalizing data with
  | nil => simp [addFields]
  | cons f fields ih =>
      rw [List.forall_mem_cons, addFields,
        (plain_addField data f.1 f.2).safe_bind_iff fun data' _ => ih data', safe_addField]

/-- The loop over the content works when none of its strings has a lone surrogate. -/
theorem safe_flattenContent (data : Dict) (items : List (PyStr × Json)) :
    (flattenContent data items).Safe ↔ ∀ item ∈ items, textFits item.2 = true := by
  induction items generalizing data with
  | nil => simp [flattenContent]
  | cons item items ih =>
      obtain ⟨attr, value⟩ := item
      rw [List.forall_mem_cons]
      cases value with
      | str s =>
          rw [flattenContent, (plain_truncateStr _ _).safe_bind_iff fun v _ => ih _,
            safe_truncateStr]
          simp [Json.isStr]
      | _ => simp [flattenContent, textFits, ih]

/-- The content after the loop over the fields. -/
def contentAfter (old : Option Dict) : List (PyStr × Json) → Option Dict
  | [] => old
  | (attr, v) :: fields =>
      contentAfter (if attr = py "content" ∧ v ≠ .null then asDict v else old) fields

/-- One round changes the content where the field is the content. -/
theorem content_addField {data data' : Dict} {attr : PyStr} {v : Json}
    (h : addField data attr v = .ok data') :
    (data'.get? "content").bind asDict =
      if attr = py "content" ∧ v ≠ .null then asDict v
      else (data.get? "content").bind asDict := by
  by_cases hattr : attr = py "content"
  · subst hattr
    cases v with
    | null =>
        obtain rfl := Except.ok.inj h
        simp
    | str s =>
        obtain ⟨t, -, ht⟩ := Py.bind_eq_ok h
        obtain rfl := Except.ok.inj ht
        simp [asDict]
    | _ =>
        obtain rfl := Except.ok.inj h
        simp
  · cases v with
    | null =>
        obtain rfl := Except.ok.inj h
        simp
    | str s =>
        obtain ⟨t, -, ht⟩ := Py.bind_eq_ok h
        obtain rfl := Except.ok.inj ht
        simp [hattr, Dict.get?_set_of_ne _ _ (Ne.symm hattr)]
    | _ =>
        simp only [addField, hattr, if_false] at h
        obtain rfl := Except.ok.inj h
        simp [hattr]

/-- The loop over the fields sets the content. -/
theorem content_addFields {data data' : Dict} {fields : List (PyStr × Json)}
    (h : addFields data fields = .ok data') :
    (data'.get? "content").bind asDict =
      contentAfter ((data.get? "content").bind asDict) fields := by
  induction fields generalizing data with
  | nil =>
      obtain rfl := Except.ok.inj h
      rfl
  | cons f fields ih =>
      obtain ⟨next, hnext, hrest⟩ := Py.bind_eq_ok h
      rw [ih hrest, content_addField hnext]
      rfl

theorem contentAfter_dataFields (n : Notification) (payload : Dict) :
    contentAfter ((payload.get? "content").bind asDict) (dataFields n) = flattened n payload := by
  simp [dataFields, contentAfter, flattened]

/-- Flattening works when the content has no lone surrogate. -/
theorem safe_flatten (apiVersion : APIVersion) (data : Dict) :
    (flatten apiVersion data).Safe ↔
      (apiVersion = .v1 → ∀ content, (data.get? "content").bind asDict = some content →
        ∀ item ∈ content, textFits item.2 = true) := by
  cases apiVersion with
  | legacy => simp [flatten]
  | v1 =>
      cases hget : data.get? (py "content") with
      | none => simp [flatten, hget]
      | some v =>
          cases v with
          | obj content =>
              simp only [flatten, hget, Py.safe_bind, safe_flattenContent]
              simp [asDict]
          | _ => simp [flatten, hget, asDict]

/-- **`_build_data` returns exactly when no string it copies has a lone surrogate.** -/
theorem safe_buildData (n : Notification) (device : Device) (apiVersion : APIVersion)
    (sendBadgeCounts : Bool) :
    (buildData n device apiVersion sendBadgeCounts).Safe ↔ DataFits n device apiVersion := by
  unfold buildData DataFits
  cases hpayload : defaultPayload device with
  | obj payload =>
      simp only [Json.obj.injEq, forall_eq']
      rw [(plain_addFields payload (dataFields n)).safe_bind_iff, safe_addFields]
      intro data hdata
      rw [Py.safe_bind, safe_flatten, content_addFields hdata, contentAfter_dataFields]
      refine and_iff_left fun data' _ => ?_
      split_ifs <;> exact Py.safe_ok _
  | _ => simp

/-- What is shown of a body has no lone surrogate: its text, unless a file of that name or
a body of blanks is replaced by another text. -/
def BodyFits (content : Dict) (body : PyStr) : Prop :=
  encodable (cleanText body) = true ∨
    (isMediaMsgtype content = .ok true ∧ content.get "filename" = .str (cleanText body)) ∨
    (isMediaMsgtype content = .ok false ∧ body.all isSpace = true)

/-- `_build_android_notification` works: the msgtype can be looked up, the title is a
string, and neither it nor what is shown of the body has a lone surrogate. -/
def AndroidFits (n : Notification) : Prop :=
  (∀ content : Dict, n.content = .obj content → isStory n.content = false →
    (content.get "msgtype").hashable = true ∧
    ∀ body, content.get "body" = .str body → BodyFits content body) ∧
  (androidTitle n).isStr = true ∧ textFits (androidTitle n) = true

/-- The text of a banner that is not the body is one of a few. -/
theorem encodable_mediaTypeLabel (content : Dict) : encodable (mediaTypeLabel content) = true := by
  unfold mediaTypeLabel
  split
  · split_ifs <;> exact encodable_py _
  · exact encodable_py _

/-- The text shown for a media message. -/
theorem encodable_mediaText (content : Dict) :
    encodable ((mediaCaption content).getD (mediaTypeLabel content)) = true ↔
      ∀ body, content.get "body" = .str body → encodable (cleanText body) = true ∨
        content.get "filename" = .str (cleanText body) := by
  have hlabel := encodable_mediaTypeLabel content
  have hempty : encodable [] = true := rfl
  unfold mediaCaption
  split
  · rename_i body hbody
    simp only [hbody, Json.str.injEq, forall_eq']
    by_cases hnil : cleanText body = []
    · simp [hnil, hlabel, hempty]
    · by_cases hfile : content.get "filename" = .str (cleanText body)
      · simp [hnil, hfile, hlabel]
      · simp [hnil, hfile]
  · rename_i hbody
    simp only [Option.getD_none, hlabel, true_iff]
    intro body h
    exact absurd h (hbody body)

/-- The text shown for another message. -/
theorem encodable_plainBody (content : Dict) :
    encodable (plainBody content) = true ↔
      ∀ body, content.get "body" = .str body → encodable (cleanText body) = true ∨
        body.all isSpace = true := by
  have hdefault : encodable (py "Новое сообщение") = true := encodable_py _
  unfold plainBody
  split
  · rename_i body hbody
    simp only [hbody, Json.str.injEq, forall_eq']
    by_cases hblank : body.all isSpace = true
    · simp only [hblank, if_true, hdefault, or_true]
    · simp only [hblank, if_false, or_false, Bool.false_eq_true]
  · rename_i hbody
    simp only [hdefault, true_iff]
    intro body h
    exact absurd h (hbody body)

/-- The text of a banner for a content that is no story. -/
theorem androidBody_content {content : Dict} (hn : n.content = .obj content)
    (hstory : isStory n.content = false) :
    ((androidBody n).Safe ∧ ∀ text, androidBody n = .ok text → encodable text = true) ↔
      (content.get "msgtype").hashable = true ∧
        ∀ body, content.get "body" = .str body → BodyFits content body := by
  have hbody : androidBody n = isMediaMsgtype content >>= fun media =>
      if media then .ok ((mediaCaption content).getD (mediaTypeLabel content))
      else .ok (plainBody content) := by
    rw [hn] at hstory
    simp only [androidBody, hn, hstory, Bool.false_eq_true, if_false]
  rw [hbody, ← safe_isMediaMsgtype]
  cases hmedia : isMediaMsgtype content with
  | ok media =>
      cases media with
      | true =>
          have hfits := encodable_mediaText content
          simp only [Py.ok_bind, if_true, Py.safe_ok, true_and, Except.ok.injEq, forall_eq',
            BodyFits, hmedia, Bool.true_eq_false, false_and, or_false]
          exact hfits
      | false =>
          have hfits := encodable_plainBody content
          simp only [Py.ok_bind, Bool.false_eq_true, if_false, Py.safe_ok, true_and,
            Except.ok.injEq, forall_eq', BodyFits, hmedia, false_and, false_or]
          exact hfits
  | error e =>
      have hnot : ¬Py.Safe (.error e : Py SygnalExn Bool) := by
        rw [← hmedia]
        intro hsafe
        obtain ⟨media, hok⟩ := (plain_isMediaMsgtype content).exists_ok hsafe
        rw [hok] at hmedia
        cases hmedia
      constructor
      · rintro ⟨hsafe, -⟩
        exact absurd (Py.safe_bind.1 hsafe).1 hnot
      · rintro ⟨hsafe, -⟩
        exact absurd hsafe hnot

/-- The banner for what is no content of a message has a fixed text. -/
theorem androidBody_fixed
    (h : ∀ content : Dict, n.content = .obj content → isStory n.content = true) :
    ∃ text, androidBody n = .ok text ∧ encodable text = true := by
  cases hn : n.content with
  | obj content =>
      have hstory := h content hn
      rw [hn] at hstory
      refine ⟨storyPublishedBody, ?_, encodable_py _⟩
      simp only [androidBody, hn, hstory, if_true]
  | _ => exact ⟨py "Новое сообщение", by simp only [androidBody, hn], encodable_py _⟩

theorem plain_androidBody (n : Notification) : (androidBody n).Plain := by
  unfold androidBody
  split
  · split
    · exact Py.plain_ok _
    · refine (plain_isMediaMsgtype _).bind fun media => ?_
      split <;> exact Py.plain_ok _
  · exact Py.plain_ok _

/-- A title and a text that are cut to size. -/
theorem safe_titled (title : Json) (text : PyStr) (f : PyStr → PyStr → Dict) :
    (truncateStr title maxBytesPerField >>= fun title =>
        truncateStr (.str text) maxBytesPerField >>= fun body =>
          (.ok (f title body) : Py SygnalExn Dict)).Safe ↔
      (title.isStr = true ∧ textFits title = true) ∧ encodable text = true := by
  have htext : ∀ title, (truncateStr (.str text) maxBytesPerField >>= fun body =>
      (.ok (f title body) : Py SygnalExn Dict)).Safe ↔ encodable text = true := by
    intro title
    rw [Py.safe_bind, safe_truncateStr]
    simp [Json.isStr, textFits]
  rw [(plain_truncateStr title maxBytesPerField).safe_bind_iff fun title _ => htext title,
    safe_truncateStr]

/-- **`_build_android_notification` returns exactly when what it shows fits.** -/
theorem safe_buildAndroidNotification (n : Notification) :
    (buildAndroidNotification n).Safe ↔ AndroidFits n := by
  -- The title does not depend on the text.
  have htitle : (buildAndroidNotification n).Safe ↔
      ((androidBody n).Safe ∧ ∀ text, androidBody n = .ok text → encodable text = true) ∧
        (androidTitle n).isStr = true ∧ textFits (androidTitle n) = true := by
    unfold buildAndroidNotification
    constructor
    · intro h
      obtain ⟨hbody, hrest⟩ := Py.safe_bind.1 h
      have hparts := fun text ht => (safe_titled (androidTitle n) text _).1 (hrest text ht)
      obtain ⟨text, ht⟩ := (plain_androidBody n).exists_ok hbody
      exact ⟨⟨hbody, fun text ht => (hparts text ht).2⟩, (hparts text ht).1⟩
    · rintro ⟨⟨hbody, hrest⟩, htitle⟩
      refine Py.safe_bind.2 ⟨hbody, fun text ht => ?_⟩
      exact (safe_titled (androidTitle n) text _).2 ⟨htitle, hrest text ht⟩
  rw [htitle]
  refine and_congr_left fun _ => ?_
  by_cases hcontent : ∃ content : Dict, n.content = .obj content ∧ isStory n.content = false
  · obtain ⟨content, hn, hstory⟩ := hcontent
    rw [androidBody_content hn hstory]
    constructor
    · intro h content' hn' _
      obtain rfl := Json.obj.inj (hn.symm.trans hn')
      exact h
    · intro h
      exact h content hn hstory
  · have hfixed : ∀ content : Dict, n.content = .obj content → isStory n.content = true := by
      intro content hn
      by_contra hstory
      exact hcontent ⟨content, hn, by simpa using hstory⟩
    obtain ⟨text, htext, henc⟩ := androidBody_fixed hfixed
    constructor
    · intro _ content hn hstory
      rw [hfixed content hn] at hstory
      cases hstory
    · intro _
      rw [htext]
      refine ⟨Py.safe_ok text, ?_⟩
      intro text' heq
      rwa [← Except.ok.inj heq]

end Gcm

/-! ### APNs -/

section Apns

variable {n : Notification} {device : Device}

/-- A field that is not empty can be cut. -/
def fieldFits (v : Json) : Bool := !v.truthy || v.sliceable

theorem plain_field (v : Json) : (field v).Plain := Json.plain_slice _ v

theorem safe_field (v : Json) : (field v).Safe ↔ v.sliceable = true := Json.safe_slice _ v

/-- The text of a message can be read: a content that is not empty holds no other body
beside a msgtype than a string or an empty value. -/
def MessageFits (content : Json) : Prop :=
  content.truthy = true →
    match content with
    | .obj d => Dict.contains d "msgtype" = true → ∀ body, Dict.get? d "body" = some body →
        body.isStr = true ∨ body.truthy = false
    | .arr l => ¬(.str "msgtype" ∈ l ∧ .str "body" ∈ l)
    | .str s => ¬(py "msgtype" <:+: s ∧ py "body" <:+: s)
    | _ => False

/-- The offer of a call can be looked through for its media. -/
def OfferFits : Json → Prop
  | .obj o => ∀ sdp, Dict.get? o "sdp" = some sdp → sdp.container = true
  | .arr l => .str "sdp" ∉ l
  | .str s => ¬py "sdp" <:+: s
  | _ => False

/-- The kind of a call can be told. -/
def CallFits (content : Json) : Prop :=
  content.truthy = true →
    match content with
    | .obj d => ∀ offer, Dict.get? d "offer" = some offer → OfferFits offer
    | .arr l => .str "offer" ∉ l
    | .str s => ¬py "offer" <:+: s
    | _ => False

theorem plain_messageText (content : Json) : (messageText content).Plain := by
  have hpresent : (hasText content).Plain := by
    unfold hasText
    split
    · refine (Json.plain_has _ content).bind fun msgtype => ?_
      split
      · exact Json.plain_has _ content
      · exact Py.plain_ok false
    · exact Py.plain_ok false
  refine hpresent.bind fun present => ?_
  split
  · refine (Json.plain_item _ content).bind fun body => ?_
    refine (plain_cleanMessageBody body).bind fun text => ?_
    refine (Json.plain_item _ content).bind fun msgtype => ?_
    split <;> exact Py.plain_ok _
  · exact Py.plain_ok _

theorem plain_isVideoCall (content : Json) : (isVideoCall content).Plain := by
  have hpresent : (hasSdp content).Plain := by
    unfold hasSdp
    split
    · refine (Json.plain_has _ content).bind fun offer => ?_
      split
      · exact (Json.plain_item _ content).bind fun offer => Json.plain_has _ offer
      · exact Py.plain_ok false
    · exact Py.plain_ok false
  refine hpresent.bind fun present => ?_
  split
  · refine (Json.plain_item _ content).bind fun offer => ?_
    exact (Json.plain_item _ offer).bind fun sdp => Json.plain_has _ sdp
  · exact Py.plain_ok false

/-- The text of a message is found exactly when its content fits. -/
theorem safe_messageText (content : Json) :
    (messageText content).Safe ↔ MessageFits content := by
  unfold MessageFits messageText hasText
  cases htruthy : content.truthy with
  | false => simp
  | true =>
      cases content with
      | obj d =>
          simp only [if_true, Json.has, Py.ok_bind, true_implies]
          by_cases hm : Dict.contains d (py "msgtype") = true
          · cases hb : Dict.get? d (py "body") with
            | none => simp [Dict.contains, hb]
            | some body =>
                have hcb : Dict.contains d (py "body") = true := by simp [Dict.contains, hb]
                obtain ⟨msgtype, hmsg⟩ := Option.isSome_iff_exists.1 hm
                simp only [hm, if_true, hcb, Py.ok_bind, Json.item_of_get? hb,
                  Json.item_of_get? hmsg, Py.safe_bind, safe_cleanMessageBody, true_implies,
                  Option.some.injEq, forall_eq']
                refine and_iff_left fun text _ => ?_
                split <;> exact Py.safe_ok _
          · simp [hm]
      | arr l =>
          by_cases hm : Json.str (py "msgtype") ∈ l
          · by_cases hb : Json.str (py "body") ∈ l
            · simp [Json.has, hm, hb, Json.item]
            · simp [Json.has, hm, hb]
          · simp [Json.has, hm]
      | str s =>
          by_cases hm : py "msgtype" <:+: s
          · by_cases hb : py "body" <:+: s
            · simp [Json.has, hm, hb, Json.item]
            · simp [Json.has, hm, hb]
          · simp [Json.has, hm]
      | _ => simp [Json.has]

/-- The kind of a call is told exactly when its content fits. -/
theorem safe_isVideoCall (content : Json) : (isVideoCall content).Safe ↔ CallFits content := by
  unfold CallFits isVideoCall hasSdp
  cases htruthy : content.truthy with
  | false => simp
  | true =>
      cases content with
      | obj d =>
          simp only [if_true, Json.has_obj, Py.ok_bind, true_implies]
          cases ho : Dict.get? d (py "offer") with
          | none => simp [Dict.contains, ho]
          | some offer =>
              have hco : Dict.contains d (py "offer") = true := by simp [Dict.contains, ho]
              simp only [hco, if_true, Json.item_of_get? ho, Py.ok_bind, Option.some.injEq,
                forall_eq']
              cases offer with
              | obj o =>
                  cases hs : Dict.get? o (py "sdp") with
                  | none => simp [OfferFits, Json.has_obj, Dict.contains, hs]
                  | some sdp =>
                      have hcs : Dict.contains o (py "sdp") = true := by simp [Dict.contains, hs]
                      simp [OfferFits, hs, Json.has_obj, hcs, Json.item_of_get? hs]
              | arr l =>
                  by_cases hs : Json.str (py "sdp") ∈ l
                  · simp [OfferFits, Json.has, hs, Json.item]
                  · simp [OfferFits, Json.has, hs]
              | str s =>
                  by_cases hs : py "sdp" <:+: s
                  · simp [OfferFits, Json.has, hs, Json.item]
                  · simp [OfferFits, Json.has, hs]
              | _ => simp [OfferFits, Json.has]
      | arr l =>
          by_cases ho : Json.str (py "offer") ∈ l
          · simp [Json.has, ho, Json.item]
          · simp [Json.has, ho]
      | str s =>
          by_cases ho : py "offer" <:+: s
          · simp [Json.has, ho, Json.item]
          · simp [Json.has, ho]
      | _ => simp [Json.has]

/-- The alert of a notification has a loc-key. -/
def announces (n : Notification) : Bool :=
  if n.type = .str "m.room.member" then isInvite n else n.type.truthy

/-- The loc-key and its arguments can be found. -/
def LocFits (n : Notification) : Prop :=
  if isMessage n then fieldFits (n.roomName.or n.roomAlias) = true ∧ MessageFits n.content
  else if n.type = .str "m.call.invite" then CallFits n.content
  else if n.type = .str "m.room.member" ∧ isInvite n then
    fieldFits (n.roomName.or n.roomAlias) = true
  else True

theorem plain_roomDisplay (n : Notification) : (roomDisplay n).Plain := by
  unfold roomDisplay
  simp only
  split
  · exact plain_field _
  · exact Py.plain_ok _

theorem safe_roomDisplay (n : Notification) :
    (roomDisplay n).Safe ↔ fieldFits (n.roomName.or n.roomAlias) = true := by
  unfold roomDisplay fieldFits
  cases h : (n.roomName.or n.roomAlias).truthy with
  | true => simp [h, safe_field]
  | false => simp [h]

theorem plain_locOf (n : Notification) (sender : Json) : (locOf n sender).Plain := by
  unfold locOf
  split
  · refine (plain_roomDisplay n).bind fun room => ?_
    exact (plain_messageText n.content).bind fun text => Py.plain_ok _
  · split
    · exact (plain_isVideoCall n.content).bind fun video => Py.plain_ok _
    · split
      · split
        · exact (plain_roomDisplay n).bind fun room => Py.plain_ok _
        · exact Py.plain_ok _
      · split <;> exact Py.plain_ok _

/-- The loc-key is found exactly when what it is made of fits. -/
theorem safe_locOf (n : Notification) (sender : Json) : (locOf n sender).Safe ↔ LocFits n := by
  unfold locOf LocFits
  split
  · rw [(plain_roomDisplay n).safe_bind_iff, safe_roomDisplay]
    intro room _
    rw [Py.safe_bind, safe_messageText]
    exact and_iff_left fun _ _ => Py.safe_ok _
  · split
    · rw [Py.safe_bind, safe_isVideoCall]
      exact and_iff_left fun _ _ => Py.safe_ok _
    · by_cases hmember : n.type = .str "m.room.member"
      · by_cases hinvite : isInvite n = true
        · simp only [hmember, hinvite, if_true, and_self, Py.safe_bind, safe_roomDisplay]
          exact and_iff_left fun _ _ => Py.safe_ok _
        · simp [hmember, hinvite]
      · simp only [hmember, if_false, false_and, iff_true]
        split <;> exact Py.safe_ok _

/-- There is a loc-key exactly where the notification announces something. -/
theorem isSome_locOf {sender : Json} {loc : Option Loc} (h : locOf n sender = .ok loc) :
    loc.isSome = announces n := by
  unfold locOf at h
  unfold announces
  split at h
  · rename_i hmessage
    obtain ⟨room, -, hrest⟩ := Py.bind_eq_ok h
    obtain ⟨text, -, hloc⟩ := Py.bind_eq_ok hrest
    obtain rfl := Except.ok.inj hloc
    simp only [isMessage, Bool.or_eq_true, decide_eq_true_eq] at hmessage
    rcases hmessage with htype | htype
    · rw [htype, if_neg (by simp)]
      rfl
    · rw [htype, if_neg (by simp)]
      rfl
  · split at h
    · rename_i htype
      obtain ⟨video, -, hloc⟩ := Py.bind_eq_ok h
      obtain rfl := Except.ok.inj hloc
      show true = if n.type = .str "m.room.member" then isInvite n else n.type.truthy
      rw [htype, if_neg (by simp)]
      rfl
    · split at h
      · rename_i hmember
        rw [if_pos hmember]
        split at h
        · rename_i hinvite
          obtain ⟨room, -, hloc⟩ := Py.bind_eq_ok h
          obtain rfl := Except.ok.inj hloc
          simp [hinvite]
        · rename_i hinvite
          obtain rfl := Except.ok.inj h
          simp [hinvite]
      · rename_i hmember
        rw [if_neg hmember]
        split at h
        · rename_i htruthy
          obtain rfl := Except.ok.inj h
          simp [htruthy]
        · rename_i htruthy
          obtain rfl := Except.ok.inj h
          simp [htruthy]

/-! ### The payload -/

/-- The payload a builder starts from has a dictionary under `aps`, or nothing. -/
def payloadFits : Json → Bool
  | .obj base => (apsOf base).isObj
  | _ => false

/-- `aps` has a dictionary under `alert`, or nothing. -/
def alertFits : Json → Bool
  | .obj base =>
      match apsOf base with
      | .obj aps => ((Dict.get? aps "alert").getD (.obj [])).isObj
      | _ => false
  | _ => false

/-- The payload that an alert starts from. -/
def alertBase (n : Notification) (device : Device) : Json :=
  if n.type.truthy then defaultPayload device else .obj []

/-- The default payload can be copied, where it is. -/
def CopyFits (depth : ℕ) (copied : Bool) (device : Device) : Prop :=
  copied = true → (defaultPayload device).copies depth = true

/-- `_get_payload_story` works: the default payload can be copied, `aps` can be written to, and
who sent it can be cut. -/
def StoryFits (L : Limits) (n : Notification) (device : Device) : Prop :=
  CopyFits L.storyDepth (hasData device) device ∧
    payloadFits (defaultPayload device) = true ∧ fieldFits n.sender = true ∧
    fieldFits n.senderDisplayName = true

/-- `_get_payload_full` works from the alert on. -/
def AlertFits (L : Limits) (n : Notification) (device : Device) : Prop :=
  CopyFits L.copyDepth (n.type.truthy && hasData device) device ∧
    payloadFits (alertBase n device) = true ∧
    (announces n = true → alertFits (alertBase n device) = true) ∧
    fieldFits n.sender = true ∧ fieldFits n.senderDisplayName = true ∧
    fieldFits n.roomName = true ∧ (n.content.truthy = true → n.content.isObj = true)

/-- `_get_payload_full` works. -/
def FullFits (L : Limits) (n : Notification) (device : Device) (sendBadgeCounts : Bool) : Prop :=
  (fromDisplay n).sliceable = true ∧
    if isStory n.content then StoryFits L n device
    else LocFits n ∧
      (announces n = true ∨ (badgeOf n sendBadgeCounts).isSome = true → AlertFits L n device)

theorem defaultPayload_of_not_hasData (h : hasData device = false) :
    defaultPayload device = .obj [] := by
  unfold hasData at h
  unfold defaultPayload
  cases hdata : device.data with
  | none => rfl
  | some data =>
      rw [hdata] at h
      have hnil : data = [] := by simpa using h
      simp [hnil]

/-- A copy is made exactly where it can be. -/
theorem safe_startPayload (depth : ℕ) (copied : Bool) (device : Device) :
    (startPayload depth copied device).Safe ↔ CopyFits depth copied device := by
  unfold startPayload CopyFits
  cases copied with
  | true => simp [safe_deepcopy]
  | false => simp

theorem plain_startPayload (depth : ℕ) (copied : Bool) (device : Device) :
    (startPayload depth copied device).Plain := by
  unfold startPayload
  split
  · exact plain_deepcopy _ _
  · exact Py.plain_ok _

/-- A builder starts from the default payload, or from nothing. -/
theorem of_startPayload {depth : ℕ} {copied : Bool} {start : Json}
    (h : startPayload depth copied device = .ok start) :
    start = if copied then defaultPayload device else .obj [] := by
  unfold startPayload at h
  split at h
  · rename_i hcopied
    rw [if_pos hcopied]
    exact of_deepcopy h
  · rename_i hcopied
    rw [if_neg hcopied]
    exact (Except.ok.inj h).symm

theorem plain_fieldEntry (key : PyStr) (v : Json) : (fieldEntry key v).Plain := by
  unfold fieldEntry
  split
  · exact (plain_field v).bind fun _ => Py.plain_ok _
  · exact Py.plain_ok _

theorem safe_fieldEntry (key : PyStr) (v : Json) :
    (fieldEntry key v).Safe ↔ fieldFits v = true := by
  unfold fieldEntry fieldFits
  cases h : v.truthy with
  | true => simp [Py.safe_bind, safe_field]
  | false => simp

theorem plain_setAps (aps : Json) (key : PyStr) (value : Json) : (setAps aps key value).Plain := by
  cases aps <;> simp [setAps]

theorem safe_setAps (aps : Json) (key : PyStr) (value : Json) :
    (setAps aps key value).Safe ↔ aps.isObj = true := by
  cases aps <;> simp [setAps, Json.isObj]

theorem isObj_setAps {aps aps' : Json} {key : PyStr} {value : Json}
    (h : setAps aps key value = .ok aps') : aps'.isObj = true := by
  cases aps with
  | obj d =>
      obtain rfl := Except.ok.inj h
      rfl
  | _ => cases h

theorem plain_setBadge (aps : Json) (badge : Option PyInt) : (setBadge aps badge).Plain := by
  cases badge with
  | none => exact Py.plain_ok aps
  | some badge => exact plain_setAps _ _ _

theorem safe_setBadge (aps : Json) (badge : Option PyInt) :
    (setBadge aps badge).Safe ↔ (badge.isSome = true → aps.isObj = true) := by
  cases badge with
  | none => simp [setBadge]
  | some badge => simp [setBadge, safe_setAps]

/-- The fields of a story are cut. -/
theorem safe_storyFields (n : Notification) (f : Dict → Dict → Dict) :
    (fieldEntry "sender" n.sender >>= fun sent =>
        fieldEntry "sender_display_name" n.senderDisplayName >>= fun name =>
          (.ok (f sent name) : Py SygnalExn Dict)).Safe ↔
      fieldFits n.sender = true ∧ fieldFits n.senderDisplayName = true := by
  rw [(plain_fieldEntry "sender" n.sender).safe_bind_iff, safe_fieldEntry]
  intro sent _
  rw [Py.safe_bind, safe_fieldEntry]
  exact and_iff_left fun _ _ => Py.safe_ok _

/-- **`_get_payload_story` returns exactly when what it reads fits.** -/
theorem safe_getPayloadStory (L : Limits) (n : Notification) (device : Device) (sender : Json)
    (sendBadgeCounts : Bool) :
    (getPayloadStory L n device sender sendBadgeCounts).Safe ↔ StoryFits L n device := by
  have hbase : (if hasData device then defaultPayload device else .obj []) =
      defaultPayload device := by
    split
    · rfl
    · rename_i hdata
      exact (defaultPayload_of_not_hasData (by simpa using hdata)).symm
  unfold getPayloadStory StoryFits
  rw [(plain_startPayload _ _ _).safe_bind_iff, safe_startPayload]
  intro start hstart
  rw [of_startPayload hstart, hbase]
  cases defaultPayload device with
  | obj base =>
      simp only [asPayload, Py.ok_bind, payloadFits]
      rw [(plain_setAps _ _ _).safe_bind_iff, safe_setAps]
      intro aps haps
      have hobj := isObj_setAps haps
      rw [(plain_setBadge aps _).safe_bind_iff fun aps' _ => safe_storyFields n _, safe_setBadge]
      simp [hobj]
  | _ => simp [asPayload, payloadFits]

/-- The loc-key and the badge are written exactly where there are dictionaries for them. -/
theorem safe_setLoc_setBadge (base : Dict) {loc : Option Loc} {badge : Option PyInt}
    (hsome : loc.isSome = true ∨ badge.isSome = true) {P : Prop} {f : Json → Py SygnalExn Dict}
    (hf : ∀ aps, (f aps).Safe ↔ P) :
    (setLoc (apsOf base) loc >>= fun aps => setBadge aps badge >>= f).Safe ↔
      (apsOf base).isObj = true ∧ (loc.isSome = true → alertFits (.obj base) = true) ∧ P := by
  have hbadge : ∀ aps, (setBadge aps badge >>= f).Safe ↔
      (badge.isSome = true → aps.isObj = true) ∧ P := by
    intro aps
    rw [(plain_setBadge aps badge).safe_bind_iff fun aps' _ => hf aps', safe_setBadge]
  cases loc with
  | none =>
      have hb : badge.isSome = true := by simpa using hsome
      simp [setLoc, hbadge, hb]
  | some loc =>
      simp only [Option.isSome_some, true_implies, alertFits]
      cases apsOf base with
      | obj aps =>
          simp only [setLoc]
          split
          · rename_i alert halert
            simp [hbadge, halert, Json.isObj]
          · rename_i hno
            have hnot : ((Dict.get? aps "alert").getD (.obj [])).isObj = false := by
              cases h : (Dict.get? aps (py "alert")).getD (.obj []) with
              | obj alert => exact absurd h (hno alert)
              | _ => rfl
            simp [hnot]
      | _ => simp [setLoc, Json.isObj]

theorem safe_contentEntry (content : Json) :
    (contentEntry content).Safe ↔ (content.truthy = true → content.isObj = true) := by
  unfold contentEntry
  cases content.truthy with
  | true => cases content <;> simp [Json.isObj]
  | false => simp

/-- The fields of an alert are cut. -/
theorem safe_alertFields (n : Notification) (f : Dict → Dict → Dict → Dict → Dict) :
    (fieldEntry "sender" n.sender >>= fun sent =>
        fieldEntry "sender_display_name" n.senderDisplayName >>= fun name =>
          fieldEntry "room_name" n.roomName >>= fun room =>
            contentEntry n.content >>= fun content =>
              (.ok (f sent name room content) : Py SygnalExn Dict)).Safe ↔
      fieldFits n.sender = true ∧ fieldFits n.senderDisplayName = true ∧
        fieldFits n.roomName = true ∧ (n.content.truthy = true → n.content.isObj = true) := by
  rw [(plain_fieldEntry "sender" n.sender).safe_bind_iff, safe_fieldEntry]
  intro sent _
  rw [(plain_fieldEntry "sender_display_name" n.senderDisplayName).safe_bind_iff, safe_fieldEntry]
  intro name _
  rw [(plain_fieldEntry "room_name" n.roomName).safe_bind_iff, safe_fieldEntry]
  intro room _
  rw [Py.safe_bind, safe_contentEntry]
  exact and_iff_left fun _ _ => Py.safe_ok _

/-- The payload with an alert or a badge. -/
theorem safe_getPayloadAlert (L : Limits) (n : Notification) (device : Device)
    {loc : Option Loc} {badge : Option PyInt} (hloc : loc.isSome = announces n)
    (hsome : loc.isSome = true ∨ badge.isSome = true) :
    (getPayloadAlert L n device loc badge).Safe ↔ AlertFits L n device := by
  have hbase : (if n.type.truthy && hasData device then defaultPayload device else .obj []) =
      alertBase n device := by
    unfold alertBase
    cases hdata : hasData device with
    | true => simp
    | false => simp [defaultPayload_of_not_hasData hdata]
  unfold getPayloadAlert AlertFits
  rw [(plain_startPayload _ _ _).safe_bind_iff, safe_startPayload]
  intro start hstart
  rw [of_startPayload hstart, hbase, ← hloc]
  cases alertBase n device with
  | obj base =>
      simp only [asPayload, Py.ok_bind, payloadFits]
      exact safe_setLoc_setBadge base hsome fun aps => safe_alertFields n _
  | _ => simp [asPayload, payloadFits]

/-- **`_get_payload_full` returns exactly when what it reads fits.** -/
theorem safe_getPayloadFull (L : Limits) (n : Notification) (device : Device)
    (sendBadgeCounts : Bool) :
    (getPayloadFull L n device sendBadgeCounts).Safe ↔ FullFits L n device sendBadgeCounts := by
  unfold getPayloadFull FullFits
  rw [(plain_field (fromDisplay n)).safe_bind_iff, safe_field]
  intro sender _
  cases hstory : isStory n.content with
  | true =>
      simp only [if_true, Py.safe_bind, safe_getPayloadStory]
      exact and_iff_left fun _ _ => Py.safe_ok _
  | false =>
      simp only [Bool.false_eq_true, if_false]
      rw [(plain_locOf n sender).safe_bind_iff, safe_locOf]
      intro loc hloc
      have hsome := isSome_locOf hloc
      by_cases hnothing : loc.isNone ∧ badgeOf n sendBadgeCounts = none
      · have hannounces : announces n = false := by
          rw [← hsome]
          simpa using hnothing.1
        simp [hnothing, hannounces]
      · have hsomething : loc.isSome = true ∨ (badgeOf n sendBadgeCounts).isSome = true := by
          cases loc with
          | some _ => exact .inl rfl
          | none => exact .inr (Option.isSome_iff_ne_none.2 (by simpa using hnothing))
        rw [hsome] at hsomething
        simp only [hnothing, if_false, hsomething, true_implies, Py.safe_bind]
        rw [safe_getPayloadAlert L n device hsome (by rwa [hsome])]
        exact and_iff_left fun _ _ => Py.safe_ok _

end Apns

/-! ### All builders -/

/-- **When the builders return.**  Whatever the limits of the interpreter are, each payload
builder returns, or gives up with `BodyTooLongException`, exactly when the values it reads fit it
and are within the limits; any other exception is raised otherwise.  `_get_payload_clearing` and
`_get_payload_event_id_only` read nothing that could fail. -/
theorem builders_return_iff (L : Limits) (n : Notification) (device : Device) (sender : Json)
    (sendBadgeCounts : Bool) (apiVersion : APIVersion) (payload : Dict) (maxLength : ℕ) :
    ((getPayloadFull L n device sendBadgeCounts).Safe ↔ FullFits L n device sendBadgeCounts) ∧
    ((getPayloadStory L n device sender sendBadgeCounts).Safe ↔ StoryFits L n device) ∧
    ((truncate L payload maxLength).Safe ↔ TruncFits L payload maxLength) ∧
    ((buildData n device apiVersion sendBadgeCounts).Safe ↔ DataFits n device apiVersion) ∧
    ((buildAndroidNotification n).Safe ↔ AndroidFits n) :=
  ⟨safe_getPayloadFull L n device sendBadgeCounts,
    safe_getPayloadStory L n device sender sendBadgeCounts, safe_truncate L payload maxLength,
    safe_buildData n device apiVersion sendBadgeCounts, safe_buildAndroidNotification n⟩

/-- A notification that is accepted makes a builder raise for one of its devices. -/
def Raises {α : Type} (notif : Dict) (build : Notification → Device → Py SygnalExn α) : Prop :=
  ∃ n, Notification.ofJson notif = .ok n ∧ ∃ d ∈ n.devices, ¬(build n d).Safe

instance {α : Type} (notif : Dict) (build : Notification → Device → Py SygnalExn α) :
    Decidable (Raises notif build) :=
  match h : Notification.ofJson notif with
  | .ok n =>
      decidable_of_iff (∃ d ∈ n.devices, ¬(build n d).Safe)
        ⟨fun hd => ⟨n, h, hd⟩, fun ⟨m, hm, hd⟩ => by
          obtain rfl := Except.ok.inj (h.symm.trans hm)
          exact hd⟩
  | .error _ => .isFalse fun ⟨m, hm, _⟩ => by
      rw [h] at hm
      cases hm

/-- The push of an event of `@ann:h`. -/
def pushOf (type : PyStr) (content : Dict) : Dict :=
  [("event_id", .str "$e"), ("room_id", .str "!r"), ("type", .str type), ("sender", .str "@ann:h"),
    ("content", .obj content),
    ("devices", .arr [.obj [("app_id", .str "liza"), ("pushkey", .str "k")]])]

/-- A text with a lone surrogate. -/
def loneSurrogate : PyStr := [0xD800]

/-- Limits like those of CPython, whose stack has a thousand frames, two for each level of a
copy. -/
def usualLimits : Limits := ⟨480, 480, 900, 4300⟩

/-- **Contents that raise:** a call whose offer is a number, a body that is a number, a
msgtype that is a list, and a lone surrogate, in the alert as in the data. -/
theorem contents_raise :
    Raises (pushOf "m.call.invite" [("offer", .int 5)])
        (fun n d => getPayloadFull usualLimits n d true) ∧
      Raises (pushOf "m.room.encrypted" [("msgtype", .str "m.text"), ("body", .int 5)])
        (fun n d => getPayloadFull usualLimits n d true) ∧
      Raises (pushOf "m.reaction" [("msgtype", .arr [])])
        (fun n _ => buildAndroidNotification n) ∧
      Raises (pushOf "m.room.message" [("msgtype", .str "m.text"), ("body", .str loneSurrogate)])
        (fun n d => buildData n d .v1 true) ∧
      Raises (pushOf "m.room.message" [("msgtype", .str "m.text"), ("body", .str loneSurrogate)])
        (fun n d => getPayloadFull usualLimits n d true >>= fun payload =>
          truncate usualLimits (payload.getD []) maxJsonBodySize) := by
  decide +kernel

end Sygnal
end Liza
