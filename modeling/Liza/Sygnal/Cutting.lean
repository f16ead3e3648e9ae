/-
# When cutting a payload works

The exact condition for `truncate` to return or to give up with `BodyTooLongException`
(`safe_truncate`): the payload has no lone surrogate and is within the limits of `json.dumps`,
`aps` can be looked through for texts, and, where the payload is too long, its texts are strings.
Rounds of the loop keep all of this (`writes_chop`, `cuttable_chop`).
-/

import Liza.Sygnal.Truncate

set_option autoImplicit false

namespace Liza
namespace Sygnal

open Lib

/-! ### When truncating works -/

/-- `aps` can be looked through for texts: `in` can be asked of it, an `alert` it has is
found, and the arguments can be counted and read. -/
def ApsFits : Json → Prop
  | .obj aps =>
      match Dict.get? aps "alert" with
      | some (.obj alert) =>
          match Dict.get? alert "loc-args" with
          | none => True
          | some (.arr _) => True
          | some (.str _) => True
          | some (.obj args) => args = []
          | some _ => False
      | _ => True
  | .arr aps => .str "alert" ∉ aps
  | .str aps => ¬py "alert" <:+: aps
  | _ => False

/-- The payload can be encoded: no string has a lone surrogate, and `json.dumps` gets through. -/
structure Writes (L : Limits) (payload : Dict) : Prop where
  text : (Json.obj payload).encodable = true
  within : (Json.obj payload).within L.digits L.dumpDepth = true

/-- A payload that can be encoded and is too long. -/
def TooLong (maxLength : ℕ) (payload : Dict) : Prop := maxLength < (Json.obj payload).length

/-- `aps` with another body in its alert. -/
def withBody (aps alert : Dict) (body : PyStr) : Json :=
  .obj (aps.set "alert" (.obj (alert.set "body" (.str body))))

/-- The payload fits with `k` characters cut off the body, and until then the body was no
shorter than any character of the arguments. -/
def CutDoes (maxLength : ℕ) (payload aps alert : Dict) (args body : PyStr) (k : ℕ) : Prop :=
  ¬TooLong maxLength (payload.set "aps" (withBody aps alert (body.take (body.length - k)))) ∧
    ∀ j < k, ∀ c ∈ args, utf8Size c ≤ utf8Length (body.take (body.length - j))

/-- The arguments are a string, which cannot be cut: the body alone must do. -/
def BodyDoes (maxLength : ℕ) (payload aps alert : Dict) (args : PyStr) : Prop :=
  ∃ body, alert.get? "body" = some (.str body) ∧
    ∃ k, CutDoes maxLength payload aps alert args body k

/-- The texts of a payload that is too long can be cut. -/
def TextsFit (maxLength : ℕ) (payload : Dict) : Json → Prop
  | .obj aps =>
      match Dict.get? aps "alert" with
      | some (.obj alert) =>
          (∀ body, Dict.get? alert "body" = some body → body.isStr = true) ∧
          match Dict.get? alert "loc-args" with
          | some (.arr args) => ∀ v ∈ args, v.isStr = true
          | some (.str args) => args = [] ∨ BodyDoes maxLength payload aps alert args
          | _ => True
      | _ => True
  | _ => True

/-- The payload can be truncated. -/
def TruncFits (L : Limits) (payload : Dict) (maxLength : ℕ) : Prop :=
  Writes L payload ∧
    ∀ aps, payload.get? "aps" = some aps →
      ApsFits aps ∧ (TooLong maxLength payload → TextsFit maxLength payload aps)

section Scan

variable {d a : Dict} {v : Json}

/-- A choppable is read or the read fails. -/
theorem plain_choppableGet (aps : Json) (c : Choppable) : (choppableGet aps c).Plain := by
  cases c with
  | alert => exact Json.plain_item _ _
  | alertBody => exact (Json.plain_item _ _).bind fun alert => Json.plain_item _ _
  | alertLocArg i =>
      exact (Json.plain_item _ _).bind fun alert =>
        (Json.plain_item _ _).bind fun args => Json.plain_index _ _

theorem plain_choppablesForAlert (alert : Json) : (choppablesForAlert alert).Plain := by
  cases alert with
  | obj a =>
      refine Py.Plain.bind ?_ fun n => Py.plain_ok _
      unfold locArgsLen
      split
      · exact Py.plain_ok 0
      · exact Json.plain_len _
  | _ => exact Py.plain_ok _

theorem plain_choppablesForAps (aps : Json) : (choppablesForAps aps).Plain := by
  refine (Json.plain_has _ aps).bind fun present => ?_
  cases present with
  | true => exact (Json.plain_item _ aps).bind fun alert => plain_choppablesForAlert alert
  | false => exact Py.plain_ok []

theorem plain_readAll (aps : Json) (cs : List Choppable) : (readAll aps cs).Plain := by
  induction cs with
  | nil => exact Py.plain_ok ()
  | cons c cs ih => exact (plain_choppableGet aps c).bind fun _ => ih

/-- The first loop goes through when every choppable can be read. -/
theorem safe_readAll (aps : Json) (cs : List Choppable) :
    (readAll aps cs).Safe ↔ ∀ c ∈ cs, (choppableGet aps c).Safe := by
  induction cs with
  | nil => simp [readAll]
  | cons c cs ih =>
      rw [readAll, Py.safe_bind, ih, List.forall_mem_cons]
      constructor
      · rintro ⟨hc, hrest⟩
        obtain ⟨v, hv⟩ := (plain_choppableGet aps c).exists_ok hc
        exact ⟨hc, hrest v hv⟩
      · rintro ⟨hc, hrest⟩
        exact ⟨hc, fun _ _ => hrest⟩

/-- A dictionary with an alert. -/
theorem choppablesForAps_obj (h : Dict.get? d "alert" = some v) :
    choppablesForAps (.obj d) = choppablesForAlert v := by
  have hhas : Dict.contains d "alert" = true := by simp [Dict.contains, h]
  simp only [choppablesForAps, Json.has, Py.ok_bind, hhas, if_true, Json.item_of_get? h]

/-- A dictionary without an alert. -/
theorem choppablesForAps_none (h : Dict.get? d "alert" = none) :
    choppablesForAps (.obj d) = .ok [] := by
  have hhas : Dict.contains d "alert" = false := by simp [Dict.contains, h]
  simp [choppablesForAps, Json.has, hhas]

theorem choppableGet_alertBody (hd : Dict.get? d "alert" = some (.obj a)) :
    choppableGet (.obj d) .alertBody = Json.item "body" (.obj a) := by
  simp only [choppableGet, Json.item_of_get? hd, Py.ok_bind]

theorem choppableGet_alertLocArg (hd : Dict.get? d "alert" = some (.obj a))
    (ha : Dict.get? a "loc-args" = some v) (i : ℕ) :
    choppableGet (.obj d) (.alertLocArg i) = v.index i := by
  simp only [choppableGet, Json.item_of_get? hd, Json.item_of_get? ha, Py.ok_bind]

theorem choppablesForAps_alert (hd : Dict.get? d "alert" = some (.obj a)) {n : ℕ}
    (hn : locArgsLen a = .ok n) : choppablesForAps (.obj d) = .ok (alertChoppables a n) := by
  rw [choppablesForAps_obj hd]
  simp only [choppablesForAlert, hn, Py.ok_bind]

theorem forall_alertChoppables (n : ℕ) (P : Choppable → Prop) :
    (∀ c ∈ alertChoppables a n, P c) ↔
      (Dict.contains a "body" = true → P .alertBody) ∧ ∀ i < n, P (.alertLocArg i) := by
  unfold alertChoppables
  by_cases hb : Dict.contains a (py "body") = true
  · simp [hb]
  · simp [hb]

/-- The body of an alert can be read where it is counted. -/
theorem safe_get_alertBody (hd : Dict.get? d "alert" = some (.obj a))
    (hb : Dict.contains a "body" = true) : (choppableGet (.obj d) .alertBody).Safe := by
  obtain ⟨v, hv⟩ := Option.isSome_iff_exists.1 hb
  rw [choppableGet_alertBody hd, Json.item_of_get? hv]
  exact Py.safe_ok v

/-- The scan of an alert that is a dictionary whose arguments can be counted. -/
theorem readAll_alert (hd : Dict.get? d "alert" = some (.obj a)) (n : ℕ) :
    (readAll (.obj d) (alertChoppables a n)).Safe ↔
      ∀ i < n, (choppableGet (.obj d) (.alertLocArg i)).Safe := by
  rw [safe_readAll, forall_alertChoppables]
  exact ⟨fun h => h.2, fun h => ⟨fun hb => safe_get_alertBody hd hb, h⟩⟩

/-- **The scan for texts goes through exactly when `aps` fits.** -/
theorem scan_fits (aps : Json) :
    ((choppablesForAps aps).Safe ∧
        ∀ cs, choppablesForAps aps = .ok cs → (readAll aps cs).Safe) ↔ ApsFits aps := by
  -- A scan with known choppables: only the reads are left.
  have hknown : ∀ {cs : List Choppable}, choppablesForAps aps = .ok cs →
      (((choppablesForAps aps).Safe ∧
        ∀ cs, choppablesForAps aps = .ok cs → (readAll aps cs).Safe) ↔ (readAll aps cs).Safe) := by
    intro cs hcs
    rw [hcs]
    constructor
    · intro h
      exact h.2 cs rfl
    · intro h
      refine ⟨Py.safe_ok cs, ?_⟩
      intro cs' heq
      rwa [← Except.ok.inj heq]
  cases aps with
  | obj d =>
      cases hd : Dict.get? d (py "alert") with
      | none =>
          rw [hknown (choppablesForAps_none hd)]
          simp [readAll, ApsFits, hd]
      | some v =>
          have hcs := choppablesForAps_obj hd
          cases v with
          | obj a =>
              cases ha : Dict.get? a (py "loc-args") with
              | none =>
                  have hn : locArgsLen a = .ok 0 := by simp [locArgsLen, ha]
                  rw [hknown (choppablesForAps_alert hd hn), readAll_alert hd]
                  simp [ApsFits, hd, ha]
              | some args =>
                  have hlen : locArgsLen a = args.len := by simp [locArgsLen, ha]
                  have hget := choppableGet_alertLocArg hd ha
                  cases args with
                  | arr l =>
                      rw [hknown (choppablesForAps_alert hd hlen), readAll_alert hd]
                      simp only [ApsFits, hd, ha, iff_true]
                      intro i hi
                      rw [hget, Json.index, List.getElem?_eq_getElem hi]
                      exact Py.safe_ok _
                  | str s =>
                      rw [hknown (choppablesForAps_alert hd hlen), readAll_alert hd]
                      simp only [ApsFits, hd, ha, iff_true]
                      intro i hi
                      rw [hget, Json.index, List.getElem?_eq_getElem hi]
                      exact Py.safe_ok _
                  | obj e =>
                      rw [hknown (choppablesForAps_alert hd hlen), readAll_alert hd]
                      simp only [ApsFits, hd, ha, hget, Json.index, Py.not_safe_keyError]
                      constructor
                      · intro h
                        by_contra hne
                        exact h 0 (List.length_pos_iff.2 hne)
                      · intro h i hi
                        rw [h] at hi
                        exact absurd hi (Nat.not_lt_zero i)
                  | _ =>
                      simp [ApsFits, hd, ha, hcs, choppablesForAlert, hlen, Json.len]
          | str s =>
              rw [hknown hcs]
              simp [readAll, choppableGet, Json.item_of_get? hd, ApsFits, hd]
          | _ =>
              rw [hknown hcs]
              simp [readAll, ApsFits, hd]
  | arr l =>
      by_cases hmem : Json.str (py "alert") ∈ l
      · simp [choppablesForAps, Json.has, Json.item, ApsFits, hmem]
      · simp [choppablesForAps, Json.has, ApsFits, hmem, readAll]
  | str s =>
      by_cases hmem : py "alert" <:+: s
      · simp [choppablesForAps, Json.has, Json.item, ApsFits, hmem]
      · simp [choppablesForAps, Json.has, ApsFits, hmem, readAll]
  | _ => simp [choppablesForAps, Json.has, ApsFits]

end Scan

section Loop

variable {L : Limits} {maxLength : ℕ} {payload : Dict} {aps aps' : Json}

/-- A payload is measured exactly where it can be encoded. -/
theorem safe_isTooLong : (isTooLong L payload maxLength).Safe ↔ Writes L payload := by
  unfold isTooLong
  split
  · rename_i hwithin
    split
    · rename_i htext
      exact ⟨fun _ => ⟨htext, hwithin⟩, fun _ => Py.safe_ok _⟩
    · rename_i htext
      exact ⟨fun h => h.elim, fun h => absurd h.text htext⟩
  · rename_i hwithin
    exact ⟨fun h => h.elim, fun h => absurd h.within hwithin⟩

theorem isTooLong_of_writes (h : Writes L payload) :
    isTooLong L payload maxLength = .ok (maxLength < (Json.obj payload).length) := by
  rw [isTooLong, if_pos h.within, if_pos h.text]

/-- A payload that cannot be encoded cannot be measured. -/
theorem not_safe_loop (h : ¬Writes L (payload.set "aps" aps)) :
    ¬(truncateLoop L maxLength payload aps).Safe := by
  have hnot : ¬(isTooLong L (payload.set "aps" aps) maxLength).Safe :=
    fun hsafe => h (safe_isTooLong.1 hsafe)
  rw [truncateLoop]
  cases hlong : isTooLong L (payload.set (py "aps") aps) maxLength with
  | ok long =>
      rw [hlong] at hnot
      exact absurd (Py.safe_ok long) hnot
  | error e =>
      rw [hlong] at hnot
      cases e with
      | user e => exact absurd (Py.safe_user e) hnot
      | _ => exact id

/-- A payload that fits is returned. -/
theorem safe_loop_of_fits (h : Writes L (payload.set "aps" aps))
    (hfits : ¬TooLong maxLength (payload.set "aps" aps)) :
    (truncateLoop L maxLength payload aps).Safe := by
  have hlen : isTooLong L (payload.set "aps" aps) maxLength = .ok false := by
    unfold TooLong at hfits
    simpa [isTooLong_of_writes h] using hfits
  rw [truncateLoop, hlen]
  exact Py.safe_ok _

/-- A payload that is too long goes through one more round. -/
theorem safe_loop_round (h : Writes L (payload.set "aps" aps))
    (hlong : TooLong maxLength (payload.set "aps" aps)) :
    (truncateLoop L maxLength payload aps).Safe ↔
      (chop aps).Safe ∧
        ∀ aps', chop aps = .ok (some aps') → (truncateLoop L maxLength payload aps').Safe := by
  have hlen : isTooLong L (payload.set "aps" aps) maxLength = .ok true := by
    unfold TooLong at hlong
    simpa [isTooLong_of_writes h] using hlong
  rw [truncateLoop, hlen]
  simp only
  split
  · rename_i e he
    rw [he]
    cases e <;> simp [Py.Safe]
  · rename_i he
    simp [he]
  · rename_i next he
    simp [he]

/-- Where there is no text to cut, the payload is given up or returned. -/
theorem safe_loop_of_none (h : Writes L (payload.set "aps" aps))
    (hnone : choppablesForAps aps = .ok []) : (truncateLoop L maxLength payload aps).Safe := by
  by_cases hlong : TooLong maxLength (payload.set "aps" aps)
  · have hchop : chop aps = .ok none := by
      simp [chop, longestChoppable, hnone, longestFrom]
    rw [safe_loop_round h hlong, hchop]
    simp
  · exact safe_loop_of_fits h hlong

/-- Cutting keeps the payload encodable. -/
theorem encodable_chop (h : chop aps = .ok (some aps')) (haps : aps.encodable = true) :
    aps'.encodable = true := by
  have hkey : ∀ k ∈ [py "alert", py "body", py "loc-args"], Lib.encodable k = true := by decide
  obtain ⟨d, rfl, hcase⟩ := chop_cases h
  have hdrop : ∀ {s : PyStr}, Json.encodable (.str s) = true →
      Json.encodable (.str s.dropLast) = true := by
    intro s hs
    exact encodable_of_subset (List.dropLast_subset s) hs
  rcases hcase with ⟨s, hd, -, rfl⟩ | ⟨a, s, hd, ha, -, rfl⟩ | ⟨a, l, i, s, hd, ha, hi, -, rfl⟩
  · exact Json.encodableDict_set haps (hkey _ (by simp)) (hdrop (Json.encodable_of_get? haps hd))
  · have halert : Json.encodableDict a = true := Json.encodable_of_get? haps hd
    refine Json.encodableDict_set haps (hkey _ (by simp)) ?_
    exact Json.encodableDict_set halert (hkey _ (by simp)) (hdrop (Json.encodable_of_get? halert ha))
  · have halert : Json.encodableDict a = true := Json.encodable_of_get? haps hd
    have hargs : Json.encodableList l = true := Json.encodable_of_get? halert ha
    rw [Json.encodableList_iff] at hargs
    refine Json.encodableDict_set haps (hkey _ (by simp)) ?_
    refine Json.encodableDict_set halert (hkey _ (by simp)) ?_
    refine (Json.encodableList_iff _).2 ?_
    intro v hv
    rcases List.mem_or_eq_of_mem_set hv with hold | rfl
    · exact hargs v hold
    · exact hdrop (hargs _ (List.mem_of_getElem? hi))

/-- Cutting keeps `aps` within the limits. -/
theorem within_chop {digits n : ℕ} (h : chop aps = .ok (some aps'))
    (haps : aps.within digits n = true) : aps'.within digits n = true := by
  obtain ⟨d, rfl, hcase⟩ := chop_cases h
  obtain ⟨m, rfl, hd'⟩ := Json.within_obj_iff.1 haps
  rcases hcase with ⟨s, hd, -, rfl⟩ | ⟨a, s, hd, -, -, rfl⟩ | ⟨a, l, i, s, hd, ha, -, -, rfl⟩
  · exact Json.within_obj_iff.2 ⟨m, rfl, Json.withinDict_set hd' (Json.within_str _ _ _)⟩
  · obtain ⟨k, rfl, halert⟩ := Json.within_obj_iff.1 (Json.within_of_get? hd' hd)
    refine Json.within_obj_iff.2 ⟨_, rfl, Json.withinDict_set hd' ?_⟩
    exact Json.within_obj_iff.2 ⟨k, rfl, Json.withinDict_set halert (Json.within_str _ _ _)⟩
  · obtain ⟨k, rfl, halert⟩ := Json.within_obj_iff.1 (Json.within_of_get? hd' hd)
    obtain ⟨j, rfl, hargs⟩ := Json.within_arr_iff.1 (Json.within_of_get? halert ha)
    refine Json.within_obj_iff.2 ⟨_, rfl, Json.withinDict_set hd' ?_⟩
    refine Json.within_obj_iff.2 ⟨_, rfl, Json.withinDict_set halert ?_⟩
    refine Json.within_arr_iff.2 ⟨j, rfl, fun v hv => ?_⟩
    rcases List.mem_or_eq_of_mem_set hv with hold | rfl
    · exact hargs v hold
    · exact Json.within_str _ _ _

/-- Cutting keeps a payload that can be encoded. -/
theorem writes_chop (h : Writes L (payload.set "aps" aps)) (hchop : chop aps = .ok (some aps')) :
    Writes L (payload.set "aps" aps') := by
  have haps : Dict.get? (payload.set "aps" aps) "aps" = some aps := Dict.get?_set_self _ _ _
  refine ⟨?_, ?_⟩
  · have hset := Json.encodableDict_set h.text (k := "aps") (by decide)
      (encodable_chop hchop (Json.encodable_of_get? h.text haps))
    rwa [Dict.set_set] at hset
  · obtain ⟨m, hm, hdict⟩ := Json.within_obj_iff.1 h.within
    have hset := Json.withinDict_set (k := "aps") hdict
      (within_chop hchop (Json.within_of_get? hdict haps))
    rw [Dict.set_set] at hset
    exact Json.within_obj_iff.2 ⟨m, hm, hset⟩

/-- An alert whose texts are strings, each of which can be replaced. -/
def Cuttable : Json → Prop
  | .obj alert =>
      (∀ body, Dict.get? alert "body" = some body → body.isStr = true) ∧
        (locArgsLen alert = .ok 0 ∨
          ∃ l, Dict.get? alert "loc-args" = some (.arr l) ∧ ∀ v ∈ l, v.isStr = true)
  | _ => True

/-- `aps` is a dictionary whose alert can be cut. -/
def CuttableAps (aps : Json) : Prop :=
  ∃ d alert, aps = .obj d ∧ Dict.get? d "alert" = some alert ∧ Cuttable alert

/-- A round leaves the alert one that can be cut. -/
theorem cuttable_chop (h : chop aps = .ok (some aps')) (haps : CuttableAps aps) :
    CuttableAps aps' := by
  obtain ⟨d', alert, rfl, halert, hcut⟩ := haps
  obtain ⟨d, hobj, hcase⟩ := chop_cases h
  obtain rfl := Json.obj.inj hobj
  have hne : py "body" ≠ py "loc-args" := by decide
  rcases hcase with ⟨s, hd, -, rfl⟩ | ⟨a, s, hd, ha, -, rfl⟩ | ⟨a, l, i, s, hd, ha, hi, -, rfl⟩
  · exact ⟨_, _, rfl, Dict.get?_set_self _ _ _, trivial⟩
  · refine ⟨_, _, rfl, Dict.get?_set_self _ _ _, ?_⟩
    obtain rfl := Option.some.inj (hd.symm.trans halert)
    refine ⟨?_, ?_⟩
    · intro body hbody
      rw [Dict.get?_set_self] at hbody
      rw [← Option.some.inj hbody]
      rfl
    · simpa [locArgsLen, Dict.get?_set_of_ne _ _ hne.symm] using hcut.2
  · refine ⟨_, _, rfl, Dict.get?_set_self _ _ _, ?_⟩
    obtain rfl := Option.some.inj (hd.symm.trans halert)
    refine ⟨?_, .inr ⟨_, Dict.get?_set_self _ _ _, ?_⟩⟩
    · intro body hbody
      rw [Dict.get?_set_of_ne _ _ hne] at hbody
      exact hcut.1 body hbody
    · intro v hv
      rcases List.mem_or_eq_of_mem_set hv with hold | rfl
      · rcases hcut.2 with hzero | ⟨l', hl', hall⟩
        · have hnil : l = [] := by simpa [locArgsLen, ha, Json.len] using hzero
          rw [hnil] at hold
          cases hold
        · obtain rfl := Json.arr.inj (Option.some.inj (ha.symm.trans hl'))
          exact hall v hold
      · rfl

/-- A round goes through where every choppable is a string that can be replaced. -/
theorem safe_chop_of_texts {cs : List Choppable} (hcs : choppablesForAps aps = .ok cs)
    (htext : ∀ c ∈ cs, ∃ s, TextAt aps c s)
    (hput : ∀ c ∈ cs, ∀ t, (choppablePut aps c (.str t)).Safe) : (chop aps).Safe := by
  unfold chop longestChoppable
  simp only [hcs, Py.ok_bind]
  rcases longestFrom_of_texts none 0 htext with ⟨hr, -⟩ | ⟨c, hc, s, ht, -, hr⟩
  · simp [hr]
  · simp only [hr, Py.ok_bind, ht.1, Json.dropLast]
    exact Py.safe_bind.2 ⟨hput c hc _, fun _ _ => Py.safe_ok _⟩

/-- A search that is safe has found every choppable to be a string. -/
theorem texts_of_safe_longestFrom {longest : Option Choppable} {n : ℕ} {cs : List Choppable}
    (h : (longestFrom aps longest n cs).Safe) : ∀ c ∈ cs, ∃ s, TextAt aps c s := by
  have hplain : (longestFrom aps longest n cs).Plain := by
    clear h
    induction cs generalizing longest n with
    | nil => exact Py.plain_ok _
    | cons c cs ih =>
        refine (plain_choppableGet aps c).bind fun val => (Json.plain_encode val).bind fun len => ?_
        split
        · exact ih
        · exact ih
  obtain ⟨r, hr⟩ := hplain.exists_ok h
  exact longestFrom_texts hr

/-- A round that is safe has found every choppable to be a string. -/
theorem texts_of_safe_chop {cs : List Choppable} (hcs : choppablesForAps aps = .ok cs)
    (h : (chop aps).Safe) : ∀ c ∈ cs, ∃ s, TextAt aps c s := by
  have hlong : (longestChoppable aps).Safe := (Py.safe_bind.1 h).1
  unfold longestChoppable at hlong
  rw [hcs] at hlong
  exact texts_of_safe_longestFrom hlong

/-- The body of an alert as a text. -/
theorem textAt_alertBody {d a : Dict} (hd : Dict.get? d "alert" = some (.obj a)) (s : PyStr) :
    TextAt (.obj d) .alertBody s ↔ Dict.get? a "body" = some (.str s) ∧ encodable s = true := by
  unfold TextAt
  rw [choppableGet_alertBody hd]
  constructor
  · rintro ⟨hget, hs⟩
    obtain ⟨a', hobj, hbody⟩ := Json.item_eq_ok hget
    obtain rfl := Json.obj.inj hobj
    exact ⟨hbody, hs⟩
  · rintro ⟨hget, hs⟩
    exact ⟨Json.item_of_get? hget, hs⟩

/-- A round goes through for an alert that can be cut. -/
theorem safe_chop_of_cuttable (haps : CuttableAps aps) (henc : aps.encodable = true) :
    (chop aps).Safe := by
  obtain ⟨d, alert, rfl, hd, hcut⟩ := haps
  have halert : alert.encodable = true := Json.encodable_of_get? henc hd
  cases alert with
  | str s =>
      refine safe_chop_of_texts (choppablesForAps_obj hd) ?_ ?_
      · intro c hc
        obtain rfl := List.mem_singleton.1 hc
        exact ⟨s, Json.item_of_get? hd, halert⟩
      · intro c hc t
        obtain rfl := List.mem_singleton.1 hc
        exact Py.safe_ok _
  | obj a =>
      have hbody : ∀ {n}, (∀ i < n, ∃ s, TextAt (.obj d) (.alertLocArg i) s) →
          ∀ c ∈ alertChoppables a n, ∃ s, TextAt (.obj d) c s := by
        intro n hargs
        refine (forall_alertChoppables n _).2 ⟨fun hb => ?_, hargs⟩
        obtain ⟨v, hv⟩ := Option.isSome_iff_exists.1 hb
        have hstr := hcut.1 v hv
        cases v with
        | str s => exact ⟨s, (textAt_alertBody hd s).2 ⟨hv, Json.encodable_of_get? halert hv⟩⟩
        | _ => cases hstr
      have hputBody : ∀ t, (choppablePut (.obj d) .alertBody (.str t)).Safe := by
        intro t
        simp [choppablePut, Json.item_of_get? hd, Json.setItem]
      rcases hcut.2 with hzero | ⟨l, hl, hall⟩
      · refine safe_chop_of_texts (choppablesForAps_alert hd hzero) (hbody (by simp)) ?_
        exact (forall_alertChoppables 0 _).2 ⟨fun _ => hputBody, by simp⟩
      · have hlen : locArgsLen a = .ok l.length := by simp [locArgsLen, hl, Json.len]
        have hargs : Json.encodableList l = true := Json.encodable_of_get? halert hl
        refine safe_chop_of_texts (choppablesForAps_alert hd hlen) (hbody ?_) ?_
        · intro i hi
          have hmem : l[i] ∈ l := List.getElem_mem hi
          have henc := (Json.encodableList_iff l).1 hargs _ hmem
          have hstr := hall _ hmem
          cases hv : l[i] with
          | str s =>
              rw [hv] at henc
              refine ⟨s, ?_, henc⟩
              rw [choppableGet_alertLocArg hd hl, Json.index, List.getElem?_eq_getElem hi, hv]
          | _ =>
              rw [hv] at hstr
              cases hstr
        · refine (forall_alertChoppables _ _).2 ⟨fun _ => hputBody, ?_⟩
          intro i hi t
          simp [choppablePut, Json.item_of_get? hd, Json.item_of_get? hl, Json.setIndex,
            Json.setItem]
  | _ =>
      refine safe_chop_of_texts (choppablesForAps_obj hd) ?_ ?_
      · intro c hc
        cases hc
      · intro c hc
        cases hc

/-- **The loop goes through for an alert that can be cut**, by induction on the number of
characters. -/
theorem safe_loop_of_cuttable (h : Writes L (payload.set "aps" aps))
    (hcut : CuttableAps aps) : (truncateLoop L maxLength payload aps).Safe := by
  induction hw : weight aps using Nat.strong_induction_on generalizing aps with
  | _ w ih =>
      subst hw
      have henc : aps.encodable = true := Json.encodable_of_get? h.text (Dict.get?_set_self _ _ _)
      by_cases hlong : TooLong maxLength (payload.set "aps" aps)
      · refine (safe_loop_round h hlong).2 ⟨safe_chop_of_cuttable hcut henc, ?_⟩
        intro next hnext
        have hwrites := writes_chop h hnext
        exact ih (weight next) (weight_chop hnext) hwrites (cuttable_chop hnext hcut) rfl
      · exact safe_loop_of_fits h hlong

end Loop

/-! ### Arguments that are a string

`alert["loc-args"][i]` is then a character, which is read and measured like a text but
cannot be written.  The body is cut as long as it is the longest. -/

section StringArgs

variable {L : Limits} {maxLength : ℕ} {payload d a : Dict} {args b : PyStr}

/-- The alert of `withBody`. -/
theorem get?_alert_withBody (d a : Dict) (b : PyStr) :
    Dict.get? (Dict.set d "alert" (.obj (Dict.set a "body" (.str b)))) "alert" =
      some (.obj (Dict.set a "body" (.str b))) :=
  Dict.get?_set_self _ _ _

/-- The arguments of `withBody`. -/
theorem get?_args_withBody (ha : Dict.get? a "loc-args" = some (.str args)) (b : PyStr) :
    Dict.get? (Dict.set a "body" (.str b)) "loc-args" = some (.str args) := by
  rw [Dict.get?_set_of_ne _ _ (by decide)]
  exact ha

/-- The texts of `withBody`: the body, and the characters of the arguments. -/
theorem choppables_withBody (ha : Dict.get? a "loc-args" = some (.str args)) (b : PyStr) :
    choppablesForAps (withBody d a b) =
      .ok (.alertBody :: (List.range args.length).map .alertLocArg) := by
  have hlen : locArgsLen (Dict.set a "body" (.str b)) = .ok args.length := by
    simp [locArgsLen, get?_args_withBody ha, Json.len]
  have hbody : Dict.contains (Dict.set a "body" (.str b)) "body" = true := by
    simp [Dict.contains]
  unfold withBody
  rw [choppablesForAps_alert (get?_alert_withBody d a b) hlen]
  simp [alertChoppables, hbody]

/-- An argument is a character. -/
theorem textAt_arg (hd : Dict.get? d "alert" = some (.obj a))
    (ha : Dict.get? a "loc-args" = some (.str args)) (hargs : encodable args = true) {i : ℕ}
    (hi : i < args.length) (t : PyStr) :
    TextAt (.obj d) (.alertLocArg i) t ↔ t = [args[i]] := by
  have hget : choppableGet (.obj d) (.alertLocArg i) = .ok (.str [args[i]]) := by
    rw [choppableGet_alertLocArg hd ha, Json.index, List.getElem?_eq_getElem hi]
  have henc : encodable [args[i]] = true := by
    refine encodable_of_subset ?_ hargs
    intro c hc
    rw [List.mem_singleton.1 hc]
    exact List.getElem_mem hi
  unfold TextAt
  rw [hget]
  constructor
  · rintro ⟨ht, -⟩
    exact (Json.str.inj (Except.ok.inj ht)).symm
  · rintro rfl
    exact ⟨rfl, henc⟩

/-- A search through the arguments: nothing is longer than what it started with, or it
ends with an argument. -/
theorem longestFrom_args (hd : Dict.get? d "alert" = some (.obj a))
    (ha : Dict.get? a "loc-args" = some (.str args)) (hargs : encodable args = true)
    (longest : Option Choppable) (n : ℕ) :
    longestFrom (.obj d) longest n ((List.range args.length).map .alertLocArg) = .ok longest ∧
        (∀ c ∈ args, utf8Size c ≤ n) ∨
      (∃ c ∈ args, n < utf8Size c) ∧ ∃ i < args.length,
        longestFrom (.obj d) longest n ((List.range args.length).map .alertLocArg) =
          .ok (some (.alertLocArg i)) := by
  have htexts : ∀ c ∈ (List.range args.length).map Choppable.alertLocArg,
      ∃ s, TextAt (.obj d) c s := by
    intro c hc
    obtain ⟨i, hi, rfl⟩ := List.mem_map.1 hc
    exact ⟨_, (textAt_arg hd ha hargs (List.mem_range.1 hi) _).2 rfl⟩
  rcases longestFrom_of_texts longest n htexts with ⟨hr, hall⟩ | ⟨c, hc, s, ht, hlen, hr⟩
  · refine .inl ⟨hr, ?_⟩
    intro c hc
    obtain ⟨i, hi, rfl⟩ := List.mem_iff_getElem.1 hc
    have hmem : Choppable.alertLocArg i ∈ (List.range args.length).map Choppable.alertLocArg :=
      List.mem_map.2 ⟨i, List.mem_range.2 hi, rfl⟩
    have hle := hall _ hmem [args[i]] ((textAt_arg hd ha hargs hi _).2 rfl)
    simpa [utf8Length] using hle
  · obtain ⟨i, hi, rfl⟩ := List.mem_map.1 hc
    have hlt : i < args.length := List.mem_range.1 hi
    rw [(textAt_arg hd ha hargs hlt s).1 ht] at hlen
    refine .inr ⟨⟨args[i], List.getElem_mem hlt, ?_⟩, i, hlt, hr⟩
    simpa [utf8Length] using hlen

/-- An argument cannot be written. -/
theorem not_safe_chop_arg (hd : Dict.get? d "alert" = some (.obj a))
    (ha : Dict.get? a "loc-args" = some (.str args)) {i : ℕ} (hi : i < args.length)
    (hlongest : longestChoppable (.obj d) = .ok (some (.alertLocArg i))) :
    ¬(chop (.obj d)).Safe := by
  have hget : choppableGet (.obj d) (.alertLocArg i) = .ok (.str [args[i]]) := by
    rw [choppableGet_alertLocArg hd ha, Json.index, List.getElem?_eq_getElem hi]
  unfold chop
  simp only [hlongest, Py.ok_bind, hget, Json.dropLast, choppablePut, Json.item_of_get? hd,
    Json.item_of_get? ha, Json.setIndex, Py.throw_bind]
  exact Py.not_safe_typeError

/-- Without a body, an argument is the longest text. -/
theorem not_safe_chop_of_no_body (hd : Dict.get? d "alert" = some (.obj a))
    (ha : Dict.get? a "loc-args" = some (.str args)) (hargs : encodable args = true)
    (hne : args ≠ []) (hbody : Dict.get? a "body" = none) : ¬(chop (.obj d)).Safe := by
  have hlen : locArgsLen a = .ok args.length := by simp [locArgsLen, ha, Json.len]
  have hcontains : Dict.contains a "body" = false := by simp [Dict.contains, hbody]
  have hlongest : longestChoppable (.obj d) =
      longestFrom (.obj d) none 0 ((List.range args.length).map .alertLocArg) := by
    unfold longestChoppable
    rw [choppablesForAps_alert hd hlen]
    simp [alertChoppables, hcontains]
  rcases longestFrom_args hd ha hargs none 0 with ⟨-, hall⟩ | ⟨-, i, hi, hr⟩
  · obtain ⟨c, hc⟩ := List.exists_mem_of_ne_nil args hne
    have hsize := utf8Size_pos c
    have hzero := hall c hc
    omega
  · exact not_safe_chop_arg hd ha hi (hlongest.trans hr)

/-- The search starts with the body. -/
theorem longest_withBody (ha : Dict.get? a "loc-args" = some (.str args))
    (hb : encodable b = true) :
    longestChoppable (withBody d a b) =
      longestFrom (withBody d a b) (if 0 < utf8Length b then some .alertBody else none)
        (utf8Length b) ((List.range args.length).map .alertLocArg) := by
  have hget : choppableGet (withBody d a b) .alertBody = .ok (.str b) := by
    unfold withBody
    rw [choppableGet_alertBody (get?_alert_withBody d a b)]
    exact Json.item_of_get? (Dict.get?_set_self _ _ _)
  unfold longestChoppable
  rw [choppables_withBody ha]
  simp only [Py.ok_bind, longestFrom, hget, Json.encode, encode, hb, if_true]
  split
  · rfl
  · have hzero : utf8Length b = 0 := by omega
    rw [hzero]

/-- No character of the arguments is longer than the body, so the body is cut. -/
theorem chop_withBody (ha : Dict.get? a "loc-args" = some (.str args)) (hne : args ≠ [])
    (hb : encodable b = true) (hargs : encodable args = true)
    (hle : ∀ c ∈ args, utf8Size c ≤ utf8Length b) :
    b ≠ [] ∧ chop (withBody d a b) = .ok (some (withBody d a b.dropLast)) := by
  have hpos : 0 < utf8Length b := by
    obtain ⟨c, hc⟩ := List.exists_mem_of_ne_nil args hne
    have hsize := utf8Size_pos c
    have hcb := hle c hc
    omega
  have hlongest : longestChoppable (withBody d a b) = .ok (some .alertBody) := by
    rw [longest_withBody ha hb, if_pos hpos]
    rcases longestFrom_args (get?_alert_withBody d a b) (get?_args_withBody ha b) hargs
      (some .alertBody) (utf8Length b) with ⟨hr, -⟩ | ⟨⟨c, hc, hlt⟩, -⟩
    · exact hr
    · have hcb := hle c hc
      omega
  have hget : Json.item (E := SygnalExn) "alert" (withBody d a b) =
      .ok (.obj (Dict.set a "body" (.str b))) :=
    Json.item_of_get? (get?_alert_withBody d a b)
  have hbody : Json.item (E := SygnalExn) "body" (.obj (Dict.set a "body" (.str b))) =
      .ok (.str b) :=
    Json.item_of_get? (Dict.get?_set_self _ _ _)
  refine ⟨utf8Length_pos.1 hpos, ?_⟩
  unfold chop
  simp only [hlongest, Py.ok_bind, choppableGet, choppablePut, hget, hbody, Json.dropLast,
    Json.setItem, Dict.set_set]
  simp only [withBody, Py.ok_bind, Dict.set_set]

/-- A character of the arguments is longer than the body, and cannot be cut. -/
theorem not_safe_chop_withBody (ha : Dict.get? a "loc-args" = some (.str args))
    (hb : encodable b = true) (hargs : encodable args = true)
    (hgt : ¬∀ c ∈ args, utf8Size c ≤ utf8Length b) : ¬(chop (withBody d a b)).Safe := by
  have hlongest := longest_withBody (d := d) ha hb
  rcases longestFrom_args (get?_alert_withBody d a b) (get?_args_withBody ha b) hargs
    (if 0 < utf8Length b then some .alertBody else none) (utf8Length b) with
    ⟨-, hall⟩ | ⟨-, i, hi, hr⟩
  · exact absurd hall hgt
  · exact not_safe_chop_arg (get?_alert_withBody d a b) (get?_args_withBody ha b) hi
      (hlongest.trans hr)

/-- Cutting once more is cutting what is left. -/
theorem take_dropLast (b : PyStr) (k : ℕ) :
    b.dropLast.take (b.dropLast.length - k) = b.take (b.length - (k + 1)) := by
  rw [List.dropLast_eq_take, List.take_take, List.length_take]
  congr 1
  omega

/-- A cut after the first one. -/
theorem cutDoes_succ (hle : ∀ c ∈ args, utf8Size c ≤ utf8Length b) (k : ℕ) :
    CutDoes maxLength payload d a args b (k + 1) ↔
      CutDoes maxLength payload d a args b.dropLast k := by
  unfold CutDoes
  rw [take_dropLast]
  refine and_congr_right fun _ => ?_
  constructor
  · intro h j hj
    rw [take_dropLast]
    exact h (j + 1) (by omega)
  · intro h j hj
    cases j with
    | zero => simpa using hle
    | succ j =>
        rw [← take_dropLast]
        exact h j (by omega)

/-- **Arguments that are a string: the loop goes through exactly when cutting the body
alone does**, by induction on the body. -/
theorem safe_loop_withBody (ha : Dict.get? a "loc-args" = some (.str args)) (hne : args ≠ [])
    (hwrites : Writes L (payload.set "aps" (withBody d a b))) :
    (truncateLoop L maxLength payload (withBody d a b)).Safe ↔
      ∃ k, CutDoes maxLength payload d a args b k := by
  induction hw : b.length using Nat.strong_induction_on generalizing b with
  | _ w ih =>
      subst hw
      have haps : (withBody d a b).encodable = true :=
        Json.encodable_of_get? hwrites.text (Dict.get?_set_self _ _ _)
      have halert : Json.encodableDict (Dict.set a "body" (.str b)) = true :=
        Json.encodable_of_get? haps (get?_alert_withBody d a b)
      have hb : encodable b = true := Json.encodable_of_get? halert (Dict.get?_set_self _ _ _)
      have hargs : encodable args = true :=
        Json.encodable_of_get? halert (get?_args_withBody ha b)
      by_cases hlong : TooLong maxLength (payload.set "aps" (withBody d a b))
      · rw [safe_loop_round hwrites hlong]
        -- It is too long, so it is cut at least once.
        have hzero : ¬CutDoes maxLength payload d a args b 0 := by
          intro h
          apply h.1
          simpa using hlong
        by_cases hle : ∀ c ∈ args, utf8Size c ≤ utf8Length b
        · obtain ⟨hnil, hchop⟩ := chop_withBody (d := d) ha hne hb hargs hle
          have hnext : Writes L (payload.set "aps" (withBody d a b.dropLast)) :=
            writes_chop hwrites hchop
          have hih := ih b.dropLast.length (length_dropLast_lt hnil) hnext rfl
          constructor
          · rintro ⟨-, hloop⟩
            obtain ⟨k, hk⟩ := hih.1 (hloop _ hchop)
            exact ⟨k + 1, (cutDoes_succ hle k).2 hk⟩
          · rintro ⟨k, hk⟩
            refine ⟨by rw [hchop]; exact Py.safe_ok _, ?_⟩
            intro next heq
            obtain rfl := Option.some.inj (Except.ok.inj (hchop.symm.trans heq))
            cases k with
            | zero => exact absurd hk hzero
            | succ k => exact hih.2 ⟨k, (cutDoes_succ hle k).1 hk⟩
        · constructor
          · rintro ⟨hchop, -⟩
            exact absurd hchop (not_safe_chop_withBody ha hb hargs hle)
          · rintro ⟨k, hk⟩
            cases k with
            | zero => exact absurd hk hzero
            | succ k =>
                have hfirst := hk.2 0 (by omega)
                simp only [Nat.sub_zero, List.take_length] at hfirst
                exact absurd hfirst hle
      · refine ⟨fun _ => ⟨0, ?_, by simp⟩, fun _ => safe_loop_of_fits hwrites hlong⟩
        simpa using hlong

end StringArgs

/-! ### Truncating a payload -/

section Truncate

variable {L : Limits} {maxLength : ℕ} {payload d a : Dict} {aps : Json}

/-- A body that is a text is a string. -/
theorem isStr_of_texts (hd : Dict.get? d "alert" = some (.obj a)) {n : ℕ}
    (h : ∀ c ∈ alertChoppables a n, ∃ s, TextAt (.obj d) c s) :
    ∀ body, Dict.get? a "body" = some body → body.isStr = true := by
  intro body hbody
  have hcontains : Dict.contains a "body" = true := by simp [Dict.contains, hbody]
  obtain ⟨s, hs⟩ := ((forall_alertChoppables n _).1 h).1 hcontains
  have hget := ((textAt_alertBody hd s).1 hs).1
  rw [Option.some.inj (hbody.symm.trans hget)]
  rfl

/-- An argument that is a text is a string. -/
theorem isStr_of_arg_texts (hd : Dict.get? d "alert" = some (.obj a)) {l : List Json}
    (ha : Dict.get? a "loc-args" = some (.arr l))
    (h : ∀ c ∈ alertChoppables a l.length, ∃ s, TextAt (.obj d) c s) :
    ∀ v ∈ l, v.isStr = true := by
  intro v hv
  obtain ⟨i, hi, rfl⟩ := List.mem_iff_getElem.1 hv
  obtain ⟨s, hs, -⟩ := ((forall_alertChoppables l.length _).1 h).2 i hi
  rw [choppableGet_alertLocArg hd ha, Json.index, List.getElem?_eq_getElem hi] at hs
  rw [Except.ok.inj hs]
  rfl

/-- A payload that is too long, with an alert that is a dictionary. -/
theorem safe_loop_alert (haps : payload.get? "aps" = some (.obj d))
    (hd : Dict.get? d "alert" = some (.obj a)) (hfits : ApsFits (.obj d))
    (hwrites : Writes L payload) (hlong : TooLong maxLength payload) :
    (truncateLoop L maxLength payload (.obj d)).Safe ↔ TextsFit maxLength payload (.obj d) := by
  have hset : payload.set "aps" (.obj d) = payload := Dict.set_of_get? haps
  have hset' : Writes L (payload.set "aps" (.obj d)) := by rwa [hset]
  -- A loop that goes through starts with a round that does.
  have htexts : ∀ {n}, locArgsLen a = .ok n → (truncateLoop L maxLength payload (.obj d)).Safe →
      ∀ c ∈ alertChoppables a n, ∃ s, TextAt (.obj d) c s := by
    intro n hn hsafe
    rw [safe_loop_round hset' (by rwa [hset])] at hsafe
    exact texts_of_safe_chop (choppablesForAps_alert hd hn) hsafe.1
  -- Without arguments only the body matters.
  have hempty : locArgsLen a = .ok 0 → ((truncateLoop L maxLength payload (.obj d)).Safe ↔
      ∀ body, Dict.get? a "body" = some body → body.isStr = true) := by
    intro hzero
    refine ⟨fun h => isStr_of_texts hd (htexts hzero h), fun h => ?_⟩
    exact safe_loop_of_cuttable hset' ⟨d, .obj a, rfl, hd, h, .inl hzero⟩
  cases ha : Dict.get? a (py "loc-args") with
  | none =>
      rw [hempty (by simp [locArgsLen, ha])]
      simp [TextsFit, hd, ha]
  | some args =>
      have hlen : locArgsLen a = args.len := by simp [locArgsLen, ha]
      cases args with
      | arr l =>
          simp only [TextsFit, hd, ha]
          constructor
          · intro h
            have htext := htexts hlen h
            exact ⟨isStr_of_texts hd htext, isStr_of_arg_texts hd ha htext⟩
          · intro h
            exact safe_loop_of_cuttable hset' ⟨d, .obj a, rfl, hd, h.1, .inr ⟨l, ha, h.2⟩⟩
      | str s =>
          by_cases hs : s = []
          · rw [hempty (by simp [hlen, hs, Json.len])]
            simp [TextsFit, hd, ha, hs]
          · simp only [TextsFit, hd, ha, hs, false_or]
            -- With the body that is there, the alert is its own `withBody`.
            have hown : ∀ {b}, Dict.get? a "body" = some (.str b) → withBody d a b = .obj d := by
              intro b hb
              unfold withBody
              rw [Dict.set_of_get? hb, Dict.set_of_get? hd]
            constructor
            · intro h
              have hbody := isStr_of_texts hd (htexts hlen h)
              refine ⟨hbody, ?_⟩
              cases hb : Dict.get? a (py "body") with
              | none =>
                  have hchop := ((safe_loop_round hset' (by rwa [hset])).1 h).1
                  have haps' : Json.encodableDict d = true :=
                    Json.encodable_of_get? hwrites.text haps
                  have halert : Json.encodableDict a = true := Json.encodable_of_get? haps' hd
                  have hargs : encodable s = true := Json.encodable_of_get? halert ha
                  exact absurd hchop (not_safe_chop_of_no_body hd ha hargs hs hb)
              | some body =>
                  have hstr := hbody body hb
                  cases body with
                  | str b =>
                      refine ⟨b, hb, ?_⟩
                      rw [← safe_loop_withBody ha hs (by rwa [hown hb]), hown hb]
                      exact h
                  | _ => cases hstr
            · rintro ⟨-, b, hb, hcut⟩
              rw [← safe_loop_withBody ha hs (by rwa [hown hb]), hown hb] at hcut
              exact hcut
      | obj e =>
          have hnil : e = [] := by simpa [ApsFits, hd, ha] using hfits
          rw [hempty (by simp [hlen, hnil, Json.len])]
          simp [TextsFit, hd, ha]
      | _ => simp [ApsFits, hd, ha] at hfits

/-- A payload that is too long is cut exactly when its texts can be. -/
theorem safe_loop_iff_of_long (haps : payload.get? "aps" = some aps) (hfits : ApsFits aps)
    (hwrites : Writes L payload) (hlong : TooLong maxLength payload) :
    (truncateLoop L maxLength payload aps).Safe ↔ TextsFit maxLength payload aps := by
  have hset : Writes L (payload.set "aps" aps) := by rwa [Dict.set_of_get? haps]
  cases aps with
  | obj d =>
      cases hd : Dict.get? d (py "alert") with
      | none =>
          simp only [TextsFit, hd, iff_true]
          exact safe_loop_of_none hset (choppablesForAps_none hd)
      | some alert =>
          cases alert with
          | obj a => exact safe_loop_alert haps hd hfits hwrites hlong
          | _ =>
              simp only [TextsFit, hd, iff_true]
              exact safe_loop_of_cuttable hset ⟨d, _, rfl, hd, trivial⟩
  | arr l =>
      have hnone : choppablesForAps (.arr l) = .ok [] := by
        have hmem : Json.str (py "alert") ∉ l := hfits
        simp [choppablesForAps, Json.has, hmem]
      simp only [TextsFit, iff_true]
      exact safe_loop_of_none hset hnone
  | str s =>
      have hnone : choppablesForAps (.str s) = .ok [] := by
        have hmem : ¬py "alert" <:+: s := hfits
        simp [choppablesForAps, Json.has, hmem]
      simp only [TextsFit, iff_true]
      exact safe_loop_of_none hset hnone
  | _ => exact hfits.elim

/-- The loop for a payload of any length. -/
theorem safe_loop_iff (haps : payload.get? "aps" = some aps) (hfits : ApsFits aps) :
    (truncateLoop L maxLength payload aps).Safe ↔
      Writes L payload ∧ (TooLong maxLength payload → TextsFit maxLength payload aps) := by
  have hset : payload.set "aps" aps = payload := Dict.set_of_get? haps
  by_cases hwrites : Writes L payload
  · by_cases hlong : TooLong maxLength payload
    · rw [safe_loop_iff_of_long haps hfits hwrites hlong]
      simp [hlong, hwrites]
    · have hsafe : (truncateLoop L maxLength payload aps).Safe :=
        safe_loop_of_fits (by rwa [hset]) (by rwa [hset])
      simp [hsafe, hlong, hwrites]
  · have hnot : ¬(truncateLoop L maxLength payload aps).Safe := not_safe_loop (by rwa [hset])
    simp [hnot, hwrites]

/-- A payload with `aps` is scanned, then cut. -/
theorem safe_scan_loop (aps : Json) (loop : Py SygnalExn Dict) :
    (choppablesForAps aps >>= fun cs => readAll aps cs >>= fun _ => loop).Safe ↔
      ApsFits aps ∧ loop.Safe := by
  rw [← scan_fits]
  constructor
  · intro h
    obtain ⟨hscan, hrest⟩ := Py.safe_bind.1 h
    obtain ⟨cs, hcs⟩ := (plain_choppablesForAps aps).exists_ok hscan
    obtain ⟨hread, hloop⟩ := Py.safe_bind.1 (hrest cs hcs)
    obtain ⟨u, hu⟩ := (plain_readAll aps cs).exists_ok hread
    refine ⟨⟨hscan, ?_⟩, hloop u hu⟩
    intro cs' hcs'
    obtain rfl := Except.ok.inj (hcs.symm.trans hcs')
    exact hread
  · rintro ⟨⟨hscan, hread⟩, hloop⟩
    exact Py.safe_bind.2 ⟨hscan, fun cs hcs => Py.safe_bind.2 ⟨hread cs hcs, fun _ _ => hloop⟩⟩

/-- **A payload can be truncated exactly when it fits the conditions.** -/
theorem safe_truncate (L : Limits) (payload : Dict) (maxLength : ℕ) :
    (truncate L payload maxLength).Safe ↔ TruncFits L payload maxLength := by
  unfold truncate TruncFits
  cases haps : payload.get? (py "aps") with
  | none =>
      simp only [Py.safe_bind, safe_isTooLong, reduceCtorEq, false_implies, implies_true, and_true]
      refine and_iff_left fun long _ => ?_
      split <;> simp
  | some aps =>
      simp only [Option.some.injEq, forall_eq']
      rw [safe_scan_loop]
      constructor
      · rintro ⟨hfits, hloop⟩
        obtain ⟨hwrites, htexts⟩ := (safe_loop_iff haps hfits).1 hloop
        exact ⟨hwrites, hfits, htexts⟩
      · rintro ⟨hwrites, hfits, htexts⟩
        exact ⟨hfits, (safe_loop_iff haps hfits).2 ⟨hwrites, htexts⟩⟩

end Truncate

end Sygnal
end Liza
