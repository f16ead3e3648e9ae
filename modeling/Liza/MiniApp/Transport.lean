/-
# Init data on its way

`hmac_sign`, `hmac_verify` and `encode_init_data` of `servers/synapse/modules/miniapp/_crypto.py`,
and the way back as in `verify_like_third_party` of `demo_initdata.py`: the text is split at `&`
and `=`, the values are decoded, `hash` and `signature` are taken out, and the text that was
signed is built again.

Whatever the values are, it is the same text (`init_data_verifies`), and with one value changed it
is another one.  Whether a decoder takes a `+` for a space makes no difference.
-/

import Liza.Lib.Assoc
import Liza.Lib.Lines
import Liza.Lib.Percent
import Liza.MiniApp.Crypto

set_option autoImplicit false

namespace Liza
namespace MiniApp

open Lib

/-- The names of the parameters, as `_build_init_data` gives them. -/
def paramNames : List PyStr := ["app_id", "auth_date", "nonce", "user", "room_id", "key_id"]

/-- The characters that `quote` never encodes. -/
def isAlwaysSafe (c : CodePoint) : Bool :=
  (0x41 ≤ c.val ∧ c.val ≤ 0x5A) ∨ (0x61 ≤ c.val ∧ c.val ≤ 0x7A) ∨ (0x30 ≤ c.val ∧ c.val ≤ 0x39) ∨
    c = codePoint '_' ∨ c = codePoint '.' ∨ c = codePoint '-' ∨ c = codePoint '~'

/-- `urllib.parse.quote(s, safe="")`. -/
def urlQuote (s : PyStr) : Option PyStr :=
  if encodable s then some (percentEncode isAlwaysSafe s) else none

section Sign

variable (hmac : Bytes → Bytes → Bytes)

/-- `hmac_sign`. -/
def hmacSign (key : Bytes) (dataCheckString : PyStr) : Option PyStr := do
  return hex (hmac key (← encodeUtf8 dataCheckString))

/-- `hmac.compare_digest`, which raises on a string that is not ASCII. -/
def compareDigest (a b : PyStr) : Option Bool :=
  if (a ++ b).all fun c => c.val < 0x80 then some (a = b) else none

/-- `hmac_verify`. -/
def hmacVerify (key : Bytes) (dataCheckString receivedHash : PyStr) : Option Bool := do
  compareDigest (← hmacSign hmac key dataCheckString) receivedHash

end Sign

/-- `f"{k}={v}"`. -/
def field (k v : PyStr) : PyStr := k ++ py "=" ++ v

/-- `encode_init_data`. -/
def encodeInitData (params : Params) (hashValue : PyStr) (signature : Option PyStr) :
    Option PyStr := do
  let parts ← (sortedStrs (params.map Prod.fst)).mapM fun k => do
    return field k (← urlQuote (params.item k))
  let parts := parts ++ [field "hash" hashValue]
  let parts ← match signature with
    | none => pure parts
    | some signature => do pure (parts ++ [field "signature" (← urlQuote signature)])
  return joinStrs "&" parts

/-! ### The way back -/

/-- A name or a value is decoded, by a decoder that may take `+` for a space. -/
def decodeField (plusIsSpace : Bool) (s : PyStr) : Option PyStr :=
  percentDecode (if plusIsSpace then s.map fun c => if c = codePoint '+' then codePoint ' ' else c
    else s)

/-- `parse_qsl(initData, keep_blank_values=True)`. -/
def parseQsl (plusIsSpace : Bool) (initData : PyStr) : Option Params :=
  ((initData.splitOn (codePoint '&')).filter (· ≠ [])).mapM fun nameValue =>
    let parts := split1 (codePoint '=') nameValue
    (decodeField plusIsSpace parts.1).bind fun name =>
      (decodeField plusIsSpace (parts.2.getD [])).map fun value => (name, value)

/-- `dict(items)`. -/
def dictOf (items : Params) : Params := items.foldl (fun d e => Assoc.set d e.1 e.2) []

/-- The parameters without `hash` and `signature`. -/
def withoutSeals (parsed : Params) : Params := Assoc.erase (Assoc.erase parsed "signature") "hash"

/-! ### A field -/

section Fields

variable {k v s : PyStr} {c : CodePoint} {plusIsSpace : Bool}

theorem isAlwaysSafe_ascii (h : isAlwaysSafe c = true) :
    c.val < 0x80 ∧ c ≠ percent ∧ c ≠ codePoint '&' ∧ c ≠ codePoint '=' ∧ c ≠ codePoint '+' := by
  have hall : ∀ n : Fin 0x80, isAlwaysSafe (Fin.ofNat 0x110000 n.val) = true →
      Fin.ofNat 0x110000 n.val ≠ percent ∧ Fin.ofNat 0x110000 n.val ≠ codePoint '&' ∧
        Fin.ofNat 0x110000 n.val ≠ codePoint '=' ∧ Fin.ofNat 0x110000 n.val ≠ codePoint '+' := by
    decide
  have hlt : c.val < 0x80 := by
    simp only [isAlwaysSafe, decide_eq_true_eq] at h
    rcases h with h | h | h | rfl | rfl | rfl | rfl
    · omega
    · omega
    · omega
    all_goals decide
  have hc : Fin.ofNat 0x110000 c.val = c := Fin.ext (Nat.mod_eq_of_lt c.isLt)
  exact ⟨hlt, by simpa only [hc] using hall ⟨c.val, hlt⟩ (by rw [hc]; exact h)⟩

theorem hexCapital_safe {n : ℕ} (h : n < 16) : isAlwaysSafe (hexCapital n) = true := by
  revert n
  decide

/-- A character of a quoted text. -/
theorem mem_quoted (h : c ∈ percentEncode isAlwaysSafe s) :
    isAlwaysSafe c = true ∨ c = percent := by
  rcases mem_percentEncode h with h | h | ⟨n, hn, rfl⟩
  · exact .inl h.2
  · exact .inr h
  · exact .inl (hexCapital_safe hn)

theorem notMem_quoted (hsafe : isAlwaysSafe c = false) (hne : c ≠ percent) :
    c ∉ percentEncode isAlwaysSafe s := fun h => by
  rcases mem_quoted h with h | h
  · rw [hsafe] at h
    cases h
  · exact hne h

/-- **A quoted text is decoded.** -/
theorem decodeField_quoted (h : encodable s = true) :
    decodeField plusIsSpace (percentEncode isAlwaysSafe s) = some s := by
  have hdecode : percentDecode (percentEncode isAlwaysSafe s) = some s :=
    percentDecode_percentEncode
      (fun c hc => ⟨(isAlwaysSafe_ascii hc).1, (isAlwaysSafe_ascii hc).2.1⟩) h
  unfold decodeField
  cases plusIsSpace with
  | false => exact hdecode
  | true =>
      have hplus : codePoint '+' ∉ percentEncode isAlwaysSafe s :=
        notMem_quoted (by decide) (by decide)
      have hsame : ∀ c ∈ percentEncode isAlwaysSafe s,
          (if c = codePoint '+' then codePoint ' ' else c) = id c := by
        intro c hc
        refine if_neg ?_
        rintro rfl
        exact hplus hc
      rw [if_pos rfl, List.map_congr_left hsame, List.map_id, hdecode]

/-- A name that stands for itself. -/
def Plain (s : PyStr) : Prop := ∀ c ∈ s, isAlwaysSafe c = true

theorem Plain.encodable (h : Plain s) : encodable s = true := by
  rw [Lib.encodable, List.all_eq_true]
  intro c hc
  have hlt := (isAlwaysSafe_ascii (h c hc)).1
  rw [Bool.not_eq_true', isSurrogate, decide_eq_false_iff_not]
  omega

theorem Plain.notMem (h : Plain s) (hc : isAlwaysSafe c = false) : c ∉ s := fun hmem => by
  rw [h c hmem] at hc
  cases hc

theorem plain_hex (b : Bytes) : Plain (hex b) := by
  have hdigit : ∀ n < 16, isAlwaysSafe (hexDigit n) = true := by decide
  intro c hc
  obtain ⟨n, hn, rfl⟩ := mem_hex hc
  exact hdigit n hn

end Fields

/-! ### A list of fields -/

/-- A field with its value quoted. -/
def quotedField (e : PyStr × PyStr) : PyStr := field e.1 (percentEncode isAlwaysSafe e.2)

/-- Names that stand for themselves, and values that can be encoded. -/
def Sendable (items : Params) : Prop := ∀ e ∈ items, Plain e.1 ∧ encodable e.2 = true

section Items

variable {items : Params} {plusIsSpace : Bool}

theorem parse_quotedField {e : PyStr × PyStr} (hname : Plain e.1) (hvalue : encodable e.2 = true) :
    (let parts := split1 (codePoint '=') (quotedField e)
     (decodeField plusIsSpace parts.1).bind fun name =>
      (decodeField plusIsSpace (parts.2.getD [])).map fun value => (name, value)) = some e := by
  have hsplit : split1 (codePoint '=') (quotedField e) =
      (e.1, some (percentEncode isAlwaysSafe e.2)) := by
    rw [quotedField, field, List.append_assoc]
    exact split1_append (hname.notMem (by decide))
  have hdecoded : decodeField plusIsSpace e.1 = some e.1 := by
    conv_lhs => rw [← percentEncode_of_keep hname]
    exact decodeField_quoted hname.encodable
  rw [hsplit]
  dsimp only
  rw [hdecoded, Option.getD_some, decodeField_quoted hvalue]
  rfl

/-- **A decoder reads the fields that were written.** -/
theorem parseQsl_quoted (h : Sendable items) (hne : items ≠ []) :
    parseQsl plusIsSpace (joinStrs "&" (items.map quotedField)) = some items := by
  have hfree : ∀ s ∈ items.map quotedField, codePoint '&' ∉ s := by
    intro s hs
    obtain ⟨e, he, rfl⟩ := List.mem_map.1 hs
    simp only [quotedField, field, List.mem_append, not_or]
    exact ⟨⟨(h e he).1.notMem (by decide), by decide⟩,
      notMem_quoted (by decide) (by decide)⟩
  have hsplit : (joinStrs "&" (items.map quotedField)).splitOn (codePoint '&') =
      items.map quotedField := splitOn_joinStrs hfree (by simpa using hne)
  have hall : (items.map quotedField).filter (· ≠ []) = items.map quotedField := by
    refine List.filter_eq_self.2 fun s hs => ?_
    obtain ⟨e, -, rfl⟩ := List.mem_map.1 hs
    simp [quotedField, field, py]
  rw [parseQsl, hsplit, hall]
  clear hne hfree hsplit hall
  induction items with
  | nil => rfl
  | cons e items ih =>
      have he := h e List.mem_cons_self
      rw [List.map_cons, List.mapM_cons, ih fun f hf => h f (List.mem_cons_of_mem _ hf)]
      exact congrArg (Option.bind · _) (parse_quotedField he.1 he.2)

end Items

/-! ### The text that is signed -/

section Signed

variable {params items other : Params} {k v : PyStr}

theorem item_eq (params : Params) (k : PyStr) :
    params.item k = (Assoc.get? params k).getD [] := by
  refine congrArg (Option.getD · []) ?_
  induction params with
  | nil => rfl
  | cons e params ih =>
      obtain ⟨l, v⟩ := e
      rw [List.lookup_cons, Assoc.get?, ih]
      by_cases h : l = k
      · simp [h]
      · have hne : (k == l) = false := by simpa using Ne.symm h
        simp [h, hne]

/-- The parameters in the order in which they are sent. -/
def sortedItems (params : Params) : Params :=
  (sortedStrs (params.map Prod.fst)).map fun k => (k, params.item k)

theorem sortedItems_keys :
    (sortedItems params).map Prod.fst = sortedStrs (params.map Prod.fst) := by
  rw [sortedItems, List.map_map]
  exact List.map_id _

theorem sortedItems_keyed (h : Assoc.Keyed params) : Assoc.Keyed (sortedItems params) := by
  rw [Assoc.Keyed, sortedItems_keys]
  exact (sortedStrs_perm _).nodup_iff.2 h

theorem mem_sortedItems (h : Assoc.Keyed params) {e : PyStr × PyStr} :
    e ∈ sortedItems params ↔ e ∈ params := by
  have hitem : ∀ e ∈ params, params.item e.1 = e.2 := fun e he => by
    rw [item_eq, h.get?_of_mem he, Option.getD_some]
  rw [sortedItems, List.mem_map]
  constructor
  · rintro ⟨k, hk, rfl⟩
    obtain ⟨e, he, rfl⟩ := List.mem_map.1 ((sortedStrs_perm _).mem_iff.1 hk)
    rwa [hitem e he]
  · intro he
    refine ⟨e.1, (sortedStrs_perm _).mem_iff.2 (List.mem_map_of_mem he), ?_⟩
    rw [hitem e he]

/-- **The parameters in the order in which they are sent have the same text.** -/
theorem buildDataCheckString_sortedItems (h : Assoc.Keyed params) :
    buildDataCheckString (sortedItems params) = buildDataCheckString params := by
  rw [buildDataCheckString, sortedItems_keys, sortedStrs_idem, buildDataCheckString]
  refine congrArg (joinStrs "\n") (List.map_congr_left fun k hk => ?_)
  have hmem : (k, params.item k) ∈ sortedItems params := List.mem_map_of_mem hk
  rw [item_eq (sortedItems params), (sortedItems_keyed h).get?_of_mem hmem, Option.getD_some]

/-- **With another value the text is another one.** -/
theorem buildDataCheckString_set_ne (h : Assoc.Keyed params) (hk : k ∈ params.map Prod.fst)
    (hv : v ≠ params.item k) :
    buildDataCheckString (Assoc.set params k v) ≠ buildDataCheckString params := by
  have hother : ∀ j, j ≠ k → Params.item (Assoc.set params k v) j = params.item j := fun j hj => by
    rw [item_eq, Assoc.get?_set_of_ne _ _ hj, ← item_eq]
  have hitem : Params.item (Assoc.set params k v) k = v := by
    rw [item_eq, Assoc.get?_set_self, Option.getD_some]
  obtain ⟨l₁, l₂, hl⟩ := List.append_of_mem ((sortedStrs_perm _).mem_iff.2 hk)
  have hnodup : (l₁ ++ k :: l₂).Nodup := hl ▸ (sortedStrs_perm _).nodup_iff.2 h
  have hne : ∀ j ∈ l₁ ++ l₂, j ≠ k := by
    rintro j hj rfl
    exact (List.nodup_cons.1 (List.perm_middle.nodup_iff.1 hnodup)).1 hj
  have hsame : ∀ l : List PyStr, l ⊆ l₁ ++ l₂ →
      (l.map fun k' => k' ++ py "=" ++ Params.item (Assoc.set params k v) k') =
        l.map fun k' => k' ++ py "=" ++ params.item k' :=
    fun l hsub => List.map_congr_left fun j hj => by rw [hother j (hne j (hsub hj))]
  intro heq
  rw [buildDataCheckString, buildDataCheckString, Assoc.map_fst_set_of_mem v hk, hl,
    List.map_append, List.map_append, List.map_cons, List.map_cons,
    hsame l₁ (List.subset_append_left _ _), hsame l₂ (List.subset_append_right _ _)] at heq
  have hline := joinStrs_inj_at heq
  exact hv (hitem ▸ List.append_cancel_left hline)

end Signed

/-! ### There and back -/

section Transport

variable {params : Params} {hashValue : PyStr} {signature : Option PyStr}

/-- The fields that are sent. -/
def sentItems (params : Params) (hashValue : PyStr) (signature : Option PyStr) : Params :=
  sortedItems params ++
    (py "hash", hashValue) :: (signature.map fun s => (py "signature", s)).toList

theorem paramNames_plain {k : PyStr} (h : k ∈ paramNames) :
    Plain k ∧ k ≠ py "hash" ∧ k ≠ py "signature" := by
  have hall : ∀ k ∈ paramNames,
      (k.all isAlwaysSafe = true) ∧ k ≠ py "hash" ∧ k ≠ py "signature" := by
    decide
  obtain ⟨hsafe, hne⟩ := hall k h
  exact ⟨fun c hc => List.all_eq_true.1 hsafe c hc, hne⟩

theorem plain_sealNames : Plain (py "hash") ∧ Plain (py "signature") := by
  have hall : (py "hash").all isAlwaysSafe = true ∧ (py "signature").all isAlwaysSafe = true := by
    decide
  exact ⟨fun c hc => List.all_eq_true.1 hall.1 c hc, fun c hc => List.all_eq_true.1 hall.2 c hc⟩

/-- **What is sent are the fields, quoted.** -/
theorem encodeInitData_eq (hkeys : Assoc.Keyed params)
    (hvalues : ∀ e ∈ params, encodable e.2 = true)
    (hhash : Plain hashValue) (hsignature : ∀ s ∈ signature, encodable s = true) :
    encodeInitData params hashValue signature =
      some (joinStrs "&" ((sentItems params hashValue signature).map quotedField)) := by
  have hitem : ∀ k ∈ sortedStrs (params.map Prod.fst), encodable (params.item k) = true :=
    fun k hk => hvalues _ ((mem_sortedItems hkeys).1 (List.mem_map_of_mem hk))
  have hparts : ∀ l : List PyStr, (∀ k ∈ l, encodable (params.item k) = true) →
      (l.mapM fun k => do return field k (← urlQuote (params.item k))) =
        some ((l.map fun k => (k, params.item k)).map quotedField) := by
    intro l hl
    induction l with
    | nil => rfl
    | cons k l ih =>
        have hk := hl k List.mem_cons_self
        rw [List.mapM_cons, ih fun j hj => hl j (List.mem_cons_of_mem _ hj)]
        simp [urlQuote, hk, quotedField]
  rw [encodeInitData, hparts _ hitem]
  have hseal : field "hash" hashValue = quotedField (py "hash", hashValue) := by
    rw [quotedField, percentEncode_of_keep hhash]
  cases signature with
  | none => simp [sentItems, sortedItems, hseal]
  | some s => simp [sentItems, sortedItems, hseal, urlQuote, hsignature s rfl, quotedField]

theorem sentItems_keyed (hkeys : Assoc.Keyed params)
    (hnames : ∀ k ∈ params.map Prod.fst, k ∈ paramNames) :
    Assoc.Keyed (sentItems params hashValue signature) := by
  have hsealed : ∀ k ∈ sortedStrs (params.map Prod.fst), k ≠ py "hash" ∧ k ≠ py "signature" :=
    fun k hk => (paramNames_plain (hnames k ((sortedStrs_perm _).mem_iff.1 hk))).2
  have hsorted := sortedItems_keyed hkeys
  have hne : py "hash" ≠ py "signature" := by decide
  rw [Assoc.Keyed, sortedItems_keys] at hsorted
  rw [Assoc.Keyed, sentItems, List.map_append, sortedItems_keys, List.nodup_append]
  cases signature with
  | none =>
      refine ⟨hsorted, by simp, fun a ha b hb => ?_⟩
      rw [List.mem_singleton.1 hb]
      exact (hsealed a ha).1
  | some s =>
      refine ⟨hsorted, by simp [hne], fun a ha b hb => ?_⟩
      simp only [Option.map_some, Option.toList_some, List.map_cons, List.map_nil, List.mem_cons,
        List.not_mem_nil, or_false] at hb
      rcases hb with rfl | rfl
      · exact (hsealed a ha).1
      · exact (hsealed a ha).2

/-- **Without the seals the parameters are left.** -/
theorem withoutSeals_sentItems (hnames : ∀ k ∈ params.map Prod.fst, k ∈ paramNames) :
    withoutSeals (sentItems params hashValue signature) = sortedItems params := by
  have hkept : ∀ e ∈ sortedItems params, e.1 ≠ py "hash" ∧ e.1 ≠ py "signature" := by
    intro e he
    have hk : e.1 ∈ sortedStrs (params.map Prod.fst) := sortedItems_keys ▸ List.mem_map_of_mem he
    exact (paramNames_plain (hnames _ ((sortedStrs_perm _).mem_iff.1 hk))).2
  have hne : py "hash" ≠ py "signature" := by decide
  rw [withoutSeals, Assoc.erase, Assoc.erase, sentItems, List.filter_append, List.filter_append]
  have hself : ((sortedItems params).filter (·.1 ≠ py "signature")).filter (·.1 ≠ py "hash") =
      sortedItems params := by
    have hsignature : (sortedItems params).filter (·.1 ≠ py "signature") = sortedItems params :=
      List.filter_eq_self.2 fun e he => decide_eq_true (hkept e he).2
    rw [hsignature]
    exact List.filter_eq_self.2 fun e he => decide_eq_true (hkept e he).1
  rw [hself]
  cases signature <;> simp [hne]

theorem encodable_append {s t : PyStr} (hs : encodable s = true) (ht : encodable t = true) :
    encodable (s ++ t) = true := by
  rw [encodable, List.all_append, Bool.and_eq_true]
  exact ⟨hs, ht⟩

theorem encodable_joinStrs {sep : PyStr} {l : List PyStr} (hsep : encodable sep = true)
    (h : ∀ s ∈ l, encodable s = true) : encodable (joinStrs sep l) = true := by
  simp only [encodable, List.all_eq_true] at hsep h ⊢
  intro c hc
  rcases mem_joinStrs hc with hc | ⟨s, hs, hc⟩
  · exact hsep c hc
  · exact h s hs c hc

/-- The text that is signed has bytes. -/
theorem encodeUtf8_buildDataCheckString (hkeys : Assoc.Keyed params)
    (hnames : ∀ k ∈ params.map Prod.fst, k ∈ paramNames)
    (hvalues : ∀ e ∈ params, encodable e.2 = true) :
    encodeUtf8 (buildDataCheckString params) =
      some ((buildDataCheckString params).flatMap utf8) := by
  refine if_pos (encodable_joinStrs (encodable_py "\n") fun line hline => ?_)
  obtain ⟨k, hk, rfl⟩ := List.mem_map.1 hline
  have hitem : encodable (params.item k) = true :=
    hvalues _ ((mem_sortedItems hkeys).1 (List.mem_map_of_mem hk))
  have hname : Plain k := (paramNames_plain (hnames k ((sortedStrs_perm _).mem_iff.1 hk))).1
  exact encodable_append (encodable_append hname.encodable (encodable_py "=")) hitem

/-- **A hash equals itself.** -/
theorem compareDigest_self (h : Plain hashValue) :
    compareDigest hashValue hashValue = some true := by
  have hascii : (hashValue ++ hashValue).all (fun c => c.val < 0x80) = true := by
    rw [List.all_append, Bool.and_self, List.all_eq_true]
    exact fun c hc => decide_eq_true (isAlwaysSafe_ascii (h c hc)).1
  simp [compareDigest, hascii]

end Transport

/-- **Init data verifies when it has been sent.**  The fields that a decoder reads, less `hash` and
`signature`, have the text that was signed, and `hmac_verify` accepts it with the hash that came
along.  With another value of any of them the text is another one. -/
theorem init_data_verifies (hmac : Bytes → Bytes → Bytes) (key : Bytes) (params : Params)
    (signature : Option PyStr) (plusIsSpace : Bool)
    (hkeys : Assoc.Keyed params) (hnames : ∀ k ∈ params.map Prod.fst, k ∈ paramNames)
    (hvalues : ∀ e ∈ params, encodable e.2 = true)
    (hsignature : ∀ s ∈ signature, encodable s = true) :
    ∃ (hashValue initData : PyStr) (items : Params),
      hmacSign hmac key (buildDataCheckString params) = some hashValue ∧
      encodeInitData params hashValue signature = some initData ∧
      parseQsl plusIsSpace initData = some items ∧
      let parsed := withoutSeals (dictOf items)
      parsed.map Prod.fst = sortedStrs (params.map Prod.fst) ∧
      buildDataCheckString parsed = buildDataCheckString params ∧
      hmacVerify hmac key (buildDataCheckString parsed) (Params.item (dictOf items) "hash") =
        some true ∧
      ∀ k ∈ parsed.map Prod.fst, ∀ v, v ≠ Params.item parsed k →
        buildDataCheckString (Assoc.set parsed k v) ≠ buildDataCheckString params := by
  set text := buildDataCheckString params with htext
  have hbytes := encodeUtf8_buildDataCheckString hkeys hnames hvalues
  have hsign : hmacSign hmac key text = some (hex (hmac key (text.flatMap utf8))) := by
    rw [hmacSign, htext, hbytes]
    rfl
  set hashValue := hex (hmac key (text.flatMap utf8))
  have hhash : Plain hashValue := plain_hex _
  have hsent : Sendable (sentItems params hashValue signature) := by
    intro e he
    rcases List.mem_append.1 he with he | he
    · have hmem := (mem_sortedItems hkeys).1 he
      exact ⟨(paramNames_plain (hnames _ (List.mem_map_of_mem hmem))).1, hvalues e hmem⟩
    rcases List.mem_cons.1 he with rfl | he
    · exact ⟨plain_sealNames.1, hhash.encodable⟩
    · obtain ⟨s, hs, rfl⟩ := Option.map_eq_some_iff.1 (Option.mem_toList.1 he)
      exact ⟨plain_sealNames.2, hsignature s hs⟩
  have hkeyed : Assoc.Keyed (sentItems params hashValue signature) := sentItems_keyed hkeys hnames
  have hdict : dictOf (sentItems params hashValue signature) =
      sentItems params hashValue signature := Assoc.Keyed.foldl_set hkeyed
  have hreceived : Params.item (sentItems params hashValue signature) "hash" = hashValue := by
    have hmem : (py "hash", hashValue) ∈ sentItems params hashValue signature :=
      List.mem_append_right _ List.mem_cons_self
    rw [item_eq, hkeyed.get?_of_mem hmem, Option.getD_some]
  refine ⟨hashValue, _, sentItems params hashValue signature, hsign,
    encodeInitData_eq hkeys hvalues hhash hsignature,
    parseQsl_quoted hsent (by simp [sentItems]), ?_⟩
  have htextSorted : buildDataCheckString (sortedItems params) = text :=
    buildDataCheckString_sortedItems hkeys
  rw [hdict, hreceived, withoutSeals_sentItems hnames]
  refine ⟨sortedItems_keys, htextSorted, ?_, fun k hk v hv => ?_⟩
  · rw [htextSorted, hmacVerify, hsign]
    exact compareDigest_self hhash
  · rw [← htextSorted]
    exact buildDataCheckString_set_ne (sortedItems_keyed hkeys) hk hv

/-- A name with separators, a line feed and a letter that is not ASCII. -/
def unusual : Params :=
  [(py "user", py "a&b=c+d%\n" ++ [0x444]), (py "app_id", py "demo-shop"), (py "nonce", [])]

theorem unusual_verifies :
    ∃ (hashValue initData : PyStr) (items : Params),
      hmacSign (fun key msg => key ++ msg) [1] (buildDataCheckString unusual) = some hashValue ∧
      encodeInitData unusual hashValue (some (py "c2ln")) = some initData ∧
      parseQsl true initData = some items ∧
      let parsed := withoutSeals (dictOf items)
      parsed.map Prod.fst = sortedStrs (unusual.map Prod.fst) ∧
      buildDataCheckString parsed = buildDataCheckString unusual ∧
      hmacVerify (fun key msg => key ++ msg) [1] (buildDataCheckString parsed)
        (Params.item (dictOf items) "hash") = some true ∧
      ∀ k ∈ parsed.map Prod.fst, ∀ v, v ≠ Params.item parsed k →
        buildDataCheckString (Assoc.set parsed k v) ≠ buildDataCheckString unusual :=
  init_data_verifies _ _ unusual _ true (by unfold Assoc.Keyed; decide) (by decide +kernel)
    (by decide) (by decide +kernel)

end MiniApp
end Liza
