/-
# Queries with parameters

How the query of a URI is read as parameters, and parameters are written as a query: `key=value`
between `&`, with `+` for a space.  A parameter without a key is passed over, and the value of a key
that comes again replaces the one before.  A query is not read at all if one of its escapes cannot
be decoded.

Decoding drops a byte order mark.  So parameters that are written are read as they were only if no
key is empty and no key or value begins with such a mark (`queryParameters_plain`); otherwise what
is read is shorter, and never the same text (`plain_of_queryText`).
-/

import Liza.Lib.Assoc
import Liza.Lib.UriText

set_option autoImplicit false

namespace Liza
namespace Lib

/-- `&`. -/
def ampersand : CodePoint := codePoint '&'

/-- `=`. -/
def equalsSign : CodePoint := codePoint '='

/-- `+`. -/
def plusSign : CodePoint := codePoint '+'

/-- A key or a value is written. -/
def encodeQueryComponent (s : PyStr) : PyStr :=
  s.flatMap fun c =>
    if isUnreserved c then [c]
    else if c = codePoint ' ' then [plusSign]
    else (utf8Bytes c).flatMap escapeByte

/-- A key or a value is read. -/
def decodeQueryComponent (s : PyStr) : Option PyStr :=
  decodeComponent (s.map fun c => if c = plusSign then codePoint ' ' else c)

/-- A parameter is read: `some none` for one that is passed over. -/
def readParameter (element : PyStr) : Option (Option (PyStr × PyStr)) :=
  let parts := split1 equalsSign element
  if parts.1 = [] then some none
  else
    (decodeQueryComponent parts.1).bind fun key =>
      (decodeQueryComponent (parts.2.getD [])).map fun value => some (key, value)

/-- The parameters of a query. -/
def queryParameters (query : PyStr) : Option (Assoc PyStr PyStr) :=
  ((query.splitOn ampersand).mapM readParameter).map fun read =>
    (read.filterMap id).foldl (fun m e => Assoc.set m e.1 e.2) []

/-- A parameter is written. -/
def parameterText (e : PyStr × PyStr) : PyStr :=
  encodeQueryComponent e.1 ++ equalsSign :: encodeQueryComponent e.2

/-- Parameters are written. -/
def queryText (l : List (PyStr × PyStr)) : PyStr := joinStrs [ampersand] (l.map parameterText)

example : queryParameters "a=1&=2&b+c&a=%33" = some [(py "a", py "3"), (py "b c", [])] := by
  decide +kernel

/-! ### Components -/

section Components

variable {s : PyStr} {c : CodePoint}

theorem queryChar_ne (h : isQueryChar c = true) : c ≠ percent := by
  rcases Bool.or_eq_true_iff.1 h with h | h
  · exact (pathChar_ascii h).2
  · rw [of_decide_eq_true h]
    decide

theorem unreserved_queryChar (h : isUnreserved c = true) : isQueryChar c = true := by
  simp [isQueryChar, unreserved_pathChar h]

/-- **The characters of a component that is written**: no delimiter is among them. -/
theorem notMem_encodeQueryComponent (hc : c ∈ py "&=#?") : c ∉ encodeQueryComponent s := by
  have hdelims : (py "&=#?").all (fun c => !isUnreserved c && c ≠ plusSign && c ≠ percent) =
      true := by
    decide +kernel
  have hdigits : ∀ n < 16, hexCapital n ∉ py "&=#?" := by decide
  have hdelim := List.all_eq_true.1 hdelims c hc
  simp only [Bool.and_eq_true, Bool.not_eq_true', decide_eq_true_eq] at hdelim
  obtain ⟨⟨hmark, hplus⟩, hpercent⟩ := hdelim
  intro hmem
  obtain ⟨d, -, hd⟩ := List.mem_flatMap.1 hmem
  split at hd
  · rename_i h
    rw [← List.mem_singleton.1 hd, hmark] at h
    cases h
  split at hd
  · exact hplus (List.mem_singleton.1 hd)
  · obtain ⟨b, -, hb⟩ := List.mem_flatMap.1 hd
    have hlt : b.toNat < 256 := b.toNat_lt
    simp only [escapeByte, List.mem_cons, List.not_mem_nil, or_false] at hb
    rcases hb with rfl | rfl | rfl
    · exact hpercent rfl
    · exact hdigits _ (by omega) hc
    · exact hdigits _ (by omega) hc

/-- A component that is written is in normal form. -/
theorem normal_encodeQueryComponent (s : PyStr) :
    Normal isQueryChar false (encodeQueryComponent s) := by
  refine normal_flatMap fun c _ => ?_
  split
  · rename_i h
    refine normal_plain fun d hd => ?_
    rw [List.mem_singleton.1 hd]
    exact ⟨unreserved_queryChar h, (unreserved_ascii h).2⟩
  split
  · refine normal_plain fun d hd => ?_
    rw [List.mem_singleton.1 hd]
    decide
  · rename_i h _
    refine normal_escapes ?_
    by_contra hc
    exact h (by simpa using hc)

/-- With spaces for its plus signs a component is in percent-encoding. -/
theorem map_plus_encodeQueryComponent (s : PyStr) :
    (encodeQueryComponent s).map (fun c => if c = plusSign then codePoint ' ' else c) =
      percentEncode (fun c => isUnreserved c || c = codePoint ' ') s := by
  have hmark : ∀ c, isUnreserved c = true → c ≠ plusSign := by
    rintro c h rfl
    revert h
    decide
  have hdigits : ∀ n < 16, hexCapital n ≠ plusSign := by decide
  have hescapes : ∀ bytes : List UInt8,
      (bytes.flatMap escapeByte).map (fun c => if c = plusSign then codePoint ' ' else c) =
        bytes.flatMap escapeByte := by
    intro bytes
    induction bytes with
    | nil => rfl
    | cons b bytes ih =>
        have hlt : b.toNat < 256 := b.toNat_lt
        have hpercent : percent ≠ plusSign := by decide
        rw [List.flatMap_cons, List.map_append, ih]
        simp [escapeByte, hpercent, hdigits _ (show b.toNat / 16 < 16 by omega),
          hdigits _ (show b.toNat % 16 < 16 by omega)]
  induction s with
  | nil => rfl
  | cons c s ih =>
      rw [encodeQueryComponent, List.flatMap_cons, List.map_append, ← encodeQueryComponent, ih,
        percentEncode, percentEncode, List.flatMap_cons]
      refine congrArg (· ++ _) ?_
      by_cases h : isUnreserved c = true
      · simp [h, hmark c h]
      by_cases hspace : c = codePoint ' '
      · rw [hspace]
        decide
      · simp [h, hspace, hescapes]

theorem unreservedOrSpace_ascii (hc : (isUnreserved c || c = codePoint ' ') = true) :
    c.val < 0x80 ∧ c ≠ percent := by
  rcases Bool.or_eq_true_iff.1 hc with hc | hc
  · exact unreserved_ascii hc
  · rw [of_decide_eq_true hc]
    decide

/-- **A component is read as it was written**, but for a byte order mark. -/
theorem decode_encodeQueryComponent (h : encodable s = true) :
    decodeQueryComponent (encodeQueryComponent s) = some (dropMark s) := by
  rw [decodeQueryComponent, map_plus_encodeQueryComponent, decodeComponent,
    percentDecode_percentEncode (fun c hc => unreservedOrSpace_ascii hc) h]
  rfl

theorem encodeQueryComponent_cons :
    encodeQueryComponent (c :: s) = encodeQueryComponent [c] ++ encodeQueryComponent s := by
  simp [encodeQueryComponent]

theorem encodeQueryComponent_singleton_ne_nil (c : CodePoint) : encodeQueryComponent [c] ≠ [] := by
  rw [encodeQueryComponent, List.flatMap_singleton]
  split
  · exact List.cons_ne_nil _ _
  split
  · exact List.cons_ne_nil _ _
  · cases hbytes : utf8Bytes c with
    | nil =>
        have hone := leadBytes_utf8Bytes c
        rw [hbytes] at hone
        cases hone
    | cons b bytes => exact List.cons_ne_nil _ _

theorem encodeQueryComponent_eq_nil : encodeQueryComponent s = [] ↔ s = [] := by
  cases s with
  | nil => exact iff_of_true rfl rfl
  | cons c s =>
      rw [encodeQueryComponent_cons, List.append_eq_nil_iff]
      exact iff_of_false (fun h => encodeQueryComponent_singleton_ne_nil c h.1)
        (List.cons_ne_nil c s)

/-- Without its mark a component is shorter. -/
theorem length_encode_dropMark (s : PyStr) :
    (encodeQueryComponent (dropMark s)).length ≤ (encodeQueryComponent s).length ∧
      (dropMark s ≠ s →
        (encodeQueryComponent (dropMark s)).length < (encodeQueryComponent s).length) := by
  cases s with
  | nil => exact ⟨Nat.le_refl _, fun h => absurd rfl h⟩
  | cons c s =>
      rw [dropMark]
      split
      · have hpos := List.length_pos_of_ne_nil (encodeQueryComponent_singleton_ne_nil c)
        rw [encodeQueryComponent_cons, List.length_append]
        exact ⟨by omega, fun _ => by omega⟩
      · exact ⟨Nat.le_refl _, fun h => absurd rfl h⟩

/-- **A byte order mark is seen in a component that is written.** -/
theorem mark_prefix_iff (h : encodable s = true) :
    py "%EF%BB%BF" <+: encodeQueryComponent s ↔ dropMark s ≠ s := by
  have hmark : encodeQueryComponent [byteOrderMark] = py "%EF%BB%BF" := by decide +kernel
  constructor
  · rintro ⟨rest, hrest⟩ hdrop
    have hread := map_plus_encodeQueryComponent s
    have hfront : (py "%EF%BB%BF").map (fun c => if c = plusSign then codePoint ' ' else c) =
        (utf8Bytes byteOrderMark).flatMap escapeByte := by
      decide +kernel
    have hdecode := percentDecode_percentEncode (fun c hc => unreservedOrSpace_ascii hc) h
    rw [← hread, ← hrest, List.map_append, hfront, percentDecode, unescape_escapes] at hdecode
    obtain ⟨bytes, hbytes, hdecode⟩ := Option.bind_eq_some_iff.1 hdecode
    obtain ⟨bytes, -, rfl⟩ := Option.map_eq_some_iff.1 hbytes
    rw [decodeUtf8, decode_utf8Bytes (by decide)] at hdecode
    obtain ⟨t, -, rfl⟩ := Option.map_eq_some_iff.1 hdecode
    rw [dropMark, if_pos rfl] at hdrop
    exact List.cons_ne_self byteOrderMark t hdrop.symm
  · intro hdrop
    cases s with
    | nil => exact absurd rfl hdrop
    | cons c s =>
        by_cases hc : c = byteOrderMark
        · rw [hc, encodeQueryComponent_cons, hmark]
          exact List.prefix_append _ _
        · exact absurd (if_neg hc) hdrop

end Components

/-! ### Parameters -/

section Parameters

variable {l m : List (PyStr × PyStr)} {e : PyStr × PyStr} {query : PyStr}

/-- The keys and values can be encoded. -/
def Encodables (l : List (PyStr × PyStr)) : Prop :=
  ∀ e ∈ l, encodable e.1 = true ∧ encodable e.2 = true

/-- **Parameters that are read as they were written.** -/
def PlainParameters (l : List (PyStr × PyStr)) : Prop :=
  ∀ e ∈ l, e.1 ≠ [] ∧ dropMark e.1 = e.1 ∧ dropMark e.2 = e.2

/-- What becomes of a parameter that is written and read. -/
def reread (e : PyStr × PyStr) : Option (PyStr × PyStr) :=
  if e.1 = [] then none else some (dropMark e.1, dropMark e.2)

theorem split1_parameterText (e : PyStr × PyStr) : split1 equalsSign (parameterText e) =
    (encodeQueryComponent e.1, some (encodeQueryComponent e.2)) :=
  split1_append (notMem_encodeQueryComponent (by decide))

theorem readParameter_parameterText (h : encodable e.1 = true ∧ encodable e.2 = true) :
    readParameter (parameterText e) = some (reread e) := by
  rw [readParameter, split1_parameterText]
  by_cases hkey : e.1 = []
  · simp [reread, hkey, encodeQueryComponent]
  · simp [reread, hkey, encodeQueryComponent_eq_nil, decode_encodeQueryComponent h.1,
      decode_encodeQueryComponent h.2]

theorem notMem_parameterText {c : CodePoint} (hc : c ∈ py "&#?") : c ∉ parameterText e := by
  have hdelim : c ∈ py "&=#?" := by
    have hall : (py "&#?").all (fun c => c ∈ py "&=#?") = true := by decide
    exact of_decide_eq_true (List.all_eq_true.1 hall c hc)
  have hne : c ≠ equalsSign := by
    rintro rfl
    revert hc
    decide
  intro hmem
  rcases List.mem_append.1 hmem with hmem | hmem
  · exact notMem_encodeQueryComponent hdelim hmem
  rcases List.mem_cons.1 hmem with hmem | hmem
  · exact hne hmem
  · exact notMem_encodeQueryComponent hdelim hmem

/-- The elements of a query are its parameters. -/
theorem splitOn_queryText (hne : l ≠ []) :
    (queryText l).splitOn ampersand = l.map parameterText := by
  refine splitOn_joinStrs ?_ (by simpa using hne)
  intro s hs
  obtain ⟨e, -, rfl⟩ := List.mem_map.1 hs
  exact notMem_parameterText (by decide)

theorem notMem_queryText {c : CodePoint} (hc : c ∈ py "#?") : c ∉ queryText l := by
  have hdelim : c ∈ py "&#?" := List.mem_cons_of_mem _ hc
  have hne : c ≠ ampersand := by
    rintro rfl
    revert hc
    decide
  induction l with
  | nil => exact List.not_mem_nil
  | cons e l ih =>
      cases l with
      | nil => exact notMem_parameterText hdelim
      | cons f l =>
          intro hmem
          change c ∈ parameterText e ++ [ampersand] ++ queryText (f :: l) at hmem
          rcases List.mem_append.1 hmem with hmem | hmem
          · rcases List.mem_append.1 hmem with hmem | hmem
            · exact notMem_parameterText hdelim hmem
            · exact hne (List.mem_singleton.1 hmem)
          · exact ih hmem

theorem normal_queryText (l : List (PyStr × PyStr)) : Normal isQueryChar false (queryText l) := by
  have hsign : ∀ c ∈ [ampersand, equalsSign], Normal isQueryChar false [c] := by
    intro c hc
    refine normal_plain fun d hd => ?_
    rw [List.mem_singleton.1 hd]
    simp only [List.mem_cons, List.not_mem_nil, or_false] at hc
    rcases hc with rfl | rfl
    · decide +kernel
    · decide +kernel
  have hparameter : ∀ e, Normal isQueryChar false (parameterText e) := by
    intro e
    have hrest := (hsign equalsSign (by simp)).append (normal_encodeQueryComponent e.2)
    exact (normal_encodeQueryComponent e.1).append hrest
  induction l with
  | nil => exact normal_nil
  | cons e l ih =>
      cases l with
      | nil => exact hparameter e
      | cons f l => exact ((hparameter e).append (hsign ampersand (by simp))).append ih

/-- **What is written is read** parameter by parameter. -/
theorem queryParameters_queryText (h : Encodables l) : queryParameters (queryText l) =
    some ((l.filterMap reread).foldl (fun m e => Assoc.set m e.1 e.2) []) := by
  have hread : ∀ l, Encodables l → (l.map parameterText).mapM readParameter =
      some (l.map reread) := by
    intro l
    induction l with
    | nil => exact fun _ => rfl
    | cons e l ih =>
        intro h
        rw [List.map_cons, List.mapM_cons, readParameter_parameterText (h e List.mem_cons_self),
          ih fun f hf => h f (List.mem_cons_of_mem _ hf)]
        rfl
  by_cases hne : l = []
  · rw [hne]
    decide
  · rw [queryParameters, splitOn_queryText hne, hread l h, Option.map_some, List.filterMap_map]
    rfl

/-- **Plain parameters are read as they were written.** -/
theorem queryParameters_plain (hkeyed : Assoc.Keyed l) (h : Encodables l)
    (hplain : PlainParameters l) : queryParameters (queryText l) = some l := by
  have hreread : l.filterMap reread = l := by
    have hsome : ∀ e ∈ l, reread e = some e := by
      intro e he
      obtain ⟨hkey, hfirst, hsecond⟩ := hplain e he
      rw [reread, if_neg hkey, hfirst, hsecond]
    rw [List.filterMap_congr hsome, List.filterMap_some]
  have hset := Assoc.Keyed.foldl_set (show Assoc.Keyed ([] ++ l) from hkeyed)
  rw [queryParameters_queryText h, hreread]
  exact congrArg some hset

/-! ### How long a query is -/

/-- The length of a query, with a delimiter for each parameter. -/
def querySize (l : List (PyStr × PyStr)) : ℕ := (l.map fun e => (parameterText e).length + 1).sum

theorem length_parameterText (k v : PyStr) : (parameterText (k, v)).length =
    (encodeQueryComponent k).length + 1 + (encodeQueryComponent v).length := by
  simp only [parameterText, List.length_append, List.length_cons]
  omega

theorem querySize_cons : querySize (e :: l) = (parameterText e).length + 1 + querySize l := rfl

theorem length_queryText (hne : l ≠ []) : (queryText l).length + 1 = querySize l := by
  induction l with
  | nil => exact absurd rfl hne
  | cons e l ih =>
      cases l with
      | nil => rfl
      | cons f l =>
          have hrest := ih (List.cons_ne_nil f l)
          change (parameterText e ++ [ampersand] ++ queryText (f :: l)).length + 1 = _
          rw [querySize_cons, ← hrest, List.length_append, List.length_append,
            List.length_singleton]
          omega

theorem querySize_filter_le (p : PyStr × PyStr → Bool) (l : List (PyStr × PyStr)) :
    querySize (l.filter p) ≤ querySize l := by
  induction l with
  | nil => exact Nat.le_refl _
  | cons e l ih =>
      rw [List.filter_cons]
      split
      · rw [querySize_cons, querySize_cons]
        omega
      · rw [querySize_cons]
        omega

theorem querySize_set_le (m : Assoc PyStr PyStr) (k v : PyStr) :
    querySize (Assoc.set m k v) ≤ querySize m + ((parameterText (k, v)).length + 1) := by
  induction m with
  | nil => exact (Nat.zero_add _).symm ▸ Nat.le_refl _
  | cons e m ih =>
      obtain ⟨l, w⟩ := e
      rw [Assoc.set]
      split
      · rw [querySize_cons, querySize_cons]
        omega
      · rw [querySize_cons, querySize_cons]
        omega

theorem querySize_foldl_le (l : List (PyStr × PyStr)) (m : Assoc PyStr PyStr) :
    querySize (l.foldl (fun m e => Assoc.set m e.1 e.2) m) ≤ querySize m + querySize l := by
  induction l generalizing m with
  | nil => exact Nat.le_refl _
  | cons e l ih =>
      obtain ⟨k, v⟩ := e
      have hset := querySize_set_le m k v
      refine (ih (Assoc.set m k v)).trans ?_
      rw [querySize_cons]
      omega

/-- Parameters get shorter when they are read again, if they are not plain. -/
theorem querySize_reread (l : List (PyStr × PyStr)) :
    querySize (l.filterMap reread) ≤ querySize l ∧
      (¬PlainParameters l → querySize (l.filterMap reread) < querySize l) := by
  induction l with
  | nil => exact ⟨Nat.le_refl _, fun h => absurd (fun e he => by cases he) h⟩
  | cons e l ih =>
      obtain ⟨k, v⟩ := e
      obtain ⟨hle, hlt⟩ := ih
      by_cases hkey : k = []
      · have hnone : reread (k, v) = none := if_pos hkey
        rw [List.filterMap_cons_none hnone, querySize_cons]
        exact ⟨by omega, fun _ => by omega⟩
      · have hsome : reread (k, v) = some (dropMark k, dropMark v) := if_neg hkey
        obtain ⟨hfirst, hfirst'⟩ := length_encode_dropMark k
        obtain ⟨hsecond, hsecond'⟩ := length_encode_dropMark v
        rw [List.filterMap_cons_some hsome, querySize_cons, querySize_cons, length_parameterText,
          length_parameterText]
        refine ⟨by omega, fun h => ?_⟩
        by_cases hrest : PlainParameters l
        · have hne : dropMark k ≠ k ∨ dropMark v ≠ v := by
            by_contra hboth
            rw [not_or, not_not, not_not] at hboth
            refine h fun f hf => ?_
            rcases List.mem_cons.1 hf with rfl | hf
            · exact ⟨hkey, hboth⟩
            · exact hrest f hf
          rcases hne with hne | hne
          · have := hfirst' hne
            omega
          · have := hsecond' hne
            omega
        · have := hlt hrest
          omega

/-- **A query that is read and written again is the same only if its parameters are plain**, also
where some of them are left out. -/
theorem plain_of_queryText (p : PyStr × PyStr → Bool)
    (h : queryText (((l.filterMap reread).foldl (fun m e => Assoc.set m e.1 e.2) []).filter p) =
      queryText l) : PlainParameters l := by
  by_contra hplain
  have hne : l ≠ [] := by
    rintro rfl
    exact hplain fun e he => by cases he
  have hread := querySize_foldl_le (l.filterMap reread) []
  have hlt := (querySize_reread l).2 hplain
  set read := (l.filterMap reread).foldl (fun m e => Assoc.set m e.1 e.2) []
  have hfilter := querySize_filter_le p read
  have hzero : querySize [] = 0 := rfl
  have hlength := length_queryText hne
  by_cases hempty : read.filter p = []
  · obtain ⟨e, l, rfl⟩ := List.exists_cons_of_ne_nil hne
    rw [hempty] at h
    have hpos : 0 < (parameterText e).length := by
      rw [parameterText, List.length_append, List.length_cons]
      omega
    rw [← h, querySize_cons] at hlength
    change 0 + 1 = _ at hlength
    omega
  · have hlength' := length_queryText hempty
    rw [h] at hlength'
    omega

/-- The parameters that are read have different keys, and can be encoded. -/
theorem queryParameters_eq_some (h : queryParameters query = some m) :
    Assoc.Keyed m ∧ Encodables m := by
  obtain ⟨read, hread, rfl⟩ := Option.map_eq_some_iff.1 h
  have hencodable : Encodables (read.filterMap id) := by
    intro e he
    obtain ⟨o, ho, heq⟩ := List.mem_filterMap.1 he
    obtain ⟨element, -, hparameter⟩ := mem_of_mapM hread ho
    rw [id] at heq
    rw [heq, readParameter] at hparameter
    split at hparameter
    · cases hparameter
    · obtain ⟨key, hkey, hparameter⟩ := Option.bind_eq_some_iff.1 hparameter
      obtain ⟨value, hvalue, hparameter⟩ := Option.map_eq_some_iff.1 hparameter
      obtain rfl := Option.some.inj hparameter
      exact ⟨encodable_of_decodeComponent hkey, encodable_of_decodeComponent hvalue⟩
  have hfold : ∀ (l m : List (PyStr × PyStr)), Encodables l → Assoc.Keyed m → Encodables m →
      Assoc.Keyed (l.foldl (fun m e => Assoc.set m e.1 e.2) m) ∧
        Encodables (l.foldl (fun m e => Assoc.set m e.1 e.2) m) := by
    intro l
    induction l with
    | nil => exact fun m _ hkeyed hm => ⟨hkeyed, hm⟩
    | cons e l ih =>
        intro m hl hkeyed hm
        refine ih _ (fun f hf => hl f (List.mem_cons_of_mem _ hf)) (hkeyed.set e.1 e.2) ?_
        intro f hf
        rcases Assoc.mem_set hf with rfl | hf
        · exact hl e List.mem_cons_self
        · exact hm f hf
  exact hfold _ [] hencodable List.nodup_nil fun e he => by cases he

end Parameters

end Lib
end Liza
