/-
# The start path of a mini app

`clients/flutter/lib/utils/miniapp_start_path.dart`.  `extractStartPath` takes the query and the
fragment of the page that is shown in a mini app, without what the client has put there, and
`composeMiniAppUrl` puts them behind the address of the app when someone else opens it.

What stands in front of the query is read by a function that is left open.  It is always that of the
app (`start_path_returns`).  But the start path is put behind the address as a text: if this has a
query or a fragment of its own, the start path gets into it.  Decoding drops a byte order mark, and
parameters without a key; and two addresses with different ports count as one origin.
-/

import Liza.Client.Handles
import Liza.Lib.QueryText

set_option autoImplicit false

namespace Liza
namespace Client
namespace StartPath

open Lib

/-- `#`. -/
def hash : CodePoint := codePoint '#'

/-- `?`. -/
def questionMark : CodePoint := codePoint '?'

/-- What a URL has in front of its query. -/
structure Head where
  scheme : PyStr
  userInfo : PyStr
  host : PyStr
  port : ℕ
  path : PyStr
deriving DecidableEq

/-- What is read of a `Uri`. -/
structure Uri where
  head : Head
  query : PyStr
  fragment : PyStr
deriving DecidableEq

/-- The parts of the text of a URL. -/
structure Parts where
  head : PyStr
  query : Option PyStr
  fragment : Option PyStr
deriving DecidableEq

/-- A URL is cut at the first `#`, and at the first `?` in front of it. -/
def partsOf (url : PyStr) : Parts :=
  let cut := split1 hash url
  let front := split1 questionMark cut.1
  ⟨front.1, front.2, cut.2⟩

/-- The normal form of a query or of a fragment. -/
def normalize (s : PyStr) : PyStr := normalizeText isQueryChar false s

/-- `_lizaFragmentMarkers`. -/
def lizaFragmentMarkers : List PyStr :=
  ["lizaWebAppData", "theme_params=", "platform=", "payment_result=", "liza_invoice_id="]

/-- `_lizaQueryKeys`. -/
def lizaQueryKeys : List PyStr := ["payment_result", "liza_invoice_id"]

/-- `_stripLizaFragment`. -/
def stripLizaFragment (fragment : PyStr) : PyStr :=
  if lizaFragmentMarkers.any fun marker => marker <:+: fragment then [] else fragment

/-- `cleanQuery`; `none` for a query that cannot be decoded. -/
def cleanQuery (query : PyStr) : Option (List (PyStr × PyStr)) :=
  (queryParameters query).map fun parameters => parameters.filter fun e => e.1 ∉ lizaQueryKeys

/-- `qs`. -/
def queryTail (parameters : List (PyStr × PyStr)) : PyStr :=
  if parameters = [] then [] else questionMark :: queryText parameters

/-- `fr`. -/
def fragmentTail (fragment : PyStr) : PyStr := if fragment = [] then [] else hash :: fragment

section Extract

variable (parseHead : PyStr → Option Head)

/-- `Uri.tryParse`, of anything but a `data:` URL. -/
def tryParse (url : PyStr) : Option Uri :=
  (parseHead (partsOf url).head).map fun head =>
    ⟨head, normalize ((partsOf url).query.getD []), normalize ((partsOf url).fragment.getD [])⟩

/-- `extractStartPath`; `none` where decoding raises an error. -/
def extractStartPath (appUrl currentUrl : PyStr) : Option PyStr :=
  match tryParse parseHead currentUrl, tryParse parseHead appUrl with
  | some cur, some app =>
      if cur.head.scheme ≠ app.head.scheme ∨ cur.head.host ≠ app.head.host then some []
      else
        (cleanQuery cur.query).map fun clean =>
          queryTail clean ++ fragmentTail (stripLizaFragment cur.fragment)
  | _, _ => some []

end Extract

/-- `composeMiniAppUrl`. -/
def composeMiniAppUrl (appUrl startPath : PyStr) (initDataFragment : Option PyStr) : PyStr :=
  let url := appUrl ++ startPath
  match initDataFragment with
  | none => url
  | some fragment =>
      if fragment ≠ [] ∧ hash ∉ startPath then
        url ++ (if hash ∈ url then py "&" else py "#") ++ fragment
      else url

/-- `isSafeStartPath`. -/
def isSafeStartPath (startPath : PyStr) : Bool :=
  let low := startPath.map toLowerCase
  !startPath.isEmpty && utf16Length startPath ≤ 512 &&
    (startPath.head? = some hash || startPath.head? = some questionMark) &&
    !(decide (py "://" <:+: startPath) || (py "//").isPrefixOf startPath ||
      (py "/\\").isPrefixOf startPath) &&
    !((py "javascript:").isPrefixOf low || (py "data:").isPrefixOf low) &&
    startPath.all fun unit => 0x20 ≤ unit.val && unit.val ≠ 0x7F

/-- `Uri.encodeComponent`, which keeps more than a component of a query does. -/
def encodeComponent (s : PyStr) : PyStr :=
  percentEncode (fun c => isUnreserved c || c ∈ py "!*'()") s

/-- `fullFragment` of `_buildInitDataUrl`: the init data of the server, and what the client adds. -/
def fullFragment (initData platform themeParams : PyStr) : PyStr :=
  initData ++ py "&" ++ joinStrs "&"
    ([(py "platform", platform), (py "theme_params", themeParams)].map fun e =>
      encodeComponent e.1 ++ py "=" ++ encodeComponent e.2)

/-! ### Start paths that come back -/

/-- The parameters of the start path are read as they are written: none is without a key, and no key
or value begins with a byte order mark. -/
def PlainStartPath (startPath : PyStr) : Prop :=
  ∀ query ∈ (partsOf startPath).query, ∀ element ∈ query.splitOn ampersand,
    (split1 equalsSign element).1 ≠ [] ∧
      ¬py "%EF%BB%BF" <+: (split1 equalsSign element).1 ∧
      ∀ value ∈ (split1 equalsSign element).2, ¬py "%EF%BB%BF" <+: value

/-- What stands in front of the fragment of a start path. -/
def beforeFragment (startPath : PyStr) : PyStr := (split1 hash startPath).1

/-- **When a start path comes back** out of the URL that is made of it. -/
structure ComesBack (appUrl startPath : PyStr) (initDataFragment : Option PyStr) : Prop where
  /-- An app whose address ends with its path. -/
  plain : (partsOf appUrl).query = none → (partsOf appUrl).fragment = none →
    PlainStartPath startPath
  /-- An app with a query of its own, which goes on with that of the start path. -/
  query : ∀ query ∈ (partsOf appUrl).query, (partsOf appUrl).fragment = none →
    (cleanQuery (normalize (query ++ beforeFragment startPath))).map queryTail =
      some (beforeFragment startPath)
  /-- An app with a fragment of its own, which goes on with the start path. -/
  fragment : ∀ fragment ∈ (partsOf appUrl).fragment, (partsOf startPath).fragment = none ∧
    (initDataFragment ≠ none ∨ stripLizaFragment (normalize (fragment ++ startPath)) = []) ∧
    (cleanQuery (normalize ((partsOf appUrl).query.getD []))).map queryTail = some startPath

/-- The URLs differ in their origin. -/
def OtherOrigin (a b : Head) : Prop := a.scheme ≠ b.scheme ∨ a.host ≠ b.host ∨ a.port ≠ b.port

/-! ### The parts of a URL -/

section Parts

variable {parseHead : PyStr → Option Head} {c : CodePoint} {a b s t url : PyStr}

/-- **What stands in front of the query does not change** when something is put behind a URL that
begins with `?` or with `#`. -/
theorem head_append (hc : c = hash ∨ c = questionMark) :
    (partsOf (url ++ c :: t)).head = (partsOf url).head := by
  have hhead : ∀ url, (partsOf url).head =
      url.takeWhile fun c => decide (c ≠ questionMark) && decide (c ≠ hash) := by
    intro url
    change (split1 questionMark (split1 hash url).1).1 = _
    rw [split1_fst, split1_fst, List.takeWhile_takeWhile]
    simp
  have hstop : (decide (c ≠ questionMark) && decide (c ≠ hash)) = false := by
    rcases hc with rfl | rfl
    · decide
    · decide
  rw [hhead, hhead]
  induction url with
  | nil =>
      rw [List.nil_append, List.takeWhile_cons, hstop]
      rfl
  | cons d url ih =>
      rw [List.cons_append, List.takeWhile_cons, List.takeWhile_cons]
      split
      · rw [ih]
      · rfl

/-! ### What is left of a page -/

theorem stripLizaFragment_cases (s : PyStr) :
    stripLizaFragment s = [] ∨ stripLizaFragment s = s := by
  unfold stripLizaFragment
  split
  · exact .inl rfl
  · exact .inr rfl

theorem stripLizaFragment_idem (s : PyStr) :
    stripLizaFragment (stripLizaFragment s) = stripLizaFragment s := by
  rcases stripLizaFragment_cases s with h | h
  · rw [h]
    decide
  · rw [h, h]

/-- A fragment with a marker is Liza's. -/
theorem stripLizaFragment_of_infix (h : py "platform=" <:+: s) : stripLizaFragment s = [] := by
  refine if_pos (List.any_eq_true.2 ⟨py "platform=", ?_, decide_eq_true h⟩)
  simp [lizaFragmentMarkers]

theorem normal_normalize (s : PyStr) : Normal isQueryChar false (normalize s) :=
  normal_normalizeText (fun _ h => queryChar_ne h) (fun _ h => unreserved_queryChar h) s

theorem normalize_idem (s : PyStr) : normalize (normalize s) = normalize s :=
  (normal_normalize s).self

theorem queryTail_eq_nil {l : List (PyStr × PyStr)} : queryTail l = [] ↔ l = [] := by
  unfold queryTail
  split
  · rename_i h
    simp [h]
  · rename_i h
    simp [h]

theorem hash_notMem_queryTail (l : List (PyStr × PyStr)) : hash ∉ queryTail l := by
  unfold queryTail
  split
  · exact List.not_mem_nil
  · intro hmem
    rcases List.mem_cons.1 hmem with hmem | hmem
    · revert hmem
      decide
    · exact notMem_queryText (by decide) hmem

theorem queryText_of_queryTail {l m : List (PyStr × PyStr)} (h : queryTail l = queryTail m) :
    queryText l = queryText m := by
  by_cases hl : l = []
  · have hm : m = [] := queryTail_eq_nil.1 (h ▸ queryTail_eq_nil.2 hl)
    rw [hl, hm]
  · have hm : m ≠ [] := fun hm => hl (queryTail_eq_nil.1 (h ▸ queryTail_eq_nil.2 hm))
    rw [queryTail, queryTail, if_neg hl, if_neg hm] at h
    exact (List.cons.inj h).2

/-- Two tails are told apart by the first `#`. -/
theorem tails_inj {l m : List (PyStr × PyStr)} (h : queryTail l ++ fragmentTail s =
    queryTail m ++ fragmentTail t) : queryTail l = queryTail m ∧ s = t := by
  have hcut : ∀ (l : List (PyStr × PyStr)) (s : PyStr),
      split1 hash (queryTail l ++ fragmentTail s) =
        (queryTail l, if s = [] then none else some s) := by
    intro l s
    unfold fragmentTail
    split
    · rw [List.append_nil]
      exact split1_of_notMem (hash_notMem_queryTail l)
    · exact split1_append (hash_notMem_queryTail l)
  have hsame := hcut l s
  rw [h, hcut] at hsame
  obtain ⟨htail, hfragment⟩ := Prod.mk.inj hsame
  refine ⟨htail.symm, ?_⟩
  by_cases hs : s = []
  · by_cases ht : t = []
    · rw [hs, ht]
    · rw [if_pos hs, if_neg ht] at hfragment
      cases hfragment
  · by_cases ht : t = []
    · rw [if_neg hs, if_pos ht] at hfragment
      cases hfragment
    · rw [if_neg hs, if_neg ht] at hfragment
      exact (Option.some.inj hfragment).symm

end Parts

/-! ### Composed URLs -/

section Compose

variable {parseHead : PyStr → Option Head} {appUrl current startPath url frag f : PyStr}
  {initDataFragment : Option PyStr} {l : List (PyStr × PyStr)}

/-- A start path is made of parameters that are not Liza's and of a fragment in normal form. -/
structure Tails (startPath : PyStr) (l : List (PyStr × PyStr)) (frag : PyStr) : Prop where
  eq : startPath = queryTail l ++ fragmentTail frag
  keyed : Assoc.Keyed l
  encodables : Encodables l
  own : ∀ e ∈ l, e.1 ∉ lizaQueryKeys
  normal : normalize frag = frag
  stripped : stripLizaFragment frag = frag

/-- What `extractStartPath` returns. -/
theorem extractStartPath_eq_some (h : extractStartPath parseHead appUrl current = some startPath)
    (hne : startPath ≠ []) :
    ∃ app l frag, tryParse parseHead appUrl = some app ∧ Tails startPath l frag := by
  unfold extractStartPath at h
  split at h
  · rename_i cur app hcur happ
    split at h
    · exact absurd (Option.some.inj h).symm hne
    · obtain ⟨l, hclean, rfl⟩ := Option.map_eq_some_iff.1 h
      obtain ⟨m, hm, rfl⟩ := Option.map_eq_some_iff.1 hclean
      obtain ⟨hkeyed, hencodable⟩ := queryParameters_eq_some hm
      refine ⟨app, _, _, happ, rfl, hkeyed.sublist (List.filter_sublist.map _),
        fun e he => hencodable e (List.mem_of_mem_filter he), fun e he => ?_, ?_,
        stripLizaFragment_idem _⟩
      · simpa using (List.mem_filter.1 he).2
      · obtain ⟨head, -, rfl⟩ := Option.map_eq_some_iff.1 hcur
        rcases stripLizaFragment_cases (normalize ((partsOf current).fragment.getD [])) with
          hstrip | hstrip
        · rw [hstrip]
          rfl
        · rw [hstrip]
          exact normalize_idem _
  · exact absurd (Option.some.inj h).symm hne

theorem Tails.first (h : Tails startPath l frag) (hne : startPath ≠ []) :
    ∃ c rest, startPath = c :: rest ∧ (c = hash ∨ c = questionMark) := by
  have heq := h.eq
  by_cases hl : l = []
  · by_cases hfrag : frag = []
    · rw [hl, hfrag] at heq
      exact absurd heq hne
    · rw [hl, fragmentTail, if_neg hfrag] at heq
      exact ⟨hash, frag, heq, .inl rfl⟩
  · rw [queryTail, if_neg hl] at heq
    exact ⟨questionMark, _, heq, .inr rfl⟩

/-- The fragment of a start path is behind its first `#`. -/
theorem Tails.cut (h : Tails startPath l frag) :
    split1 hash startPath = (queryTail l, if frag = [] then none else some frag) := by
  rw [h.eq, fragmentTail]
  split
  · rw [List.append_nil]
    exact split1_of_notMem (hash_notMem_queryTail l)
  · exact split1_append (hash_notMem_queryTail l)

theorem Tails.hash_mem (h : Tails startPath l frag) : hash ∈ startPath ↔ frag ≠ [] := by
  have hcut := h.cut
  by_cases hfrag : frag = []
  · rw [if_pos hfrag] at hcut
    exact iff_of_false (notMem_of_split1 (congrArg Prod.snd hcut)) (not_not_intro hfrag)
  · refine iff_of_true ?_ hfrag
    rw [h.eq, fragmentTail, if_neg hfrag]
    exact List.mem_append_right _ List.mem_cons_self

/-- The init data that the client builds is seen by its platform, wherever it stands. -/
theorem stripLizaFragment_fullFragment (s initData platform themeParams : PyStr) :
    stripLizaFragment (normalize (s ++ fullFragment initData platform themeParams)) = [] := by
  have hplain : Normal isQueryChar false (py "platform=") :=
    normal_plain fun c hc => by
      have hall : (py "platform=").all (fun c => isQueryChar c && c ≠ percent) = true := by
        decide +kernel
      simpa using List.all_eq_true.1 hall c hc
  have hname : encodeComponent "platform" ++ py "=" = py "platform=" := by decide +kernel
  set rest := encodeComponent platform ++ py "&" ++
    (encodeComponent "theme_params" ++ py "=" ++ encodeComponent themeParams) with hrest
  have hfull : fullFragment initData platform themeParams =
      initData ++ ampersand :: (py "platform=" ++ rest) := by
    rw [hrest, ← hname]
    simp only [fullFragment, joinStrs, List.map_cons, List.map_nil, List.append_assoc]
    rfl
  refine stripLizaFragment_of_infix ?_
  rw [hfull, ← List.append_assoc, normalize,
    normalizeText_append_cons (by decide) (by decide), hplain, ← List.append_assoc]
  exact List.infix_append' _ _ _

theorem fullFragment_ne_nil (initData platform themeParams : PyStr) :
    fullFragment initData platform themeParams ≠ [] := by
  intro h
  have hsign := (List.append_eq_nil_iff.1 (List.append_eq_nil_iff.1 h).1).2
  exact absurd hsign (by decide)

theorem ne_nil_of_built (hbuilt : ∀ f ∈ initDataFragment, ∃ initData platform themeParams,
    f = fullFragment initData platform themeParams) : ∀ f ∈ initDataFragment, f ≠ [] := by
  intro f hf
  obtain ⟨initData, platform, themeParams, rfl⟩ := hbuilt f hf
  exact fullFragment_ne_nil initData platform themeParams

/-- The fragment that is put behind a start path. -/
def appended (appUrl startPath : PyStr) (initDataFragment : Option PyStr) : PyStr :=
  if hash ∈ startPath then []
  else initDataFragment.elim [] fun f => (if hash ∈ appUrl then py "&" else py "#") ++ f

theorem composeMiniAppUrl_eq (hne : ∀ f ∈ initDataFragment, f ≠ []) :
    composeMiniAppUrl appUrl startPath initDataFragment =
      appUrl ++ (startPath ++ appended appUrl startPath initDataFragment) := by
  unfold composeMiniAppUrl appended
  cases initDataFragment with
  | none =>
      by_cases hhash : hash ∈ startPath
      · rw [if_pos hhash, List.append_nil]
      · rw [if_neg hhash]
        exact congrArg (appUrl ++ ·) (List.append_nil startPath).symm
  | some f =>
      dsimp only
      by_cases hhash : hash ∈ startPath
      · rw [if_neg (by simp [hhash]), if_pos hhash, List.append_nil]
      · have hmem : hash ∈ appUrl ++ startPath ↔ hash ∈ appUrl := by simp [hhash]
        rw [if_pos ⟨hne f rfl, hhash⟩, if_neg hhash]
        simp only [hmem, Option.elim_some, List.append_assoc]

/-- What is in front of the query of an app stays. -/
theorem tryParse_compose (htails : Tails startPath l frag) (hne : startPath ≠ [])
    (hfragment : ∀ f ∈ initDataFragment, f ≠ []) :
    (tryParse parseHead (composeMiniAppUrl appUrl startPath initDataFragment)).map Uri.head =
      (tryParse parseHead appUrl).map Uri.head := by
  obtain ⟨c, rest, heq, hc⟩ := htails.first hne
  rw [tryParse, tryParse, Option.map_map, Option.map_map, composeMiniAppUrl_eq hfragment]
  set rest' := appended appUrl startPath initDataFragment
  rw [heq, List.cons_append, head_append hc]
  rfl

/-- What is extracted from a URL with the same head. -/
theorem extractStartPath_of_head {app : Uri} (happ : tryParse parseHead appUrl = some app)
    (hhead : (tryParse parseHead url).map Uri.head = (tryParse parseHead appUrl).map Uri.head) :
    extractStartPath parseHead appUrl url =
      (cleanQuery (normalize ((partsOf url).query.getD []))).map fun clean =>
        queryTail clean ++
          fragmentTail (stripLizaFragment (normalize ((partsOf url).fragment.getD []))) := by
  rw [happ, Option.map_some] at hhead
  obtain ⟨u, hu, hsame⟩ := Option.map_eq_some_iff.1 hhead
  obtain ⟨head, hparse, hhead'⟩ := Option.map_eq_some_iff.1 hu
  rw [extractStartPath, hu, happ]
  dsimp only
  rw [hsame, if_neg (by simp), ← hhead']

/-- The start path says which of its parameters are plain. -/
theorem Tails.plain (h : Tails startPath l frag) :
    PlainStartPath startPath ↔ PlainParameters l := by
  have hfirst : (partsOf startPath).query = (split1 questionMark (queryTail l)).2 := by
    change (split1 questionMark (split1 hash startPath).1).2 = _
    rw [h.cut]
  by_cases hl : l = []
  · rw [hl] at hfirst
    refine iff_of_true (fun query hquery => ?_) (fun e he => ?_)
    · rw [hfirst] at hquery
      cases hquery
    · rw [hl] at he
      cases he
  · have hquery : (partsOf startPath).query = some (queryText l) := by
      rw [hfirst, queryTail, if_neg hl]
      rfl
    have heach : ∀ e ∈ l, (encodeQueryComponent e.1 ≠ [] ∧
        ¬py "%EF%BB%BF" <+: encodeQueryComponent e.1 ∧
        ¬py "%EF%BB%BF" <+: encodeQueryComponent e.2) ↔
        (e.1 ≠ [] ∧ dropMark e.1 = e.1 ∧ dropMark e.2 = e.2) := by
      intro e he
      obtain ⟨hkey, hvalue⟩ := h.encodables e he
      simp only [ne_eq, encodeQueryComponent_eq_nil, mark_prefix_iff hkey, not_not,
        mark_prefix_iff hvalue]
    unfold PlainStartPath
    simp only [hquery, Option.mem_some_iff, forall_eq', splitOn_queryText hl, List.mem_map,
      forall_exists_index, and_imp, forall_apply_eq_imp_iff₂, split1_parameterText]
    exact forall₂_congr heach

/-- **The parameters of a start path are read again** exactly if they are plain. -/
theorem Tails.cleanQuery (h : Tails startPath l frag) :
    (StartPath.cleanQuery (queryText l)).map queryTail = some (queryTail l) ↔
      PlainParameters l := by
  constructor
  · intro hread
    rw [StartPath.cleanQuery, queryParameters_queryText h.encodables] at hread
    exact plain_of_queryText _ (queryText_of_queryTail (Option.some.inj hread))
  · intro hplain
    rw [StartPath.cleanQuery, queryParameters_plain h.keyed h.encodables hplain, Option.map_some,
      List.filter_eq_self.2 fun e he => by simpa using h.own e he]
    rfl

theorem map_tails_eq_some {o : Option (List (PyStr × PyStr))} {s : PyStr} :
    o.map (fun clean => queryTail clean ++ fragmentTail s) =
        some (queryTail l ++ fragmentTail frag) ↔
      o.map queryTail = some (queryTail l) ∧ s = frag := by
  constructor
  · intro h
    obtain ⟨clean, rfl, heq⟩ := Option.map_eq_some_iff.1 h
    obtain ⟨htail, hs⟩ := tails_inj heq
    exact ⟨congrArg some htail, hs⟩
  · rintro ⟨h, rfl⟩
    obtain ⟨clean, rfl, heq⟩ := Option.map_eq_some_iff.1 h
    rw [Option.map_some, heq]

/-- Behind an address without a fragment a start path is cut as it is. -/
theorem Tails.cut_compose (h : Tails startPath l frag) (happ : hash ∉ appUrl)
    (hbuilt : ∀ f ∈ initDataFragment, ∃ initData platform themeParams,
      f = fullFragment initData platform themeParams) :
    ∃ back, split1 hash (appUrl ++ (startPath ++ appended appUrl startPath initDataFragment)) =
        (appUrl ++ queryTail l, back) ∧ stripLizaFragment (normalize (back.getD [])) = frag := by
  have hfree : hash ∉ appUrl ++ queryTail l := fun hmem =>
    (List.mem_append.1 hmem).elim happ (hash_notMem_queryTail l)
  by_cases hfrag : frag = []
  · have hhash : hash ∉ startPath := fun hmem => h.hash_mem.1 hmem hfrag
    have hpath : startPath = queryTail l := by
      rw [h.eq, hfrag]
      exact List.append_nil _
    rw [appended, if_neg hhash, hpath, hfrag]
    cases initDataFragment with
    | none =>
        refine ⟨none, ?_, by decide⟩
        rw [Option.elim_none, List.append_nil]
        exact split1_of_notMem hfree
    | some f =>
        obtain ⟨initData, platform, themeParams, rfl⟩ := hbuilt f rfl
        refine ⟨some (fullFragment initData platform themeParams), ?_, ?_⟩
        · rw [Option.elim_some, if_neg happ, ← List.append_assoc]
          exact split1_append hfree
        · exact stripLizaFragment_fullFragment [] initData platform themeParams
  · refine ⟨some frag, ?_, ?_⟩
    · rw [appended, if_pos (h.hash_mem.2 hfrag), List.append_nil, h.eq, fragmentTail,
        if_neg hfrag, ← List.append_assoc]
      exact split1_append hfree
    · rw [Option.getD_some, h.normal, h.stripped]

/-- A start path comes back from behind an address without a fragment. -/
theorem Tails.comesBack_of_none (h : Tails startPath l frag) (hne : startPath ≠ []) {app : Uri}
    (happ : tryParse parseHead appUrl = some app) (hown : (partsOf appUrl).fragment = none)
    (hbuilt : ∀ f ∈ initDataFragment, ∃ initData platform themeParams,
      f = fullFragment initData platform themeParams) :
    extractStartPath parseHead appUrl (composeMiniAppUrl appUrl startPath initDataFragment) =
        some startPath ↔ ComesBack appUrl startPath initDataFragment := by
  have hnonempty := ne_nil_of_built hbuilt
  have hhash : hash ∉ appUrl := notMem_of_split1 hown
  obtain ⟨back, hcut, hback⟩ := h.cut_compose hhash hbuilt
  rw [← composeMiniAppUrl_eq hnonempty] at hcut
  rw [extractStartPath_of_head happ (tryParse_compose h hne hnonempty)]
  set url := composeMiniAppUrl appUrl startPath initDataFragment
  have hfragment : (partsOf url).fragment = back := congrArg Prod.snd hcut
  have hquery : (partsOf url).query = (split1 questionMark (appUrl ++ queryTail l)).2 := by
    change (split1 questionMark (split1 hash url).1).2 = _
    rw [hcut]
  have hbefore : beforeFragment startPath = queryTail l := by
    rw [beforeFragment, h.cut]
  have happQuery : (partsOf appUrl).query = (split1 questionMark appUrl).2 := by
    change (split1 questionMark (split1 hash appUrl).1).2 = _
    rw [split1_of_notMem hhash]
  rw [hfragment, hback, h.eq, map_tails_eq_some, ← h.eq, and_iff_left rfl, hquery]
  cases hq : (partsOf appUrl).query with
  | none =>
      have hmark : questionMark ∉ appUrl := notMem_of_split1 (happQuery.symm.trans hq)
      have htext : normalize ((split1 questionMark (appUrl ++ queryTail l)).2.getD []) =
          queryText l := by
        rw [queryTail]
        split
        · rename_i hl
          rw [List.append_nil, split1_of_notMem hmark, hl]
          rfl
        · rw [split1_append hmark]
          exact (normal_queryText l).self
      rw [htext, h.cleanQuery, ← h.plain]
      constructor
      · refine fun hplain => ⟨fun _ _ => hplain, fun q hmem => ?_, fun f hmem => ?_⟩
        · rw [hq] at hmem
          cases hmem
        · rw [hown] at hmem
          cases hmem
      · exact fun hback => hback.plain hq hown
  | some q =>
      rw [split1_append_of_some (happQuery.symm.trans hq), Option.getD_some, ← hbefore]
      constructor
      · refine fun hread => ⟨fun hnone _ => ?_, fun q' hmem _ => ?_, fun f hmem => ?_⟩
        · rw [hq] at hnone
          cases hnone
        · rw [hq] at hmem
          exact Option.some.inj hmem ▸ hread
        · rw [hown] at hmem
          cases hmem
      · exact fun hback => hback.query q hq hown

/-- A fragment with another one behind it is not that one. -/
theorem normalize_append_hash_ne (hnormal : normalize frag = frag) (s : PyStr) :
    normalize (s ++ hash :: frag) ≠ frag := by
  intro h
  have hsign : normalizeChar isQueryChar false hash = py "%23" := by decide +kernel
  rw [normalize, normalizeText_append_cons (by decide) (by decide), hsign] at h
  have hlength := congrArg List.length h
  rw [List.length_append, List.length_append, show normalizeText isQueryChar false frag = frag
    from hnormal, show (py "%23").length = 3 by decide] at hlength
  omega

/-- A start path comes back from behind an address with a fragment. -/
theorem Tails.comesBack_of_some (h : Tails startPath l frag) (hne : startPath ≠ []) {app : Uri}
    (happ : tryParse parseHead appUrl = some app) (hown : (partsOf appUrl).fragment = some f)
    (hbuilt : ∀ f ∈ initDataFragment, ∃ initData platform themeParams,
      f = fullFragment initData platform themeParams) :
    extractStartPath parseHead appUrl (composeMiniAppUrl appUrl startPath initDataFragment) =
        some startPath ↔ ComesBack appUrl startPath initDataFragment := by
  have hnonempty := ne_nil_of_built hbuilt
  have hcut : ∀ t, partsOf (appUrl ++ t) =
      ⟨(partsOf appUrl).head, (partsOf appUrl).query, some (f ++ t)⟩ := by
    intro t
    unfold partsOf
    rw [split1_append_of_some hown]
  have hpath : (partsOf startPath).fragment = if frag = [] then none else some frag := by
    change (split1 hash startPath).2 = _
    rw [h.cut]
  rw [extractStartPath_of_head happ (tryParse_compose h hne hnonempty),
    composeMiniAppUrl_eq hnonempty, hcut, Option.getD_some]
  have hiff : ComesBack appUrl startPath initDataFragment ↔ (partsOf startPath).fragment = none ∧
      (initDataFragment ≠ none ∨ stripLizaFragment (normalize (f ++ startPath)) = []) ∧
      (StartPath.cleanQuery (normalize ((partsOf appUrl).query.getD []))).map queryTail =
        some startPath := by
    constructor
    · exact fun hback => hback.fragment f hown
    · refine fun hback => ⟨fun _ hnone => ?_, fun q _ hnone => ?_, fun f' hmem => ?_⟩
      · rw [hown] at hnone
        cases hnone
      · rw [hown] at hnone
        cases hnone
      · rw [hown] at hmem
        exact Option.some.inj hmem ▸ hback
  rw [hiff, hpath]
  by_cases hfrag : frag = []
  · have hhash : hash ∉ startPath := fun hmem => h.hash_mem.1 hmem hfrag
    have htail : startPath = queryTail l ++ fragmentTail [] := hfrag ▸ h.eq
    have hquery : startPath = queryTail l := htail.trans (List.append_nil _)
    have hstrip : stripLizaFragment (normalize (f ++
        (startPath ++ appended appUrl startPath initDataFragment))) = [] ↔
        (initDataFragment ≠ none ∨ stripLizaFragment (normalize (f ++ startPath)) = []) := by
      rw [appended, if_neg hhash]
      cases initDataFragment with
      | none => simp
      | some f' =>
          obtain ⟨initData, platform, themeParams, rfl⟩ := hbuilt f' rfl
          refine iff_of_true ?_ (.inl (Option.some_ne_none _))
          rw [Option.elim_some, ← List.append_assoc, ← List.append_assoc]
          exact stripLizaFragment_fullFragment _ initData platform themeParams
    rw [if_pos hfrag, ← hstrip]
    conv_lhs => rw [htail]
    rw [map_tails_eq_some, ← htail, ← hquery]
    simp only [true_and]
    exact and_comm
  · rw [if_neg hfrag]
    refine iff_of_false (fun hread => ?_) (fun hback => (Option.some_ne_none frag) hback.1)
    rw [appended, if_pos (h.hash_mem.2 hfrag), List.append_nil] at hread
    rw [h.eq] at hread
    have hstrip := (map_tails_eq_some.1 hread).2
    rw [fragmentTail, if_neg hfrag, ← List.append_assoc] at hstrip
    rcases stripLizaFragment_cases (normalize (f ++ queryTail l ++ hash :: frag)) with hcase | hcase
    · exact hfrag (hstrip.symm.trans hcase)
    · exact normalize_append_hash_ne h.normal _ (hcase.symm.trans hstrip)

end Compose

/-- **When a start path comes back, and which URLs count as another origin.** -/
theorem start_path_returns (parseHead : PyStr → Option Head) (appUrl : PyStr) :
    (∀ current startPath initDataFragment,
      extractStartPath parseHead appUrl current = some startPath →
      isSafeStartPath startPath = true →
      (∀ f ∈ initDataFragment, ∃ initData platform themeParams,
        f = fullFragment initData platform themeParams) →
      (tryParse parseHead (composeMiniAppUrl appUrl startPath initDataFragment)).map Uri.head =
          (tryParse parseHead appUrl).map Uri.head ∧
        (extractStartPath parseHead appUrl (composeMiniAppUrl appUrl startPath initDataFragment) =
          some startPath ↔ ComesBack appUrl startPath initDataFragment)) ∧
    ∀ other app page, tryParse parseHead appUrl = some app → tryParse parseHead other = some page →
      OtherOrigin page.head app.head →
      (extractStartPath parseHead appUrl other = some [] ↔
        page.head.scheme ≠ app.head.scheme ∨ page.head.host ≠ app.head.host ∨
          cleanQuery page.query = some [] ∧ stripLizaFragment page.fragment = []) := by
  constructor
  · intro current startPath initDataFragment hextract hsafe hbuilt
    have hne : startPath ≠ [] := by
      rintro rfl
      revert hsafe
      decide
    obtain ⟨app, l, frag, happ, htails⟩ := extractStartPath_eq_some hextract hne
    constructor
    · exact tryParse_compose htails hne (ne_nil_of_built hbuilt)
    · cases hown : (partsOf appUrl).fragment with
      | none => exact htails.comesBack_of_none hne happ hown hbuilt
      | some f => exact htails.comesBack_of_some hne happ hown hbuilt
  · intro other app page happ hpage _
    rw [extractStartPath, hpage, happ]
    dsimp only
    by_cases horigin : page.head.scheme ≠ app.head.scheme ∨ page.head.host ≠ app.head.host
    · rw [if_pos horigin]
      exact iff_of_true rfl (horigin.elim .inl fun hhost => .inr (.inl hhost))
    · have htails := @map_tails_eq_some [] [] (cleanQuery page.query)
        (stripLizaFragment page.fragment)
      have hclean : (cleanQuery page.query).map queryTail = some (queryTail []) ↔
          cleanQuery page.query = some [] := by
        cases cleanQuery page.query with
        | none => exact iff_of_false (fun h => by cases h) fun h => by cases h
        | some clean =>
            rw [Option.map_some, Option.some_inj, Option.some_inj]
            exact queryTail_eq_nil
      rw [if_neg horigin]
      rw [not_or] at horigin
      simp only [horigin.1, horigin.2, false_or]
      exact htails.trans (and_congr_left fun _ => hclean)

/-- Reads `https://host:port/path`. -/
def httpsHead (head : PyStr) : Option Head :=
  if (py "https://").isPrefixOf head then
    let rest := head.drop 8
    let authority := split1 (codePoint ':') (rest.takeWhile (· ≠ slash))
    let port := authority.2.elim 443 (List.foldl (fun n c => 10 * n + (c.val - 0x30)) 0)
    some ⟨"https", [], authority.1, port, rest.dropWhile (· ≠ slash)⟩
  else none

/-- A page with parameters and a route comes back, and the page of a payment does not count. -/
theorem start_path_returns_shop :
    ComesBack "https://shop.example:8443/app" "?ref=a+b#!/p/1"
        (some (fullFragment "user=1" "macos" "\x7b\x7d")) ∧
      extractStartPath httpsHead "https://shop.example:8443/app" "https://pay.example/?order=1" =
        some [] := by
  obtain ⟨hreturns, horigin⟩ := start_path_returns httpsHead "https://shop.example:8443/app"
  constructor
  · exact (hreturns "https://shop.example:8443/app?ref=a%20b#!/p/1" "?ref=a+b#!/p/1"
      (some (fullFragment "user=1" "macos" "\x7b\x7d")) (by decide +kernel) (by decide +kernel)
      fun f hf => ⟨_, _, _, (Option.mem_some_iff.1 hf).symm⟩).2.1 (by decide +kernel)
  · exact (horigin "https://pay.example/?order=1"
      ⟨⟨"https", [], "shop.example", 8443, "/app"⟩, [], []⟩
      ⟨⟨"https", [], "pay.example", 443, "/"⟩, "order=1", []⟩
      (by decide +kernel) (by decide +kernel) (.inr (.inl (by decide)))).2 (.inr (.inl (by decide)))

/-- **An app with a query of its own does not get its start path back**, and a page on another port
counts as one of the app. -/
theorem start_path_lost :
    (extractStartPath httpsHead "https://shop.example/app?lang=ru"
          "https://shop.example/app?lang=ru" = some (py "?lang=ru") ∧
        isSafeStartPath "?lang=ru" = true ∧
        extractStartPath httpsHead "https://shop.example/app?lang=ru"
          (composeMiniAppUrl "https://shop.example/app?lang=ru" "?lang=ru" none) =
            some (py "?lang=ru%3Flang%3Dru")) ∧
      ((tryParse httpsHead "https://shop.example/app").map (·.head.port) = some 443 ∧
        (tryParse httpsHead "https://shop.example:8443/?token=1").map (·.head.port) = some 8443 ∧
        extractStartPath httpsHead "https://shop.example/app"
          "https://shop.example:8443/?token=1" = some (py "?token=1")) := by
  refine ⟨⟨?_, ?_, ?_⟩, ?_, ?_, ?_⟩
  all_goals decide +kernel

end StartPath
end Client
end Liza
