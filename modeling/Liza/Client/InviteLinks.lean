/-
# Links to stories, invites, channels and users

`clients/flutter/lib/utils/invite_link_parser.dart`.  A link names a story, an invite, a channel
or a user; `resolveInternalRoute` makes a route of the app of it, and `webInitialLocation` one of
the address of the web client.  The router parses the route again, as `parseWeb…` do.

A handle is checked, and an invite code in the address of the web client is, too.  Other codes
come from a decoded segment of the path and are put into the route as they are.  So a code with a
slash or a question mark in it makes another route of it, and one that begins with a byte order
mark another code.  The route of a link is right exactly when its code stands for itself
(`route_intact_iff`).
-/

import Liza.Client.Handles
import Liza.Lib.UriText

set_option autoImplicit false

namespace Liza
namespace Client
namespace InviteLinks

open Lib

/-- What is read of a `Uri`.  The segments have been decoded. -/
structure Uri where
  scheme : PyStr
  host : PyStr
  pathSegments : List PyStr
  decoded : ∀ s ∈ pathSegments, encodable s = true

/-- `[a-z0-9]`. -/
def isLowerAlnum (c : CodePoint) : Bool := isLetter c || (0x30 ≤ c.val && c.val ≤ 0x39)

/-- `[A-Za-z0-9]`. -/
def isAlnum (c : CodePoint) : Bool := isLowerAlnum c || (0x41 ≤ c.val && c.val ≤ 0x5A)

/-- `_looksLikeInviteCode`: `^[a-z0-9]+_[A-Za-z0-9]{8,}$`. -/
def looksLikeInviteCode (value : PyStr) : Bool :=
  let parts := split1 (codePoint '_') value
  !parts.1.isEmpty && parts.1.all isLowerAlnum &&
    parts.2.any fun slug => 8 ≤ slug.length && slug.all isAlnum

/-- `_shortLinkHost`. -/
def shortLinkHost : PyStr := "me.liza.ru"

/-- `_legacyShortLinkHost`. -/
def legacyShortLinkHost : PyStr := "liza.laba.pro"

/-- `_isShortLinkHost`. -/
def isShortLinkHost (host : PyStr) : Bool := host = shortLinkHost || host = legacyShortLinkHost

/-- A link of two segments on a host of short links. -/
def Uri.isShortLink (uri : Uri) : Bool :=
  (uri.scheme = py "https" || uri.scheme = py "http") && isShortLinkHost uri.host &&
    uri.pathSegments.length = 2

/-- The first segment. -/
def Uri.first (uri : Uri) : PyStr := uri.pathSegments.getD 0 []

/-- The second segment. -/
def Uri.second (uri : Uri) : PyStr := uri.pathSegments.getD 1 []

/-! ### Links -/

/-- `parseInviteCode`. -/
def parseInviteCode (uri : Uri) : Option PyStr :=
  if uri.scheme = py "liza" && uri.host = py "invite" && uri.pathSegments ≠ [] then some uri.first
  else if uri.isShortLink then
    if uri.first = py "i" then some uri.second
    else if uri.host = legacyShortLinkHost && uri.first ≠ py ".well-known" && uri.first ≠ py "s" &&
        uri.first ≠ py "c" && uri.first ≠ py "u" && looksLikeInviteCode uri.second then
      some uri.second
    else none
  else none

/-- `parseStoryLinkCode`. -/
def parseStoryLinkCode (uri : Uri) : Option PyStr :=
  if uri.scheme = py "liza" && uri.host = py "story" && uri.pathSegments ≠ [] then some uri.first
  else if uri.isShortLink && uri.first = py "s" then some uri.second
  else none

/-- A handle that is checked. -/
def checkedHandle (raw : PyStr) : Option PyStr :=
  let handle := normalizeChannelHandle raw
  if validateChannelHandle handle = none then some handle else none

/-- The handle of a link, by the host of the scheme `liza` and the first segment of a short link. -/
def parseHandle (host kind : PyStr) (uri : Uri) : Option PyStr :=
  if uri.scheme = py "liza" && uri.host = host && uri.pathSegments.length = 1 then
    checkedHandle uri.first
  else if uri.isShortLink && uri.first = kind then checkedHandle uri.second
  else none

/-- `parseChannelHandle`. -/
def parseChannelHandle : Uri → Option PyStr := parseHandle "channel" "c"

/-- `parseUserHandle`. -/
def parseUserHandle : Uri → Option PyStr := parseHandle "user" "u"

/-! ### The address of the web client -/

/-- `parseWebInviteCode`. -/
def parseWebInviteCode (uri : Uri) : Option PyStr :=
  if uri.pathSegments.length < 2 || uri.first ≠ py "i" then none
  else if looksLikeInviteCode uri.second then some uri.second
  else none

/-- `parseWebStoryCode`. -/
def parseWebStoryCode (uri : Uri) : Option PyStr :=
  if uri.pathSegments.length < 2 || uri.first ≠ py "s" then none
  else if uri.second.isEmpty then none
  else some uri.second

/-- The handle of an address. -/
def parseWebHandle (kind : PyStr) (uri : Uri) : Option PyStr :=
  if uri.pathSegments.length < 2 || uri.first ≠ kind then none else checkedHandle uri.second

/-- `parseWebChannelHandle`. -/
def parseWebChannelHandle : Uri → Option PyStr := parseWebHandle "c"

/-- `parseWebUserHandle`. -/
def parseWebUserHandle : Uri → Option PyStr := parseWebHandle "u"

/-! ### Routes -/

/-- What a route leads to. -/
inductive Kind where
  | story
  | invite
  | channel
  | user
deriving DecidableEq

/-- The first segment of the route. -/
def Kind.name : Kind → PyStr
  | .story => "s"
  | .invite => "i"
  | .channel => "c"
  | .user => "u"

/-- The parser of the route. -/
def Kind.parseWeb : Kind → Uri → Option PyStr
  | .story => parseWebStoryCode
  | .invite => parseWebInviteCode
  | .channel => parseWebChannelHandle
  | .user => parseWebUserHandle

/-- `'/s/$code'`, and the like. -/
def Kind.route (kind : Kind) (code : PyStr) : PyStr := py "/" ++ kind.name ++ py "/" ++ code

/-- `resolveInternalRoute`. -/
def resolveInternalRoute (uri : Uri) : Option PyStr :=
  ((parseStoryLinkCode uri).map Kind.story.route).or <|
  ((parseInviteCode uri).map Kind.invite.route).or <|
  ((parseChannelHandle uri).map Kind.channel.route).or <|
  (parseUserHandle uri).map Kind.user.route

/-- `webInitialLocation`. -/
def webInitialLocation (base : Uri) : Option PyStr :=
  ((parseWebStoryCode base).map Kind.story.route).or <|
  ((parseWebInviteCode base).map Kind.invite.route).or <|
  ((parseWebChannelHandle base).map Kind.channel.route).or <|
  (parseWebUserHandle base).map Kind.user.route

/-- `Uri.parse` of a route, where its segments can be read. -/
def parseRoute (route : PyStr) : Option Uri :=
  (pathSegments (referencePath route)).pmap
    (fun segments hdecoded => ⟨[], [], segments, hdecoded⟩) fun _ => encodable_pathSegments

/-- **A route is intact**: it has one segment behind its kind, and the parser of the kind reads the
code that stands in it. -/
def Intact (route : PyStr) : Prop :=
  ∃ (kind : Kind) (code : PyStr) (uri : Uri), route = kind.route code ∧
    parseRoute route = some uri ∧ uri.pathSegments.length = 2 ∧ kind.parseWeb uri = some code

/-! ### Where a link names its code -/

/-- The segment with the code: behind the kind, or behind the host of the scheme `liza`. -/
def Uri.codeSegment (uri : Uri) : PyStr := if uri.scheme = py "liza" then uri.first else uri.second

/-- The link is one to a story. -/
def Uri.namesStory (uri : Uri) : Prop :=
  if uri.scheme = py "liza" then uri.host = py "story" else uri.first = py "s"

/-- The link is one to an invite: of the short links, those that name no other kind. -/
def Uri.namesInvite (uri : Uri) : Prop :=
  if uri.scheme = py "liza" then uri.host = py "invite"
  else uri.first ≠ py "s" ∧ uri.first ≠ py "c" ∧ uri.first ≠ py "u"

/-- The code of a link stands for itself in a route: the one of a story as a segment that is not
empty, the one of an invite as a code of the auth-proxy. -/
def Uri.LinkSafe (uri : Uri) : Prop :=
  (uri.namesStory → uri.codeSegment ≠ [] ∧ Verbatim uri.codeSegment) ∧
    (uri.namesInvite → looksLikeInviteCode uri.codeSegment = true)

/-- The code of a story in the address of the web client stands for itself in a route. -/
def Uri.WebSafe (uri : Uri) : Prop := uri.first = py "s" → Verbatim uri.second

/-! ### Names -/

theorem isTrimmed_toLowerCase (c : CodePoint) : isTrimmed (toLowerCase c) = isTrimmed c := by
  unfold toLowerCase
  split
  · rename_i h
    have hval : (Fin.ofNat 0x110000 (c.val + 0x20)).val = c.val + 0x20 :=
      Nat.mod_eq_of_lt (by omega)
    refine Bool.eq_iff_iff.2 ?_
    simp only [isTrimmed, hval, Bool.or_eq_true, Bool.and_eq_true, decide_eq_true_eq]
    omega
  split
  · rename_i h
    have hc : c = 0x212A := Fin.ext h
    rw [hc]
    decide
  split
  · rename_i h
    have hc : c = 0x0130 := Fin.ext h
    rw [hc]
    decide
  · rfl

theorem toLowerCase_idem (c : CodePoint) : toLowerCase (toLowerCase c) = toLowerCase c := by
  have hk : toLowerCase (codePoint 'k') = codePoint 'k' := by decide
  have hi : toLowerCase (codePoint 'i') = codePoint 'i' := by decide
  by_cases h : 0x41 ≤ c.val ∧ c.val ≤ 0x5A
  · have hval : (Fin.ofNat 0x110000 (c.val + 0x20)).val = c.val + 0x20 :=
      Nat.mod_eq_of_lt (by omega)
    rw [toLowerCase, toLowerCase, if_pos h, if_neg (by rw [hval]; omega),
      if_neg (by rw [hval]; omega), if_neg (by rw [hval]; omega)]
  · rw [show toLowerCase c = _ from if_neg h]
    split
    · exact hk
    split
    · exact hi
    · rename_i hK hI
      rw [toLowerCase, if_neg h, if_neg hK, if_neg hI]

theorem trim_map (s : PyStr) : trim (s.map toLowerCase) = (trim s).map toLowerCase := by
  have hcomp : isTrimmed ∘ toLowerCase = isTrimmed := funext isTrimmed_toLowerCase
  simp only [trim, List.dropWhile_map, hcomp, ← List.map_reverse]

/-- A normal handle stays as it is. -/
theorem normalizeChannelHandle_idem (raw : PyStr) :
    normalizeChannelHandle (normalizeChannelHandle raw) = normalizeChannelHandle raw := by
  have htrim : trim (trim raw) = trim raw := by
    change ((trim raw).dropWhile isTrimmed).rdropWhile isTrimmed = trim raw
    rw [show (trim raw).dropWhile isTrimmed = trim raw from dropWhile_trimmed isTrimmed raw]
    exact List.rdropWhile_idempotent _ _
  have hlower : toLowerCase ∘ toLowerCase = toLowerCase := funext toLowerCase_idem
  rw [normalizeChannelHandle, normalizeChannelHandle, trim_map, htrim, List.map_map, hlower]

section Names

variable {raw code handle : PyStr} {c : CodePoint}

theorem isLowerAlnum_unreserved (h : isLowerAlnum c = true) : isUnreserved c = true := by
  simp only [isLowerAlnum, isLetter, Bool.or_eq_true, Bool.and_eq_true, decide_eq_true_eq] at h
  simp only [isUnreserved, decide_eq_true_eq]
  omega

theorem isAlnum_unreserved (h : isAlnum c = true) : isUnreserved c = true := by
  rcases Bool.or_eq_true_iff.1 h with h | h
  · exact isLowerAlnum_unreserved h
  · simp only [Bool.and_eq_true, decide_eq_true_eq] at h
    exact decide_eq_true (.inl h)

theorem isHandleChar_unreserved (h : isHandleChar c = true) : isUnreserved c = true := by
  rcases Bool.or_eq_true_iff.1 h with h | h
  · exact isLowerAlnum_unreserved h
  · have hc : c = codePoint '_' := Fin.ext (of_decide_eq_true h)
    rw [hc]
    decide

/-- **An invite code is a plain name.** -/
theorem plainName_of_looksLikeInviteCode (h : looksLikeInviteCode code = true) :
    PlainName code := by
  unfold looksLikeInviteCode at h
  simp only [Bool.and_eq_true, Bool.not_eq_true', List.isEmpty_eq_false_iff] at h
  obtain ⟨⟨hne, hfront⟩, hslug⟩ := h
  cases hsecond : (split1 (codePoint '_') code).2 with
  | none =>
      rw [hsecond] at hslug
      cases hslug
  | some slug =>
      rw [hsecond] at hslug
      obtain ⟨-, hslug⟩ := Bool.and_eq_true_iff.1 hslug
      have hcode := eq_of_split1 (Prod.ext rfl hsecond)
      have hmem : codePoint '_' ∈ code := by
        rw [hcode]
        exact List.mem_append_right _ List.mem_cons_self
      refine ⟨fun c hc => ?_, List.ne_nil_of_mem hmem, ?_, ?_⟩
      · rw [hcode] at hc
        rcases List.mem_append.1 hc with hc | hc
        · exact isLowerAlnum_unreserved (List.all_eq_true.1 hfront c hc)
        rcases List.mem_cons.1 hc with rfl | hc
        · decide
        · exact isAlnum_unreserved (List.all_eq_true.1 hslug c hc)
      · rintro rfl
        revert hmem
        decide
      · rintro rfl
        revert hmem
        decide

/-- **A checked handle is a plain name**, and it is checked as the same handle. -/
theorem checkedHandle_eq_some (h : checkedHandle raw = some handle) :
    PlainName handle ∧ checkedHandle handle = some handle := by
  obtain ⟨hvalid, h⟩ := Option.ite_none_right_eq_some.1 h
  obtain rfl := Option.some.inj h
  have hidem := normalizeChannelHandle_idem raw
  constructor
  · simp only [validateChannelHandle, hidem] at hvalid
    have hre : handleRe (normalizeChannelHandle raw) = true := by
      by_contra hre
      rw [if_neg hre] at hvalid
      revert hvalid
      split
      · exact fun h => (by cases h)
      split
      · exact fun h => (by cases h)
      split
      · exact fun h => (by cases h)
      · exact fun h => (by cases h)
    revert hre
    generalize normalizeChannelHandle raw = handle
    intro hre
    cases handle with
    | nil => cases hre
    | cons c rest =>
        simp only [handleRe, Bool.and_eq_true] at hre
        obtain ⟨⟨⟨hc, hrest⟩, -⟩, -⟩ := hre
        have hchar : isHandleChar c = true := by simp [isHandleChar, hc]
        refine ⟨fun d hd => ?_, List.cons_ne_nil c rest, ?_, ?_⟩
        · rcases List.mem_cons.1 hd with rfl | hd
          · exact isHandleChar_unreserved hchar
          · exact isHandleChar_unreserved (List.all_eq_true.1 hrest d hd)
        · intro heq
          rw [(List.cons.inj heq).1] at hc
          revert hc
          decide
        · intro heq
          rw [(List.cons.inj heq).1] at hc
          revert hc
          decide
  · rw [checkedHandle, hidem, if_pos hvalid]

end Names

/-! ### Routes that are read again -/

section Routes

variable {kind : Kind} {code : PyStr} {uri : Uri} {route : PyStr}

theorem plainName_name (kind : Kind) : PlainName kind.name := by
  cases kind
  all_goals exact ⟨List.all_eq_true.1 (by decide), by decide, by decide, by decide⟩

theorem route_eq (kind : Kind) (code : PyStr) : kind.route code = twoSegments kind.name code := by
  cases kind <;> rfl

theorem name_inj {kind' : Kind} (h : kind.name = kind'.name) : kind = kind' := by
  revert h
  cases kind <;> cases kind' <;> decide

theorem route_inj {kind' : Kind} {code' : PyStr} (h : kind.route code = kind'.route code') :
    kind = kind' ∧ code = code' := by
  rw [route_eq, route_eq] at h
  obtain ⟨hname, hcode⟩ := append_cons_inj (plainName_name kind).slash_notMem
    (plainName_name kind').slash_notMem (List.cons.inj h).2
  exact ⟨name_inj hname, hcode⟩

theorem parseRoute_eq_some (h : parseRoute route = some uri) :
    pathSegments (referencePath route) = some uri.pathSegments := by
  obtain ⟨segments, hmem, hsegments, rfl⟩ := Option.pmap_eq_some_iff.1 h
  exact hsegments

theorem intact_route : Intact (kind.route code) ↔ ∃ uri, parseRoute (kind.route code) = some uri ∧
    uri.pathSegments.length = 2 ∧ kind.parseWeb uri = some code := by
  constructor
  · rintro ⟨kind', code', uri, hroute, h⟩
    obtain ⟨rfl, rfl⟩ := route_inj hroute
    exact ⟨uri, h⟩
  · rintro ⟨uri, h⟩
    exact ⟨kind, code, uri, rfl, h⟩

theorem first_second {first second : PyStr} (h : uri.pathSegments = [first, second]) :
    uri.first = first ∧ uri.second = second := by
  rw [Uri.first, Uri.second, h]
  exact ⟨rfl, rfl⟩

/-- A verbatim code makes an intact route, where its parser takes it. -/
theorem intact_of_verbatim (h : Verbatim code) (hencodable : encodable code = true)
    (hparse : ∀ uri : Uri, uri.pathSegments = [kind.name, code] → kind.parseWeb uri = some code) :
    Intact (kind.route code) := by
  have hsegments := h.pathSegments (plainName_name kind) hencodable
  rw [← route_eq] at hsegments
  refine intact_route.2 ⟨⟨[], [], [kind.name, code], encodable_pathSegments hsegments⟩, ?_, rfl,
    hparse _ rfl⟩
  exact Option.pmap_eq_some_iff.2 ⟨_, _, hsegments, rfl⟩

/-- The parser of stories takes every code. -/
theorem intact_story (hencodable : encodable code = true) :
    Intact (Kind.story.route code) ↔ code ≠ [] ∧ Verbatim code := by
  constructor
  · intro h
    obtain ⟨uri, hparse, hlength, hcode⟩ := intact_route.1 h
    have hsegments := parseRoute_eq_some hparse
    obtain ⟨first, second, hpath⟩ := List.length_eq_two.1 hlength
    have hparts := first_second hpath
    rw [Kind.parseWeb, parseWebStoryCode, hparts.1, hparts.2] at hcode
    obtain ⟨hcond, hcode⟩ := Option.ite_none_left_eq_some.1 hcode
    obtain ⟨hne, hcode⟩ := Option.ite_none_left_eq_some.1 hcode
    obtain rfl := Option.some.inj hcode
    have hfirst : first = py "s" := by
      by_contra hfirst
      exact hcond (by simpa using Or.inr hfirst)
    have hne : second ≠ [] := by simpa using hne
    rw [route_eq, hpath, hfirst] at hsegments
    exact ⟨hne, verbatim_of_pathSegments (plainName_name .story) hne hsegments⟩
  · rintro ⟨hne, hverbatim⟩
    refine intact_of_verbatim hverbatim hencodable fun uri hpath => ?_
    obtain ⟨hfirst, hsecond⟩ := first_second hpath
    rw [Kind.parseWeb, parseWebStoryCode, hfirst, hsecond, hpath]
    simpa [Kind.name] using hne

/-- The parser of invites takes what looks like an invite code. -/
theorem intact_invite :
    Intact (Kind.invite.route code) ↔ looksLikeInviteCode code = true := by
  constructor
  · intro h
    obtain ⟨uri, -, -, hcode⟩ := intact_route.1 h
    obtain ⟨-, hcode⟩ := Option.ite_none_left_eq_some.1 hcode
    obtain ⟨hlooks, hcode⟩ := Option.ite_none_right_eq_some.1 hcode
    exact Option.some.inj hcode ▸ hlooks
  · intro h
    have hname := plainName_of_looksLikeInviteCode h
    refine intact_of_verbatim hname.verbatim hname.encodable fun uri hpath => ?_
    obtain ⟨hfirst, hsecond⟩ := first_second hpath
    rw [Kind.parseWeb, parseWebInviteCode, hfirst, hsecond, hpath, if_pos h]
    rfl

/-- The route of a checked handle is intact. -/
theorem intact_handle {raw : PyStr} (h : checkedHandle raw = some code)
    (hkind : kind.parseWeb = parseWebHandle kind.name) : Intact (kind.route code) := by
  obtain ⟨hname, hchecked⟩ := checkedHandle_eq_some h
  refine intact_of_verbatim hname.verbatim hname.encodable fun uri hpath => ?_
  obtain ⟨hfirst, hsecond⟩ := first_second hpath
  rw [hkind, parseWebHandle, hfirst, hsecond, hpath, hchecked]
  simp

/-! ### The routes of links -/

theorem encodable_getD (uri : Uri) (n : ℕ) : encodable (uri.pathSegments.getD n []) = true := by
  rw [List.getD_eq_getElem?_getD]
  cases h : uri.pathSegments[n]? with
  | none => rfl
  | some s => exact uri.decoded s (List.mem_of_getElem? h)

theorem encodable_codeSegment (uri : Uri) : encodable uri.codeSegment = true := by
  unfold Uri.codeSegment
  split
  · exact encodable_getD uri 0
  · exact encodable_getD uri 1

theorem ne_liza_of_isShortLink (h : uri.isShortLink = true) : uri.scheme ≠ py "liza" := by
  simp only [Uri.isShortLink, Bool.and_eq_true, Bool.or_eq_true, decide_eq_true_eq] at h
  rcases h.1.1 with hscheme | hscheme
  · simp [hscheme]
  · simp [hscheme]

/-- What `parseStoryLinkCode` takes. -/
theorem parseStoryLinkCode_eq_some (h : parseStoryLinkCode uri = some code) :
    uri.namesStory ∧ ¬uri.namesInvite ∧ code = uri.codeSegment := by
  unfold parseStoryLinkCode at h
  split at h
  · rename_i hliza
    simp only [Bool.and_eq_true, decide_eq_true_eq] at hliza
    simp [Uri.namesStory, Uri.namesInvite, Uri.codeSegment, hliza.1.1, hliza.1.2,
      ← Option.some.inj h]
  · obtain ⟨hshort, h⟩ := Option.ite_none_right_eq_some.1 h
    simp only [Bool.and_eq_true, decide_eq_true_eq] at hshort
    simp [Uri.namesStory, Uri.namesInvite, Uri.codeSegment, ne_liza_of_isShortLink hshort.1,
      hshort.2, ← Option.some.inj h]

/-- What `parseInviteCode` takes. -/
theorem parseInviteCode_eq_some (h : parseInviteCode uri = some code) :
    ¬uri.namesStory ∧ uri.namesInvite ∧ code = uri.codeSegment := by
  unfold parseInviteCode at h
  split at h
  · rename_i hliza
    simp only [Bool.and_eq_true, decide_eq_true_eq] at hliza
    simp [Uri.namesStory, Uri.namesInvite, Uri.codeSegment, hliza.1.1, hliza.1.2,
      ← Option.some.inj h]
  · obtain ⟨hshort, h⟩ := Option.ite_none_right_eq_some.1 h
    have hscheme := ne_liza_of_isShortLink hshort
    split at h
    · rename_i hfirst
      simp [Uri.namesStory, Uri.namesInvite, Uri.codeSegment, hscheme, hfirst,
        ← Option.some.inj h]
    · obtain ⟨hslug, h⟩ := Option.ite_none_right_eq_some.1 h
      simp only [Bool.and_eq_true, decide_eq_true_eq] at hslug
      obtain ⟨⟨⟨⟨-, hs⟩, hc⟩, hu⟩, -⟩ := hslug
      simp [Uri.namesStory, Uri.namesInvite, Uri.codeSegment, hscheme, hs, hc, hu,
        ← Option.some.inj h]

/-- What the parsers of handles take. -/
theorem parseHandle_eq_some {host name : PyStr} (h : parseHandle host name uri = some code)
    (hhost : host ≠ py "story" ∧ host ≠ py "invite") (hname : name = py "c" ∨ name = py "u") :
    ¬uri.namesStory ∧ ¬uri.namesInvite ∧ ∃ raw, checkedHandle raw = some code := by
  unfold parseHandle at h
  split at h
  · rename_i hliza
    simp only [Bool.and_eq_true, decide_eq_true_eq] at hliza
    simp only [Uri.namesStory, Uri.namesInvite, hliza.1.1, hliza.1.2, if_true]
    exact ⟨hhost.1, hhost.2, _, h⟩
  · obtain ⟨hshort, h⟩ := Option.ite_none_right_eq_some.1 h
    simp only [Bool.and_eq_true, decide_eq_true_eq] at hshort
    refine ⟨?_, ?_, _, h⟩
    · rcases hname with rfl | rfl
      all_goals simp [Uri.namesStory, ne_liza_of_isShortLink hshort.1, hshort.2]
    · rcases hname with rfl | rfl
      all_goals simp [Uri.namesInvite, ne_liza_of_isShortLink hshort.1, hshort.2]

/-- The four ways to a route. -/
theorem or_routes {story invite channel user : Option PyStr}
    (h : ((story.map Kind.story.route).or <| (invite.map Kind.invite.route).or <|
      (channel.map Kind.channel.route).or <| user.map Kind.user.route) = some route) :
    (∃ code, story = some code ∧ route = Kind.story.route code) ∨
      (∃ code, invite = some code ∧ route = Kind.invite.route code) ∨
      (∃ code, channel = some code ∧ route = Kind.channel.route code) ∨
      ∃ code, user = some code ∧ route = Kind.user.route code := by
  have hmap : ∀ {kind : Kind} {o : Option PyStr}, o.map kind.route = some route →
      ∃ code, o = some code ∧ route = kind.route code := by
    intro kind o h
    obtain ⟨code, hcode, rfl⟩ := Option.map_eq_some_iff.1 h
    exact ⟨code, hcode, rfl⟩
  rcases Option.or_eq_some_iff.1 h with h | ⟨-, h⟩
  · exact .inl (hmap h)
  rcases Option.or_eq_some_iff.1 h with h | ⟨-, h⟩
  · exact .inr (.inl (hmap h))
  rcases Option.or_eq_some_iff.1 h with h | ⟨-, h⟩
  · exact .inr (.inr (.inl (hmap h)))
  · exact .inr (.inr (.inr (hmap h)))

/-- The route of a link is intact exactly when its code stands for itself. -/
theorem intact_resolveInternalRoute (h : resolveInternalRoute uri = some route) :
    Intact route ↔ uri.LinkSafe := by
  rcases or_routes h with ⟨code, hcode, rfl⟩ | ⟨code, hcode, rfl⟩ | ⟨code, hcode, rfl⟩ |
    ⟨code, hcode, rfl⟩
  · obtain ⟨hstory, hinvite, rfl⟩ := parseStoryLinkCode_eq_some hcode
    rw [intact_story (encodable_codeSegment uri)]
    simp [Uri.LinkSafe, hstory, hinvite]
  · obtain ⟨hstory, hinvite, rfl⟩ := parseInviteCode_eq_some hcode
    rw [intact_invite]
    simp [Uri.LinkSafe, hstory, hinvite]
  · obtain ⟨hstory, hinvite, raw, hraw⟩ :=
      parseHandle_eq_some hcode (by decide) (.inl rfl)
    exact iff_of_true (intact_handle hraw rfl) ⟨fun h => absurd h hstory, fun h => absurd h hinvite⟩
  · obtain ⟨hstory, hinvite, raw, hraw⟩ :=
      parseHandle_eq_some hcode (by decide) (.inr rfl)
    exact iff_of_true (intact_handle hraw rfl) ⟨fun h => absurd h hstory, fun h => absurd h hinvite⟩

/-- The first segment that a parser of addresses asks for. -/
theorem first_of_parseWeb (kind : Kind) (h : kind.parseWeb uri = some code) :
    uri.first = kind.name := by
  by_contra hfirst
  cases kind
  all_goals
    obtain ⟨hcond, -⟩ := Option.ite_none_left_eq_some.1 h
    exact hcond (Bool.or_eq_true_iff.2 (.inr (decide_eq_true hfirst)))

/-- The route of an address is intact exactly when the code of a story in it stands for itself. -/
theorem intact_webInitialLocation (h : webInitialLocation uri = some route) :
    Intact route ↔ uri.WebSafe := by
  have hother : ∀ (kind : Kind) {code : PyStr}, kind.parseWeb uri = some code → kind ≠ .story →
      uri.first ≠ py "s" := by
    intro kind code hcode hkind
    rw [first_of_parseWeb kind hcode]
    cases kind
    · exact absurd rfl hkind
    all_goals decide
  rcases or_routes h with ⟨code, hcode, rfl⟩ | ⟨code, hcode, rfl⟩ | ⟨code, hcode, rfl⟩ |
    ⟨code, hcode, rfl⟩
  · have hfirst : uri.first = py "s" := first_of_parseWeb .story hcode
    obtain ⟨-, hcode⟩ := Option.ite_none_left_eq_some.1 hcode
    obtain ⟨hne, hcode⟩ := Option.ite_none_left_eq_some.1 hcode
    obtain rfl := Option.some.inj hcode
    refine (intact_story (encodable_getD uri 1)).trans ?_
    have hne : uri.second ≠ [] := by simpa using hne
    exact ⟨fun h _ => h.2, fun h => ⟨hne, h hfirst⟩⟩
  · refine iff_of_true ?_ fun h => absurd h (hother .invite hcode (by decide))
    obtain ⟨-, hcode⟩ := Option.ite_none_left_eq_some.1 hcode
    obtain ⟨hlooks, hcode⟩ := Option.ite_none_right_eq_some.1 hcode
    exact intact_invite.2 (Option.some.inj hcode ▸ hlooks)
  · refine iff_of_true ?_ fun h => absurd h (hother .channel hcode (by decide))
    obtain ⟨-, hcode⟩ := Option.ite_none_left_eq_some.1 hcode
    exact intact_handle hcode rfl
  · refine iff_of_true ?_ fun h => absurd h (hother .user hcode (by decide))
    obtain ⟨-, hcode⟩ := Option.ite_none_left_eq_some.1 hcode
    exact intact_handle hcode rfl

end Routes

/-- **The routes of links and of addresses are intact** exactly when their codes stand for
themselves. -/
theorem route_intact_iff (uri : Uri) (route : PyStr) :
    (resolveInternalRoute uri = some route → (Intact route ↔ uri.LinkSafe)) ∧
      (webInitialLocation uri = some route → (Intact route ↔ uri.WebSafe)) :=
  ⟨intact_resolveInternalRoute, intact_webInitialLocation⟩

/-- The link `https://me.liza.ru/s/Zx81_q`. -/
def storyLink : Uri where
  scheme := "https"
  host := "me.liza.ru"
  pathSegments := ["s", "Zx81_q"]
  decoded := by decide

theorem storyLink_intact :
    (storyLink.LinkSafe ∧ Intact "/s/Zx81_q") ∧ storyLink.WebSafe ∧ Intact "/s/Zx81_q" := by
  have hname : PlainName "Zx81_q" :=
    ⟨List.all_eq_true.1 (by decide), by decide, by decide, by decide⟩
  have hinvite : ¬storyLink.namesInvite := fun h =>
    absurd rfl (show storyLink.first ≠ py "s" ∧ _ from h).1
  have hlink : storyLink.LinkSafe :=
    ⟨fun _ => ⟨hname.nonempty, hname.verbatim⟩, fun h => absurd h hinvite⟩
  have hweb : storyLink.WebSafe := fun _ => hname.verbatim
  obtain ⟨hresolved, hinitial⟩ := route_intact_iff storyLink "/s/Zx81_q"
  exact ⟨⟨hlink, (hresolved (by decide)).2 hlink⟩,
    hweb, (hinitial (by decide +kernel)).2 hweb⟩

/-- The link `https://me.liza.ru/s/a%2Fb`. -/
def slashLink : Uri where
  scheme := "https"
  host := "me.liza.ru"
  pathSegments := ["s", "a/b"]
  decoded := by decide

/-- An escaped slash leads to a route of three segments. -/
theorem slashLink_not_intact :
    pathSegments "/s/a%2Fb" = some slashLink.pathSegments ∧
      resolveInternalRoute slashLink = some (py "/s/a/b") ∧
      pathSegments (referencePath "/s/a/b") = some [py "s", py "a", py "b"] ∧
      ¬Intact "/s/a/b" := by
  refine ⟨by decide +kernel, by decide +kernel, by decide +kernel, fun h => ?_⟩
  obtain ⟨-, hverbatim⟩ := (@intact_story (py "a/b") (by decide)).1 h
  exact hverbatim.noDelimiter slash (by decide) (by decide)

end InviteLinks
end Client
end Liza
