/-
# Who may use the internal endpoints

`_check_access` of `ValidateNonceResource` and of `RegistryRefreshResource`
(`servers/synapse/modules/miniapp/__init__.py`): a request is let in with the shared token, or from
the private network.  The network is told by the first characters of the address, with the
`::ffff:` of an IPv4-mapped address taken away.

Two things go wrong.  A token header with anything but ASCII in it raises, in `decode` or in
`compare_digest`.  And `172.` is more than `172.16.0.0/12`: `checkAccess_lawful_iff` says for which
requests the two endpoints do what they are for.
-/

import Liza.Lib.IpText
import Liza.MiniApp.Transport

set_option autoImplicit false

namespace Liza
namespace MiniApp

open Lib

/-! ### The check -/

/-- What `_check_access` may raise. -/
inductive AccessError where
  | unicodeDecodeError
  | typeError
deriving DecidableEq

/-- What `getHeader` returns: `bytes`, or a `str`. -/
inductive HeaderValue where
  | bytes (b : List UInt8)
  | str (s : PyStr)
deriving DecidableEq

/-- What is looked at of a request: the header `X-MiniApp-Token`, and the `host` of the client's
address, if it has one. -/
structure AccessRequest where
  tokenHeader : Option HeaderValue
  clientHost : Option PyStr
deriving DecidableEq

/-- The text of a header. -/
def HeaderValue.text : HeaderValue → Except AccessError PyStr
  | .bytes b =>
      match decodeUtf8 b with
      | some s => .ok s
      | none => .error .unicodeDecodeError
  | .str s => .ok s

/-- `s.isascii()`. -/
def isAscii (s : PyStr) : Bool := s.all fun c => c.val < 0x80

/-- What `compareDigest` raises on. -/
def orTypeError : Option Bool → Except AccessError Bool
  | some right => .ok right
  | none => .error .typeError

/-- The header has the token. -/
def tokenMatches (internalToken : Option PyStr) (header : Option HeaderValue) :
    Except AccessError Bool :=
  match internalToken, header with
  | some token, some header =>
      if token = [] then .ok false
      else do
        let given ← header.text
        orTypeError (compareDigest given token)
  | _, _ => .ok false

/-- The host without the mark of an IPv4-mapped address. -/
def unmappedHost (host : PyStr) : PyStr :=
  if py "::ffff:" <+: host then host.drop (py "::ffff:").length else host

/-- The hosts that are let in by name. -/
def localHosts : List PyStr := ["127.0.0.1", "::1", "localhost"]

/-- The beginnings of the hosts that are let in. -/
def privateStarts : List PyStr := ["172.", "10.", "192.168."]

/-- The host is let in. -/
def hostAllowed (host : PyStr) : Bool :=
  unmappedHost host ∈ localHosts || privateStarts.any fun start => start <+: unmappedHost host

/-- `_check_access`, with the token that the resource was given. -/
def checkAccess (internalToken : Option PyStr) (request : AccessRequest) :
    Except AccessError Bool := do
  let tokenRight ← tokenMatches internalToken request.tokenHeader
  if tokenRight then .ok true else .ok (request.clientHost.any hostAllowed)

/-- `ValidateNonceResource`, as far as the check reads it. -/
structure ValidateNonceResource where
  internalToken : Option PyStr

/-- `ValidateNonceResource._check_access`. -/
def ValidateNonceResource.checkAccess (r : ValidateNonceResource) (request : AccessRequest) :
    Except AccessError Bool := MiniApp.checkAccess r.internalToken request

/-- `RegistryRefreshResource`, as far as the check reads it. -/
structure RegistryRefreshResource where
  internalToken : Option PyStr

/-- `RegistryRefreshResource._check_access`. -/
def RegistryRefreshResource.checkAccess (r : RegistryRefreshResource) (request : AccessRequest) :
    Except AccessError Bool := MiniApp.checkAccess r.internalToken request

/-! ### What it is for -/

/-- A network: its address, and the number of bits its addresses have in common. -/
abbrev Network := IPv4 × ℕ

/-- `127.0.0.0/8` -/
def loopback : Network := (⟨127, 0, 0, 0⟩, 8)

/-- `172.16.0.0/12` -/
def private172 : Network := (⟨172, 16, 0, 0⟩, 12)

/-- The loopback network, and the private networks. -/
def internalNetworks : List Network :=
  [loopback, (⟨10, 0, 0, 0⟩, 8), private172, (⟨192, 168, 0, 0⟩, 16)]

/-- `::1` -/
def loopback6 : IPv6 := ⟨[0, 0, 0, 0, 0, 0, 0, 1], rfl⟩

/-- The address is loopback or lies in a private network. -/
def internalAddress (a : IpAddress) : Bool :=
  a = .v6 loopback6 || a.ipv4.any fun b => internalNetworks.any fun net => b.within net.1 net.2

/-- The host is the text of such an address. -/
def internalHost (host : PyStr) : Bool := (parseIp host).any internalAddress

/-- The header has the token. -/
def RightToken (internalToken : Option PyStr) (request : AccessRequest) : Prop :=
  ∃ token header, internalToken = some token ∧ token ≠ [] ∧ request.tokenHeader = some header ∧
    header.text = .ok token

/-- The endpoints give the same answer, none of them raises, and without the token they let in
internal addresses only. -/
structure Lawful (internalToken : Option PyStr) (request : AccessRequest) : Prop where
  same : ValidateNonceResource.checkAccess ⟨internalToken⟩ request =
    RegistryRefreshResource.checkAccess ⟨internalToken⟩ request
  answers : ∃ answer, ValidateNonceResource.checkAccess ⟨internalToken⟩ request = .ok answer
  internal : ValidateNonceResource.checkAccess ⟨internalToken⟩ request = .ok true →
    RightToken internalToken request ∨
      ∃ host, request.clientHost = some host ∧ internalHost host = true

/-! ### When it is that -/

/-- The header has ASCII only. -/
def HeaderValue.isAscii : HeaderValue → Bool
  | .bytes b => b.all fun x => x.toNat < 0x80
  | .str s => MiniApp.isAscii s

/-- A token and a header that are compared have ASCII only. -/
def Comparable (internalToken : Option PyStr) (request : AccessRequest) : Prop :=
  ∀ token header, internalToken = some token → token ≠ [] → request.tokenHeader = some header →
    isAscii token = true ∧ header.isAscii = true

/-- An address that is written with `172.` in front, behind `::ffff:` or not, lies in
`172.16.0.0/12`; and a host that is no address is none of those that are let in. -/
structure NarrowHost (host : PyStr) : Prop where
  narrow : ∀ a, parseIp host = some a → py "172." <+: unmappedHost host →
    a.ipv4.any (fun b => b.within private172.1 private172.2) = true
  address : parseIp host = none →
    unmappedHost host ∉ localHosts ∧ ∀ start ∈ privateStarts, ¬start <+: unmappedHost host

section Hosts

variable {host start t : PyStr} {a : IpAddress} {b : IPv4}

/-- What is left of a host is the host, or stands behind the mark. -/
theorem unmappedHost_cases (host : PyStr) :
    unmappedHost host = host ∨ host = mappedMark ++ unmappedHost host := by
  unfold unmappedHost
  split
  · rename_i hstart
    obtain ⟨t, rfl⟩ := hstart
    right
    rw [List.drop_left]
    rfl
  · exact .inl rfl

/-- An address that is let in for its beginning is an IPv4 address with that beginning. -/
theorem ipv4_of_start (hmem : start ∈ privateStarts) (hstart : start <+: unmappedHost host)
    (h : parseIp host = some a) : ∃ u b, parseIPv4 (start ++ u) = some b ∧ a.ipv4 = some b := by
  have hfree : ∀ s ∈ privateStarts, colon ∉ s ∧ percent ∉ s ∧ dot ∈ s := by decide
  obtain ⟨hcolon, hpercent, hdot⟩ := hfree start hmem
  obtain ⟨t, ht⟩ := hstart
  rcases unmappedHost_cases host with hsame | hmapped
  · rw [← hsame, ← ht] at h
    exact ipv4_of_dotted hcolon hpercent hdot h
  · rw [hmapped, ← ht] at h
    exact ipv4_of_mapped hcolon hpercent hdot h

theorem first_of_start {x : PyStr} {n : Fin 256} (hx : dot ∉ x) (hn : parseOctet x = some n)
    (h : parseIPv4 (x ++ dot :: t) = some b) : b.first = n :=
  Option.some.inj ((first_of_parseIPv4 hx h).symm.trans hn)

theorem first_172 (h : parseIPv4 (py "172." ++ t) = some b) : b.first = 172 :=
  first_of_start (x := py "172") (by decide) (by decide) h

/-- The addresses of `172.0.0.0/8` that are internal. -/
theorem internal_172 (h : b.first = 172) (hb : a.ipv4 = some b) :
    internalAddress a = b.within private172.1 private172.2 := by
  have hv6 : a ≠ .v6 loopback6 := by
    rintro rfl
    cases hb
  have h127 : b.within loopback.1 loopback.2 = false :=
    Bool.eq_false_iff.2 fun hin => by simp [loopback, IPv4.within_eight, h] at hin
  have h10 : b.within ⟨10, 0, 0, 0⟩ 8 = false :=
    Bool.eq_false_iff.2 fun hin => by simp [IPv4.within_eight, h] at hin
  have h192 : b.within ⟨192, 168, 0, 0⟩ 16 = false :=
    Bool.eq_false_iff.2 fun hin => by simp [IPv4.within_sixteen, h] at hin
  rw [internalAddress, decide_eq_false hv6, Bool.false_or, hb, Option.any_some]
  simp only [internalNetworks, List.any_cons, List.any_nil, h127, h10, h192, Bool.false_or,
    Bool.or_false]

theorem internal_10 (h : parseIPv4 (py "10." ++ t) = some b) (hb : a.ipv4 = some b) :
    internalAddress a = true := by
  have hfirst : b.first = 10 := first_of_start (x := py "10") (by decide) (by decide) h
  have hin : b.within ⟨10, 0, 0, 0⟩ 8 = true := IPv4.within_eight.2 hfirst
  rw [internalAddress, hb]
  simp [internalNetworks, hin]

theorem internal_192 (h : parseIPv4 (py "192.168." ++ t) = some b) (hb : a.ipv4 = some b) :
    internalAddress a = true := by
  have hfirst : b.first = 192 := first_of_start (x := py "192") (by decide) (by decide) h
  have hsecond : b.second = 168 := Option.some.inj
    ((second_of_parseIPv4 (x := py "192") (y := py "168") (by decide) (by decide) h).symm.trans
      (by decide))
  have hin : b.within ⟨192, 168, 0, 0⟩ 16 = true := IPv4.within_sixteen.2 ⟨hfirst, hsecond⟩
  rw [internalAddress, hb]
  simp [internalNetworks, hin]

/-- The hosts that are let in by name are internal, or no addresses. -/
theorem internal_localHosts (h : unmappedHost host ∈ localHosts) :
    (parseIp host).all internalAddress = true := by
  have hnames : ∀ name ∈ localHosts, (parseIp name).all internalAddress = true ∧
      (parseIp (mappedMark ++ name)).all internalAddress = true := by decide
  rcases unmappedHost_cases host with hsame | hmapped
  · rw [← hsame]
    exact (hnames _ h).1
  · rw [hmapped]
    exact (hnames _ h).2

/-- **Which hosts are let in only if they are internal.** -/
theorem narrowHost_iff :
    (hostAllowed host = true → internalHost host = true) ↔ NarrowHost host := by
  constructor
  · intro h
    refine ⟨fun a ha hstart => ?_, fun hnone => ?_⟩
    · have hallowed : hostAllowed host = true := by
        rw [hostAllowed, Bool.or_eq_true, List.any_eq_true]
        exact .inr ⟨"172.", by decide, decide_eq_true hstart⟩
      obtain ⟨u, b, hu, hb⟩ := ipv4_of_start (by decide) hstart ha
      have hinternal := h hallowed
      rw [internalHost, ha, Option.any_some, internal_172 (first_172 hu) hb] at hinternal
      rw [hb, Option.any_some]
      exact hinternal
    · have hrefused : hostAllowed host = false := Bool.eq_false_iff.2 fun hallowed => by
        have hinternal := h hallowed
        rw [internalHost, hnone] at hinternal
        cases hinternal
      rw [hostAllowed, Bool.or_eq_false_iff, decide_eq_false_iff_not, List.any_eq_false] at hrefused
      exact ⟨hrefused.1, fun start hmem => by simpa using hrefused.2 start hmem⟩
  · intro h hallowed
    rw [hostAllowed, Bool.or_eq_true, decide_eq_true_eq, List.any_eq_true] at hallowed
    cases hparse : parseIp host with
    | none =>
        obtain ⟨hnames, hstarts⟩ := h.address hparse
        rcases hallowed with hname | ⟨start, hmem, hstart⟩
        · exact absurd hname hnames
        · exact absurd (of_decide_eq_true hstart) (hstarts start hmem)
    | some a =>
        rw [internalHost, hparse, Option.any_some]
        rcases hallowed with hname | ⟨start, hmem, hstart⟩
        · have hinternal := internal_localHosts hname
          rwa [hparse, Option.all_some] at hinternal
        · have hstart := of_decide_eq_true hstart
          obtain ⟨u, b, hu, hb⟩ := ipv4_of_start hmem hstart hparse
          simp only [privateStarts, List.mem_cons, List.not_mem_nil, or_false] at hmem
          rcases hmem with rfl | rfl | rfl
          · have hnarrow := h.narrow a hparse hstart
            rw [hb, Option.any_some] at hnarrow
            rw [internal_172 (first_172 hu) hb, hnarrow]
          · exact internal_10 hu hb
          · exact internal_192 hu hb

end Hosts

section Requests

variable {internalToken : Option PyStr} {request : AccessRequest} {token : PyStr}
  {header : HeaderValue}

/-- A header that has ASCII only is read, and as ASCII. -/
theorem isAscii_iff_text : header.isAscii = true ↔ ∃ s, header.text = .ok s ∧ isAscii s = true := by
  cases header with
  | str s =>
      constructor
      · exact fun h => ⟨s, rfl, h⟩
      · rintro ⟨t, ht, hascii⟩
        obtain rfl := Except.ok.inj ht
        exact hascii
  | bytes b =>
      simp only [HeaderValue.isAscii, HeaderValue.text, isAscii, List.all_eq_true,
        decide_eq_true_eq]
      constructor
      · intro h
        rw [decodeUtf8_ascii h]
        refine ⟨_, rfl, fun c hc => ?_⟩
        obtain ⟨x, hx, rfl⟩ := List.mem_map.1 hc
        have hlow := h x hx
        exact lt_of_eq_of_lt (Nat.mod_eq_of_lt (by omega)) hlow
      · rintro ⟨s, hs, hascii⟩
        cases hdecode : decodeUtf8 b with
        | none =>
            rw [hdecode] at hs
            cases hs
        | some t =>
            rw [hdecode] at hs
            obtain rfl := Except.ok.inj hs
            exact ascii_of_decodeUtf8 hdecode hascii

/-- The comparison answers for ASCII, and raises for anything else. -/
theorem compare_iff (b : Bool) :
    (header.text >>= fun given => orTypeError (compareDigest given token)) = .ok b ↔
      isAscii token = true ∧ header.isAscii = true ∧ (b = true ↔ header.text = .ok token) := by
  rw [isAscii_iff_text]
  cases htext : header.text with
  | error e =>
      refine iff_of_false (fun h => by cases h) ?_
      rintro ⟨-, ⟨s, hs, -⟩, -⟩
      cases hs
  | ok s =>
      change orTypeError (compareDigest s token) = .ok b ↔ _
      have hall : ((s ++ token).all fun c => decide (c.val < 0x80)) = true ↔
          isAscii s = true ∧ isAscii token = true := by
        rw [List.all_append, Bool.and_eq_true]
        exact Iff.rfl
      rw [compareDigest]
      by_cases hascii : isAscii s = true ∧ isAscii token = true
      · rw [if_pos (hall.2 hascii), orTypeError, Except.ok.injEq, Except.ok.injEq]
        constructor
        · rintro rfl
          exact ⟨hascii.2, ⟨s, rfl, hascii.1⟩, decide_eq_true_iff⟩
        · rintro ⟨-, -, hb⟩
          rw [Bool.eq_iff_iff, decide_eq_true_iff, hb]
      · rw [if_neg fun h => hascii (hall.1 h), orTypeError]
        refine iff_of_false (fun h => by cases h) ?_
        rintro ⟨htoken, ⟨t, ht, hs⟩, -⟩
        exact hascii ⟨Except.ok.inj ht ▸ hs, htoken⟩

/-- **Whether the header has the token is told for what can be compared.** -/
theorem tokenMatches_iff (b : Bool) :
    tokenMatches internalToken request.tokenHeader = .ok b ↔
      Comparable internalToken request ∧ (b = true ↔ RightToken internalToken request) := by
  -- where nothing is compared, the answer is no
  have hnone : Comparable internalToken request → ¬RightToken internalToken request →
      ((.ok false : Except AccessError Bool) = .ok b ↔
        Comparable internalToken request ∧ (b = true ↔ RightToken internalToken request)) := by
    intro hcomparable hwrong
    rw [Except.ok.injEq]
    constructor
    · rintro rfl
      exact ⟨hcomparable, iff_of_false Bool.false_ne_true hwrong⟩
    · rintro ⟨-, hb⟩
      exact (Bool.eq_false_iff.2 fun h => hwrong (hb.1 h)).symm
  cases htoken : internalToken with
  | none =>
      subst htoken
      refine hnone (fun _ _ h => by cases h) ?_
      rintro ⟨_, _, h, -⟩
      cases h
  | some token =>
      subst htoken
      cases hheader : request.tokenHeader with
      | none =>
          refine hnone (fun _ _ _ _ h => by rw [hheader] at h; cases h) ?_
          rintro ⟨_, _, -, -, h, -⟩
          rw [hheader] at h
          cases h
      | some header =>
          rw [tokenMatches]
          split
          · rename_i hempty
            refine hnone (fun t _ ht hne => ?_) ?_
            · exact absurd (Option.some.inj ht ▸ hempty) hne
            · rintro ⟨t, _, ht, hne, -⟩
              exact hne (Option.some.inj ht ▸ hempty)
          · rename_i hne
            have hright : RightToken (some token) request ↔ header.text = .ok token := by
              constructor
              · rintro ⟨t, h, ht, -, hh, htext⟩
                rw [hheader] at hh
                rwa [Option.some.inj hh, Option.some.inj ht]
              · exact fun h => ⟨token, header, rfl, hne, hheader, h⟩
            have hcomparable : Comparable (some token) request ↔
                isAscii token = true ∧ header.isAscii = true := by
              constructor
              · exact fun h => h token header rfl hne hheader
              · intro h t hd ht _ hh
                rw [hheader] at hh
                rwa [← Option.some.inj ht, ← Option.some.inj hh]
            rw [compare_iff, hright, hcomparable, and_assoc]

/-- The answer, when the header can be read: the token, or else the host. -/
theorem checkAccess_iff (answer : Bool) :
    checkAccess internalToken request = .ok answer ↔
      ∃ right, tokenMatches internalToken request.tokenHeader = .ok right ∧
        answer = (right || request.clientHost.any hostAllowed) := by
  rw [checkAccess]
  cases tokenMatches internalToken request.tokenHeader with
  | error e =>
      refine iff_of_false (fun h => by cases h) ?_
      rintro ⟨_, h, -⟩
      cases h
  | ok right =>
      have hanswer : (Except.ok right >>= fun tokenRight =>
          if tokenRight then (.ok true : Except AccessError Bool)
          else .ok (request.clientHost.any hostAllowed)) =
            .ok (right || request.clientHost.any hostAllowed) := by
        cases right with
        | true => rfl
        | false => rfl
      rw [hanswer]
      constructor
      · exact fun h => ⟨right, rfl, (Except.ok.inj h).symm⟩
      · rintro ⟨right', h, rfl⟩
        rw [Except.ok.inj h]

/-- **When the endpoints are open to whom they should be.**  They are for a request exactly when a
header that is compared with a token has ASCII only, as the token has, and, unless it is the token,
the host of the client is not one of those that are let in and should not be. -/
theorem checkAccess_lawful_iff (internalToken : Option PyStr) (request : AccessRequest) :
    Lawful internalToken request ↔ Comparable internalToken request ∧
      (RightToken internalToken request ∨
        ∀ host, request.clientHost = some host → NarrowHost host) := by
  constructor
  · rintro ⟨-, ⟨answer, hanswer⟩, hinternal⟩
    obtain ⟨right, hmatch, -⟩ := (checkAccess_iff answer).1 hanswer
    refine ⟨((tokenMatches_iff right).1 hmatch).1, ?_⟩
    by_cases hright : RightToken internalToken request
    · exact .inl hright
    · refine .inr fun host hhost => narrowHost_iff.1 fun hallowed => ?_
      have htrue : checkAccess internalToken request = .ok true :=
        (checkAccess_iff true).2 ⟨right, hmatch, by rw [hhost, Option.any_some, hallowed, Bool.or_true]⟩
      rcases hinternal htrue with h | ⟨host', hhost', h⟩
      · exact absurd h hright
      · rw [hhost] at hhost'
        rwa [Option.some.inj hhost']
  · rintro ⟨hcomparable, h⟩
    obtain ⟨right, hright⟩ : ∃ b : Bool, b = true ↔ RightToken internalToken request := by
      by_cases hright : RightToken internalToken request
      · exact ⟨true, iff_of_true rfl hright⟩
      · exact ⟨false, iff_of_false Bool.false_ne_true hright⟩
    have hmatch := (tokenMatches_iff right).2 ⟨hcomparable, hright⟩
    refine ⟨rfl, ⟨_, (checkAccess_iff _).2 ⟨right, hmatch, rfl⟩⟩, fun htrue => ?_⟩
    obtain ⟨right', hmatch', hanswer⟩ := (checkAccess_iff true).1 htrue
    obtain rfl := Except.ok.inj (hmatch.symm.trans hmatch')
    rcases Bool.or_eq_true_iff.1 hanswer.symm with htoken | hhost
    · exact .inl (hright.1 htoken)
    · rcases h with h | h
      · exact .inl h
      · obtain ⟨host, hhost, hallowed⟩ := (Option.any_eq_true _ _).1 hhost
        exact .inr ⟨host, hhost, narrowHost_iff.2 (h host hhost) hallowed⟩

/-- An address of a public network that begins like those of Docker is let in. -/
theorem public_not_lawful : ¬Lawful none ⟨none, some (py "172.15.0.1")⟩ := by
  intro h
  rcases h.internal rfl with ⟨_, _, h, -⟩ | ⟨host, hhost, hinternal⟩
  · cases h
  · obtain rfl := Option.some.inj hhost
    revert hinternal
    decide

end Requests

end MiniApp
end Liza
