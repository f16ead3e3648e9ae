/-
# The text of an address

An IPv4 address is written as four decimal numbers with dots between them, and an IPv6 address as
eight groups of hexadecimal digits with colons between them: one run of zero groups may be left out
(`::`), the last two groups may be written as an IPv4 address, and a scope may follow a `%`.
`parseIp` reads what `ipaddress.ip_address` of Python reads.

An IPv6 address may stand for an IPv4 address (`IPv6.mapped`), and `IpAddress.ipv4` is the IPv4
address that an address is or stands for.  Where a text, behind `::ffff:` or not, begins like an
IPv4 address up to a dot, it is the text of one (`ipv4_of_dotted`).
-/

import Liza.Lib.Lines
import Liza.Lib.Percent

set_option autoImplicit false

namespace Liza
namespace Lib

instance neZero_octets : NeZero 256 := ⟨by decide⟩

instance neZero_groups : NeZero 0x10000 := ⟨by decide⟩

/-- An IPv4 address. -/
structure IPv4 where
  first : Fin 256
  second : Fin 256
  third : Fin 256
  fourth : Fin 256
deriving DecidableEq

/-- The number of an address. -/
def IPv4.toNat (a : IPv4) : ℕ :=
  ((a.first.val * 256 + a.second.val) * 256 + a.third.val) * 256 + a.fourth.val

/-- The address lies in the network: they have the first `len` bits in common. -/
def IPv4.within (a net : IPv4) (len : ℕ) : Bool :=
  a.toNat / 2 ^ (32 - len) = net.toNat / 2 ^ (32 - len)

/-- An IPv6 address. -/
abbrev IPv6 := {groups : List (Fin 0x10000) // groups.length = 8}

/-- The two groups of an IPv4 address. -/
def IPv4.groups (a : IPv4) : List (Fin 0x10000) :=
  [Fin.ofNat 0x10000 (a.first.val * 256 + a.second.val),
    Fin.ofNat 0x10000 (a.third.val * 256 + a.fourth.val)]

/-- The IPv4 address of two groups. -/
def IPv4.ofGroups (x y : Fin 0x10000) : IPv4 :=
  ⟨Fin.ofNat 256 (x.val / 256), Fin.ofNat 256 x.val, Fin.ofNat 256 (y.val / 256),
    Fin.ofNat 256 y.val⟩

/-- The IPv4 address that an address stands for. -/
def IPv6.mapped (a : IPv6) : Option IPv4 :=
  if a.val.take 6 = [0, 0, 0, 0, 0, 0xFFFF] then
    match a.val.drop 6 with
    | [x, y] => some (IPv4.ofGroups x y)
    | _ => none
  else none

/-- An address. -/
inductive IpAddress where
  | v4 (a : IPv4)
  | v6 (a : IPv6)
deriving DecidableEq

/-- The IPv4 address that an address is or stands for. -/
def IpAddress.ipv4 : IpAddress → Option IPv4
  | .v4 a => some a
  | .v6 a => IPv6.mapped a

/-! ### Reading -/

/-- `.` -/
def dot : CodePoint := codePoint '.'

/-- `:` -/
def colon : CodePoint := codePoint ':'

/-- A decimal digit. -/
def decimalValue (c : CodePoint) : Option ℕ :=
  if 0x30 ≤ c.val ∧ c.val ≤ 0x39 then some (c.val - 0x30) else none

/-- The number of some digits. -/
def ofDigits (base : ℕ) (digits : List ℕ) : ℕ := digits.foldl (fun n d => n * base + d) 0

/-- One of the four numbers: at most three digits, and none in front that does nothing. -/
def parseOctet (s : PyStr) : Option (Fin 256) :=
  if s = [] ∨ 3 < s.length ∨ (s.head? = some (codePoint '0') ∧ 1 < s.length) then none
  else (s.mapM decimalValue).bind fun digits =>
    if h : ofDigits 10 digits < 256 then some ⟨ofDigits 10 digits, h⟩ else none

/-- Four numbers. -/
def parseIPv4 (s : PyStr) : Option IPv4 :=
  match (s.splitOn dot).mapM parseOctet with
  | some [a, b, c, d] => some ⟨a, b, c, d⟩
  | _ => none

/-- A group: one to four hexadecimal digits. -/
def parseGroup (s : PyStr) : Option (Fin 0x10000) :=
  if s = [] ∨ 4 < s.length then none
  else (s.mapM hexValue).map fun digits => Fin.ofNat 0x10000 (ofDigits 16 digits)

/-- Groups, the last of which may be an IPv4 address. -/
def parseGroups : List PyStr → Option (List (Fin 0x10000))
  | [] => some []
  | [s] => if dot ∈ s then (parseIPv4 s).map IPv4.groups else (parseGroup s).map fun g => [g]
  | s :: rest => (parseGroup s).bind fun g => (parseGroups rest).map (g :: ·)

/-- What stands before and after the first `::`. -/
def splitGap : PyStr → Option (PyStr × PyStr)
  | c :: d :: s =>
      if c = colon ∧ d = colon then some ([], s)
      else (splitGap (d :: s)).map fun parts => (c :: parts.1, parts.2)
  | _ => none

/-- The groups that were left out are as many as are missing. -/
theorem length_padded {high low : List (Fin 0x10000)} (h : high.length + low.length < 8) :
    (high ++ List.replicate (8 - (high.length + low.length)) 0 ++ low).length = 8 := by
  simp only [List.length_append, List.length_replicate]
  omega

/-- Eight groups, some of which may be left out once. -/
def parseIPv6 (s : PyStr) : Option IPv6 :=
  match splitGap s with
  | none => (parseGroups (s.splitOn colon)).bind fun groups =>
      if h : groups.length = 8 then some ⟨groups, h⟩ else none
  | some (before, after) =>
      (if before = [] then some [] else (before.splitOn colon).mapM parseGroup).bind fun high =>
        (if after = [] then some [] else parseGroups (after.splitOn colon)).bind fun low =>
          if h : high.length + low.length < 8 then
            some ⟨high ++ List.replicate (8 - (high.length + low.length)) 0 ++ low, length_padded h⟩
          else none

/-- What stands before the `%` of a scope. -/
def withoutScope (s : PyStr) : Option PyStr :=
  match split1 percent s with
  | (text, none) => some text
  | (text, some scope) => if scope = [] ∨ percent ∈ scope then none else some text

/-- `ipaddress.ip_address`; `none` where it raises. -/
def parseIp (s : PyStr) : Option IpAddress :=
  match parseIPv4 s with
  | some a => some (.v4 a)
  | none => ((withoutScope s).bind parseIPv6).map .v6

/-! ### Networks of whole numbers -/

section Within

variable {a net : IPv4}

theorem IPv4.within_eight : a.within net 8 = true ↔ a.first = net.first := by
  have hthird := a.third.isLt
  have hfourth := a.fourth.isLt
  have hsecond := a.second.isLt
  have hsecond' := net.second.isLt
  have hthird' := net.third.isLt
  have hfourth' := net.fourth.isLt
  have hpow : 2 ^ (32 - 8) = 16777216 := rfl
  rw [IPv4.within, decide_eq_true_eq, hpow, Fin.ext_iff, IPv4.toNat, IPv4.toNat]
  omega

theorem IPv4.within_sixteen :
    a.within net 16 = true ↔ a.first = net.first ∧ a.second = net.second := by
  have hthird := a.third.isLt
  have hfourth := a.fourth.isLt
  have hsecond := a.second.isLt
  have hsecond' := net.second.isLt
  have hthird' := net.third.isLt
  have hfourth' := net.fourth.isLt
  have hpow : 2 ^ (32 - 16) = 65536 := rfl
  rw [IPv4.within, decide_eq_true_eq, hpow, Fin.ext_iff, Fin.ext_iff, IPv4.toNat, IPv4.toNat]
  omega

end Within

/-! ### Texts that begin like an IPv4 address -/

section Dotted

variable {s t q x y : PyStr} {a : IpAddress} {b : IPv4} {c sep : CodePoint}

/-- Every element was read. -/
theorem read_of_mapM {α β : Type*} {f : α → Option β} {l : List α} {r : List β} {a : α}
    (h : l.mapM f = some r) (ha : a ∈ l) : ∃ b, f a = some b := by
  induction l generalizing r with
  | nil => cases ha
  | cons a' l ih =>
      rw [List.mapM_cons] at h
      obtain ⟨b, hb, h⟩ := Option.bind_eq_some_iff.1 h
      obtain ⟨r', hr', -⟩ := Option.bind_eq_some_iff.1 h
      rcases List.mem_cons.1 ha with rfl | ha
      · exact ⟨b, hb⟩
      · exact ih hr' ha

/-- What no part may contain is not in the text. -/
theorem notMem_of_mapM {β : Type*} {f : PyStr → Option β} {r : List β}
    (hf : ∀ p b, f p = some b → c ∉ p) (hc : c ≠ sep) (h : (s.splitOn sep).mapM f = some r) :
    c ∉ s := by
  intro hmem
  rw [← joinStrs_splitOn sep s] at hmem
  rcases mem_joinStrs hmem with hsep | ⟨p, hp, hcp⟩
  · exact hc (List.mem_singleton.1 hsep)
  · obtain ⟨b, hb⟩ := read_of_mapM h hp
    exact hf p b hb hcp

theorem dot_notMem_group {g : Fin 0x10000} (h : parseGroup s = some g) : dot ∉ s := by
  unfold parseGroup at h
  obtain ⟨-, h⟩ := Option.ite_none_left_eq_some.1 h
  obtain ⟨digits, hdigits, -⟩ := Option.map_eq_some_iff.1 h
  intro hdot
  obtain ⟨v, hv⟩ := read_of_mapM hdigits hdot
  revert hv
  simp [show hexValue dot = none by decide]

theorem colon_notMem_octet {n : Fin 256} (h : parseOctet s = some n) : colon ∉ s := by
  unfold parseOctet at h
  obtain ⟨-, h⟩ := Option.ite_none_left_eq_some.1 h
  obtain ⟨digits, hdigits, -⟩ := Option.bind_eq_some_iff.1 h
  intro hcolon
  obtain ⟨v, hv⟩ := read_of_mapM hdigits hcolon
  revert hv
  simp [show decimalValue colon = none by decide]

/-- The four numbers of an IPv4 address. -/
theorem octets_of_parseIPv4 (h : parseIPv4 s = some b) :
    (s.splitOn dot).mapM parseOctet = some [b.first, b.second, b.third, b.fourth] := by
  unfold parseIPv4 at h
  split at h
  · rename_i heq
    obtain rfl := Option.some.inj h
    exact heq
  · cases h

theorem colon_notMem_ipv4 (h : parseIPv4 s = some b) : colon ∉ s :=
  notMem_of_mapM (fun _ _ => colon_notMem_octet) (by decide) (octets_of_parseIPv4 h)

theorem first_of_parseIPv4 (hx : dot ∉ x) (h : parseIPv4 (x ++ dot :: t) = some b) :
    parseOctet x = some b.first := by
  have hoctets := octets_of_parseIPv4 h
  rw [List.splitOn_append_cons_self_of_not_mem hx, List.mapM_cons] at hoctets
  obtain ⟨n, hn, hoctets⟩ := Option.bind_eq_some_iff.1 hoctets
  obtain ⟨ns, -, hns⟩ := Option.bind_eq_some_iff.1 hoctets
  rw [hn, (List.cons.inj (Option.some.inj hns)).1]

theorem second_of_parseIPv4 (hx : dot ∉ x) (hy : dot ∉ y)
    (h : parseIPv4 (x ++ dot :: (y ++ dot :: t)) = some b) : parseOctet y = some b.second := by
  have hoctets := octets_of_parseIPv4 h
  rw [List.splitOn_append_cons_self_of_not_mem hx, List.splitOn_append_cons_self_of_not_mem hy,
    List.mapM_cons, List.mapM_cons] at hoctets
  obtain ⟨m, hm, hoctets⟩ := Option.bind_eq_some_iff.1 hoctets
  obtain ⟨ms, hms, hoctets⟩ := Option.bind_eq_some_iff.1 hoctets
  obtain ⟨n, hn, hms⟩ := Option.bind_eq_some_iff.1 hms
  obtain ⟨ns, -, hns⟩ := Option.bind_eq_some_iff.1 hms
  obtain rfl := Option.some.inj hns
  rw [hn, (List.cons.inj (List.cons.inj (Option.some.inj hoctets)).2).1]

/-- A part that begins the text begins the first part. -/
theorem splitOn_append_head (hq : c ∉ q) (t : PyStr) :
    ∃ p rest, (q ++ t).splitOn c = (q ++ p) :: rest := by
  induction q with
  | nil =>
      obtain ⟨p, rest, hsplit⟩ := List.exists_cons_of_ne_nil (List.splitOn_ne_nil c t)
      exact ⟨p, rest, hsplit⟩
  | cons d q ih =>
      obtain ⟨p, rest, hsplit⟩ := ih fun hmem => hq (List.mem_cons_of_mem _ hmem)
      have hd : (d == c) = false := beq_eq_false_iff_ne.2 fun heq => hq (heq ▸ List.mem_cons_self)
      refine ⟨p, rest, ?_⟩
      rw [List.cons_append, List.splitOn_cons_eq_if_modifyHead, hd, hsplit]
      rfl

/-- Groups that begin with a dot among them are the two of an IPv4 address. -/
theorem groups_of_dotted {groups : List (Fin 0x10000)} (hcolon : colon ∉ q) (hdot : dot ∈ q)
    (h : parseGroups ((q ++ t).splitOn colon) = some groups) :
    ∃ b, parseIPv4 (q ++ t) = some b ∧ groups = b.groups := by
  obtain ⟨p, rest, hsplit⟩ := splitOn_append_head hcolon t
  have hmem : dot ∈ q ++ p := List.mem_append_left _ hdot
  cases rest with
  | nil =>
      have hwhole : q ++ t = q ++ p := by
        rw [← joinStrs_splitOn colon (q ++ t), hsplit]
        rfl
      rw [hsplit, parseGroups, if_pos hmem] at h
      obtain ⟨b, hb, rfl⟩ := Option.map_eq_some_iff.1 h
      exact ⟨b, hwhole ▸ hb, rfl⟩
  | cons r rest =>
      rw [hsplit, parseGroups] at h
      · obtain ⟨g, hg, -⟩ := Option.bind_eq_some_iff.1 h
        exact absurd hmem (dot_notMem_group hg)
      · exact List.cons_ne_nil _ _

theorem eq_of_splitGap {before after : PyStr} (h : splitGap s = some (before, after)) :
    s = before ++ colon :: colon :: after := by
  induction s using splitGap.induct generalizing before with
  | case1 c d s hcolons =>
      obtain ⟨rfl, rfl⟩ := hcolons
      rw [splitGap, if_pos ⟨rfl, rfl⟩] at h
      obtain ⟨rfl, rfl⟩ := Prod.mk.inj (Option.some.inj h)
      rfl
  | case2 c d s hne ih =>
      rw [splitGap, if_neg hne] at h
      obtain ⟨parts, hparts, heq⟩ := Option.map_eq_some_iff.1 h
      obtain ⟨rfl, rfl⟩ := Prod.mk.inj heq
      rw [ih hparts]
      rfl
  | case3 s hs =>
      rw [splitGap] at h
      · cases h
      · exact hs

/-- No IPv6 address begins with a dot before its first colon. -/
theorem parseIPv6_dotted (hcolon : colon ∉ q) (hdot : dot ∈ q) : parseIPv6 (q ++ t) = none := by
  unfold parseIPv6
  split
  · rw [Option.bind_eq_none_iff]
    intro groups hgroups
    obtain ⟨b, -, rfl⟩ := groups_of_dotted hcolon hdot hgroups
    rfl
  · rename_i before after hgap
    obtain ⟨z, rfl, -⟩ := passes_line hcolon (eq_of_splitGap hgap).symm
    have hne : q ++ z ≠ [] := List.append_ne_nil_of_left_ne_nil (List.ne_nil_of_mem hdot) _
    rw [if_neg hne, Option.bind_eq_none_iff]
    intro high hhigh
    have hfree := notMem_of_mapM (fun _ _ => dot_notMem_group) (by decide) hhigh
    exact absurd (List.mem_append_left _ hdot) hfree

/-- The two groups of an IPv4 address are taken for it. -/
theorem ofGroups_groups (b : IPv4) :
    IPv4.ofGroups (Fin.ofNat 0x10000 (b.first.val * 256 + b.second.val))
      (Fin.ofNat 0x10000 (b.third.val * 256 + b.fourth.val)) = b := by
  obtain ⟨⟨w, hw⟩, ⟨x, hx⟩, ⟨y, hy⟩, ⟨z, hz⟩⟩ := b
  simp only [IPv4.ofGroups, Fin.ofNat, IPv4.mk.injEq, Fin.mk.injEq]
  omega

/-- What stands before the text of an IPv4 address that an IPv6 address stands for. -/
def mappedMark : PyStr := "::ffff:"

theorem parseIPv6_mapped {a : IPv6} (hcolon : colon ∉ q) (hdot : dot ∈ q)
    (h : parseIPv6 (mappedMark ++ (q ++ t)) = some a) :
    ∃ b, parseIPv4 (q ++ t) = some b ∧ IPv6.mapped a = some b := by
  have hgap : splitGap (mappedMark ++ (q ++ t)) = some ([], py "ffff" ++ colon :: (q ++ t)) := rfl
  have hsplit : (py "ffff" ++ colon :: (q ++ t)).splitOn colon =
      py "ffff" :: (q ++ t).splitOn colon :=
    List.splitOn_append_cons_self_of_not_mem (by decide) _
  have hmark : parseGroup (py "ffff") = some 0xFFFF := by decide
  have hne : (py "ffff" ++ colon :: (q ++ t)) ≠ [] := List.append_ne_nil_of_left_ne_nil (by decide) _
  unfold parseIPv6 at h
  rw [hgap] at h
  dsimp only at h
  rw [if_pos rfl, Option.bind_some, if_neg hne, hsplit, parseGroups, hmark, Option.bind_some] at h
  · obtain ⟨low, hlow, h⟩ := Option.bind_eq_some_iff.1 h
    obtain ⟨groups, hgroups, rfl⟩ := Option.map_eq_some_iff.1 hlow
    obtain ⟨b, hb, rfl⟩ := groups_of_dotted hcolon hdot hgroups
    obtain rfl := Option.some.inj h
    refine ⟨b, hb, ?_⟩
    exact congrArg some (ofGroups_groups b)
  · exact List.splitOn_ne_nil _ _

/-- What stands before the scope begins the same. -/
theorem withoutScope_append (hq : percent ∉ q) (h : withoutScope (q ++ t) = some s) :
    ∃ u, s = q ++ u := by
  have hfst : s = (split1 percent (q ++ t)).1 := by
    unfold withoutScope at h
    split at h
    · rename_i heq
      rw [heq, Option.some.inj h]
    · rename_i heq
      rw [heq, Option.some.inj (Option.ite_none_left_eq_some.1 h).2]
  rw [split1_fst, List.takeWhile_append_of_pos] at hfst
  · exact ⟨_, hfst⟩
  · intro c hc
    exact decide_eq_true fun heq => hq (heq ▸ hc)

/-- **An address that begins like an IPv4 address, up to a dot, is one.** -/
theorem ipv4_of_dotted (hcolon : colon ∉ q) (hpercent : percent ∉ q) (hdot : dot ∈ q)
    (h : parseIp (q ++ t) = some a) : ∃ u b, parseIPv4 (q ++ u) = some b ∧ a.ipv4 = some b := by
  unfold parseIp at h
  split at h
  · rename_i b hb
    obtain rfl := Option.some.inj h
    exact ⟨t, b, hb, rfl⟩
  · obtain ⟨a, ha, rfl⟩ := Option.map_eq_some_iff.1 h
    obtain ⟨s, hs, ha⟩ := Option.bind_eq_some_iff.1 ha
    obtain ⟨u, rfl⟩ := withoutScope_append hpercent hs
    rw [parseIPv6_dotted hcolon hdot] at ha
    cases ha

/-- **And one that begins so behind `::ffff:` stands for one.** -/
theorem ipv4_of_mapped (hcolon : colon ∉ q) (hpercent : percent ∉ q) (hdot : dot ∈ q)
    (h : parseIp (mappedMark ++ (q ++ t)) = some a) :
    ∃ u b, parseIPv4 (q ++ u) = some b ∧ a.ipv4 = some b := by
  unfold parseIp at h
  split at h
  · rename_i b hb
    exact absurd (List.mem_append_left _ (by decide)) (colon_notMem_ipv4 hb)
  · obtain ⟨a, ha, rfl⟩ := Option.map_eq_some_iff.1 h
    obtain ⟨s, hs, ha⟩ := Option.bind_eq_some_iff.1 ha
    rw [← List.append_assoc] at hs
    have hmark : percent ∉ mappedMark ++ q := by
      rw [List.mem_append, not_or]
      exact ⟨by decide, hpercent⟩
    obtain ⟨u, rfl⟩ := withoutScope_append hmark hs
    rw [List.append_assoc] at ha
    obtain ⟨b, hb, hmapped⟩ := parseIPv6_mapped hcolon hdot ha
    exact ⟨u, b, hb, hmapped⟩

end Dotted

end Lib
end Liza
