/-
# Which devices a news post is for

`servers/sygnal/sygnal/_news_audience.py`.  A post of the news bot may carry a list of platforms;
a device whose platform is known and not in the list gets no push.  A list without a known
platform counts as no list.

`str.lower` lowers the letters of all scripts.  Its tables are not modelled: `CaseFolding` says
what they do to ASCII, and that a string with other characters stays out of ASCII without a `k`
(U+0130 becomes `i` followed by U+0307, U+212A becomes `k`, and no other character has an ASCII
letter in its lower case).
-/

import Liza.Sygnal.Notifications

set_option autoImplicit false

namespace Liza
namespace Sygnal

open Lib

/-- The lower case of an ASCII character. -/
def lowerAscii (c : CodePoint) : CodePoint :=
  if 65 ≤ c.val ∧ c.val ≤ 90 then Fin.ofNat 0x110000 (c.val + 32) else c

/-- `str.lower`. -/
structure CaseFolding where
  lower : PyStr → PyStr
  ascii : ∀ s, (∀ c ∈ s, c.val < 128) → lower s = s.map lowerAscii
  other : ∀ s, (∃ c ∈ s, 128 ≤ c.val) → ∃ c ∈ lower s, 128 ≤ c.val ∨ c = codePoint 'k'

/-- Lower case of ASCII only. -/
def asciiFolding : CaseFolding where
  lower s := s.map lowerAscii
  ascii _ _ := rfl
  other s h := by
    obtain ⟨c, hc, hlarge⟩ := h
    have hsame : lowerAscii c = c := by
      rw [lowerAscii, if_neg]
      omega
    exact ⟨c, List.mem_map.2 ⟨c, hc, hsame⟩, .inl hlarge⟩

/-- `AUDIENCE_KEY`. -/
def audienceKey : PyStr := "com.liza.news.audience"

/-- `PLATFORMS`. -/
def platforms : List PyStr := [py "ios", py "macos", py "android"]

/-- `APPLE_UNKNOWN`. -/
def appleUnknown : PyStr := "apple"

/-- `NEWS_SENDERS`. -/
def newsSenders : List PyStr := [py "@liza-news:bots.liza.ru"]

/-- `sender in NEWS_SENDERS`; a list or a dictionary has no hash. -/
def isNewsSender : Json → Py SygnalExn Bool
  | .str s => .ok (s ∈ newsSenders)
  | .arr _ => Py.throw .typeError
  | .obj _ => Py.throw .typeError
  | _ => .ok false

variable (F : CaseFolding)

/-- The platforms of a list, in lower case; `none` where there are none. -/
def knownPlatforms (raw : List Json) : Option (List PyStr) :=
  match ((raw.filterMap asStr).map F.lower).filter fun p => p ∈ platforms with
  | [] => none
  | known => some known

/-- `audience_platforms`. -/
def audiencePlatforms (n : Notification) : Py SygnalExn (Option (List PyStr)) := do
  let news ← isNewsSender n.sender
  if news then
    match n.content with
    | .obj content =>
        match Dict.get content audienceKey with
        | .obj audience =>
            match Dict.get audience "platforms" with
            | .arr raw => .ok (knownPlatforms F raw)
            | _ => .ok none
        | _ => .ok none
    | _ => .ok none
  else .ok none

/-- `os_name` without `debug` at its end. -/
def withoutDebug (osName : PyStr) : PyStr :=
  if (py "debug").isSuffixOf osName then osName.take (osName.length - 5) else osName

/-- `_platform_from_client_name`. -/
def platformFromClientName : Json → Option PyStr
  | .str clientName =>
      match clientName.splitOn (codePoint ' ') with
      | [_, name] =>
          if withoutDebug (F.lower name) ∈ platforms then some (withoutDebug (F.lower name)) else none
      | _ => none
  | _ => none

/-- The platform that the client names itself. -/
def explicitPlatform : Json → Option PyStr
  | .str explicit => if F.lower explicit ∈ platforms then some (F.lower explicit) else none
  | _ => none

/-- `device_platform`. -/
def devicePlatform (device : Device) : Option PyStr :=
  let data := device.data.getD []
  let payload : Dict := (asDict (data.get "default_payload")).getD []
  match explicitPlatform F (payload.get "platform") with
  | some platform => some platform
  | none =>
      if (py ".data_message").isSuffixOf device.appId ∨ data.get "data_message" = .str "android" then
        some "android"
      else
        match platformFromClientName F (payload.get "client_name") with
        | some platform => some platform
        | none => if data.get "data_message" = .str "ios" then some appleUnknown else none

/-- What is done for a platform that is known, or for an Apple device. -/
def skipFor (audience : List PyStr) (platform : PyStr) : Option PyStr :=
  if platform = appleUnknown then
    if py "ios" ∈ audience ∨ py "macos" ∈ audience then none else some platform
  else if platform ∈ audience then none
  else some platform

/-- `should_skip`. -/
def shouldSkip (n : Notification) (device : Device) : Py SygnalExn (Option PyStr) := do
  let audience ← audiencePlatforms F n
  match audience with
  | none => .ok none
  | some audience =>
      match devicePlatform F device with
      | none => .ok none
      | some platform => .ok (skipFor audience platform)

end Sygnal
end Liza
