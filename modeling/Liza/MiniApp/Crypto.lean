/-
# Signing the init data of a mini app

`servers/synapse/modules/miniapp/_crypto.py`: the key of an app, the opaque hash of a user,
and the text that is signed.  The text is the parameters sorted by key, one `key=value` a
line (`build_data_check_string`).

`hmac` stands for `hmac.new(key, msg, hashlib.sha256).digest()`.  `str.encode` raises on a
lone surrogate, which is `none` here.
-/

import Liza.Lib.JsonText
import Liza.Lib.PyOps

set_option autoImplicit false

namespace Liza
namespace MiniApp

open Lib

/-- A Python `bytes`. -/
abbrev Bytes := List UInt8

/-- The bytes of a code point in UTF-8. -/
def utf8 (c : CodePoint) : Bytes :=
  if c.val < 0x80 then [UInt8.ofNat c.val]
  else if c.val < 0x800 then [UInt8.ofNat (0xC0 + c.val / 64), UInt8.ofNat (0x80 + c.val % 64)]
  else if c.val < 0x10000 then
    [UInt8.ofNat (0xE0 + c.val / 4096), UInt8.ofNat (0x80 + c.val / 64 % 64),
      UInt8.ofNat (0x80 + c.val % 64)]
  else [UInt8.ofNat (0xF0 + c.val / 262144), UInt8.ofNat (0x80 + c.val / 4096 % 64),
      UInt8.ofNat (0x80 + c.val / 64 % 64), UInt8.ofNat (0x80 + c.val % 64)]

/-- `s.encode("utf-8")`. -/
def encodeUtf8 (s : PyStr) : Option Bytes := if encodable s then some (s.flatMap utf8) else none

/-- `bytes.hex`. -/
def hex (b : Bytes) : PyStr := b.flatMap fun x => [hexDigit (x.toNat / 16), hexDigit (x.toNat % 16)]

section Keys

variable (hmac : Bytes → Bytes → Bytes)

/-- `compute_master_key`. -/
def computeMasterKey (masterSecret : PyStr) : Option Bytes := do
  return hmac ((py "LizaWebAppData").flatMap utf8) (← encodeUtf8 masterSecret)

/-- `derive_app_key`. -/
def deriveAppKey (masterSecret appId : PyStr) : Option Bytes := do
  let msg := (py "LizaMiniAppKey:").flatMap utf8 ++ (← encodeUtf8 appId)
  return hmac (← encodeUtf8 masterSecret) msg

/-- `signing_key`. -/
def signingKey (masterSecret appId : PyStr) (perAppKeys : Bool) : Option Bytes :=
  if perAppKeys then deriveAppKey hmac masterSecret appId else computeMasterKey hmac masterSecret

/-- `compute_user_hash`. -/
def computeUserHash (key : Bytes) (userId : PyStr) : Option PyStr := do
  return hex (hmac key (← encodeUtf8 userId))

end Keys

/-- A `dict[str, str]`, in insertion order. -/
abbrev Params := List (PyStr × PyStr)

/-- `params[k]` for a key that is there. -/
def Params.item (params : Params) (k : PyStr) : PyStr := (params.lookup k).getD []

/-- `build_data_check_string`. -/
def buildDataCheckString (params : Params) : PyStr :=
  joinStrs "\n" ((sortedStrs (params.map Prod.fst)).map fun k => k ++ py "=" ++ params.item k)

example : buildDataCheckString [("b", "2"), ("a", "1"), ("c", "3")] = py "a=1\nb=2\nc=3" := by
  decide

/-! ### The digits of a hash -/

/-- A hexadecimal digit stands for itself inside quotes. -/
theorem escapeControl_hexDigit {n : ℕ} (h : n < 16) : escapeControl (hexDigit n) = [hexDigit n] := by
  revert n
  decide

theorem quote_ne_hexDigit {n : ℕ} (h : n < 16) : codePoint '"' ≠ hexDigit n := by
  revert n
  decide

theorem mem_hex {b : Bytes} {c : CodePoint} (h : c ∈ hex b) : ∃ n < 16, c = hexDigit n := by
  obtain ⟨x, -, hc⟩ := List.mem_flatMap.1 h
  have hx : x.toNat < 256 := x.toNat_lt
  simp only [List.mem_cons, List.not_mem_nil, or_false] at hc
  obtain rfl | rfl := hc
  · exact ⟨x.toNat / 16, by omega, rfl⟩
  · exact ⟨x.toNat % 16, by omega, rfl⟩

/-- A hash stands for itself inside quotes. -/
theorem flatMap_escapeControl_hex (b : Bytes) : (hex b).flatMap escapeControl = hex b := by
  have hself : ∀ s : PyStr, (∀ c ∈ s, escapeControl c = [c]) → s.flatMap escapeControl = s := by
    intro s
    induction s with
    | nil => exact fun _ => rfl
    | cons c s ih =>
        intro h
        rw [List.flatMap_cons, h c List.mem_cons_self, ih fun d hd => h d (List.mem_cons_of_mem _ hd)]
        rfl
  refine hself _ fun c hc => ?_
  obtain ⟨n, hn, rfl⟩ := mem_hex hc
  exact escapeControl_hexDigit hn

theorem quote_notMem_hex (b : Bytes) : codePoint '"' ∉ hex b := by
  intro h
  obtain ⟨n, hn, hc⟩ := mem_hex h
  exact quote_ne_hexDigit hn hc

end MiniApp
end Liza
