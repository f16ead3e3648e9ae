/-
# Percent-encoding

A text in percent-encoding: its characters that may stand for themselves do, and the bytes of the
others in UTF-8 are escapes `%XX`.  Which ones may is a parameter (`percentEncode`).  The decoder is
strict: it has no value for a `%` that begins no escape, for a character that is not ASCII, and for
bytes that are no UTF-8, where decoders differ.

Decoding takes back every encoding that keeps only ASCII characters other than `%`
(`percentDecode_percentEncode`).
-/

import Liza.Lib.PyOps

set_option autoImplicit false

namespace Liza
namespace Lib

/-! ### UTF-8 -/

/-- The bytes of a code point in UTF-8. -/
def utf8Bytes (c : CodePoint) : List UInt8 :=
  if c.val < 0x80 then [UInt8.ofNat c.val]
  else if c.val < 0x800 then [UInt8.ofNat (0xC0 + c.val / 64), UInt8.ofNat (0x80 + c.val % 64)]
  else if c.val < 0x10000 then
    [UInt8.ofNat (0xE0 + c.val / 4096), UInt8.ofNat (0x80 + c.val / 64 % 64),
      UInt8.ofNat (0x80 + c.val % 64)]
  else [UInt8.ofNat (0xF0 + c.val / 262144), UInt8.ofNat (0x80 + c.val / 4096 % 64),
      UInt8.ofNat (0x80 + c.val / 64 % 64), UInt8.ofNat (0x80 + c.val % 64)]

/-- A character of several bytes, some of which have been read. -/
structure Partial where
  /-- The number of bytes that are missing. -/
  missing : ℕ
  value : ℕ
  /-- A smaller value has a shorter form. -/
  least : ℕ

/-- What a first byte that is not ASCII begins. -/
def leadByte (b : ℕ) : Option Partial :=
  if b < 0xC2 then none
  else if b < 0xE0 then some ⟨1, b - 0xC0, 0x80⟩
  else if b < 0xF0 then some ⟨2, b - 0xE0, 0x800⟩
  else if b < 0xF5 then some ⟨3, b - 0xF0, 0x10000⟩
  else none

/-- The code point of a complete character. -/
def Partial.codePoint (p : Partial) : Option CodePoint :=
  if p.least ≤ p.value ∧ p.value < 0x110000 ∧ isSurrogate (Fin.ofNat 0x110000 p.value) = false then
    some (Fin.ofNat 0x110000 p.value)
  else none

/-- Decodes what comes behind the bytes of `p`. -/
def decodeUtf8From : Option Partial → List UInt8 → Option PyStr
  | none, [] => some []
  | some _, [] => none
  | none, b :: bytes =>
      if b.toNat < 0x80 then (decodeUtf8From none bytes).map (Fin.ofNat 0x110000 b.toNat :: ·)
      else match leadByte b.toNat with
        | none => none
        | some p => decodeUtf8From (some p) bytes
  | some p, b :: bytes =>
      if 0x80 ≤ b.toNat ∧ b.toNat < 0xC0 then
        let q : Partial := ⟨p.missing - 1, p.value * 64 + (b.toNat - 0x80), p.least⟩
        if q.missing = 0 then
          q.codePoint.bind fun c => (decodeUtf8From none bytes).map (c :: ·)
        else decodeUtf8From (some q) bytes
      else none

/-- `bytes.decode("utf-8")`. -/
def decodeUtf8 (bytes : List UInt8) : Option PyStr := decodeUtf8From none bytes

section Utf8

variable {c : CodePoint} {bytes : List UInt8}

theorem toNat_ofNat {n : ℕ} (h : n < 256) : (UInt8.ofNat n).toNat = n := by
  rw [UInt8.toNat_ofNat']
  exact Nat.mod_eq_of_lt h

theorem decode_ascii {n : ℕ} (h : n < 0x80) :
    decodeUtf8From none (UInt8.ofNat n :: bytes) =
      (decodeUtf8From none bytes).map (Fin.ofNat 0x110000 n :: ·) := by
  rw [decodeUtf8From, toNat_ofNat (by omega), if_pos h]

theorem decode_lead {n : ℕ} {p : Partial} (h : n < 256) (hlead : leadByte n = some p)
    (hbig : ¬n < 0x80) :
    decodeUtf8From none (UInt8.ofNat n :: bytes) = decodeUtf8From (some p) bytes := by
  rw [decodeUtf8From, toNat_ofNat h, if_neg hbig, hlead]

/-- A byte that is not the last one of its character. -/
theorem decode_middle {m v l x : ℕ} (h : x < 64) :
    decodeUtf8From (some ⟨m + 2, v, l⟩) (UInt8.ofNat (0x80 + x) :: bytes) =
      decodeUtf8From (some ⟨m + 1, v * 64 + x, l⟩) bytes := by
  rw [decodeUtf8From, toNat_ofNat (by omega), if_pos (by omega)]
  dsimp only
  rw [if_neg (by omega), Nat.add_sub_cancel_left]
  rfl

/-- The last byte of a character. -/
theorem decode_last {v l x : ℕ} (h : x < 64) (hc : c.val = v * 64 + x) (hleast : l ≤ c.val)
    (hscalar : isSurrogate c = false) :
    decodeUtf8From (some ⟨1, v, l⟩) (UInt8.ofNat (0x80 + x) :: bytes) =
      (decodeUtf8From none bytes).map (c :: ·) := by
  have hof : Fin.ofNat 0x110000 c.val = c := Fin.ext (Nat.mod_eq_of_lt c.isLt)
  rw [decodeUtf8From, toNat_ofNat (by omega), if_pos (by omega)]
  dsimp only
  rw [if_pos rfl, Nat.add_sub_cancel_left, ← hc, Partial.codePoint]
  dsimp only
  rw [hof, if_pos ⟨hleast, c.isLt, hscalar⟩]
  rfl

/-- **The bytes of a character are read as that character.** -/
theorem decode_utf8Bytes (hscalar : isSurrogate c = false) :
    decodeUtf8From none (utf8Bytes c ++ bytes) = (decodeUtf8From none bytes).map (c :: ·) := by
  have hc := c.isLt
  unfold utf8Bytes
  split
  · rename_i h
    have hof : Fin.ofNat 0x110000 c.val = c := Fin.ext (Nat.mod_eq_of_lt c.isLt)
    rw [List.singleton_append, decode_ascii h, hof]
  split
  · have hlead : leadByte (0xC0 + c.val / 64) = some ⟨1, c.val / 64, 0x80⟩ := by
      rw [leadByte, if_neg (by omega), if_pos (by omega), Nat.add_sub_cancel_left]
    rw [List.cons_append, List.cons_append, decode_lead (by omega) hlead (by omega)]
    exact decode_last (by omega) (by omega) (by omega) hscalar
  split
  · have hlead : leadByte (0xE0 + c.val / 4096) = some ⟨2, c.val / 4096, 0x800⟩ := by
      rw [leadByte, if_neg (by omega), if_neg (by omega), if_pos (by omega),
        Nat.add_sub_cancel_left]
    rw [List.cons_append, List.cons_append, List.cons_append,
      decode_lead (by omega) hlead (by omega), decode_middle (by omega)]
    exact decode_last (by omega) (by omega) (by omega) hscalar
  · have hlead : leadByte (0xF0 + c.val / 262144) = some ⟨3, c.val / 262144, 0x10000⟩ := by
      rw [leadByte, if_neg (by omega), if_neg (by omega), if_neg (by omega), if_pos (by omega),
        Nat.add_sub_cancel_left]
    rw [List.cons_append, List.cons_append, List.cons_append, List.cons_append,
      decode_lead (by omega) hlead (by omega), decode_middle (by omega), decode_middle (by omega)]
    exact decode_last (by omega) (by omega) (by omega) hscalar

/-- **Decoding takes back the encoding in UTF-8.** -/
theorem decodeUtf8_encode {s : PyStr} (h : encodable s = true) :
    decodeUtf8 (s.flatMap utf8Bytes) = some s := by
  induction s with
  | nil => rfl
  | cons c s ih =>
      simp only [encodable, List.all_cons, Bool.and_eq_true, Bool.not_eq_true'] at h
      rw [List.flatMap_cons, decodeUtf8, decode_utf8Bytes h.1]
      exact congrArg (Option.map (c :: ·)) (ih h.2)

/-- The bytes that begin a character. -/
def leadBytes (bytes : List UInt8) : ℕ :=
  bytes.countP fun b => decide (¬(0x80 ≤ b.toNat ∧ b.toNat < 0xC0))

@[simp]
theorem leadBytes_append (a b : List UInt8) : leadBytes (a ++ b) = leadBytes a + leadBytes b :=
  List.countP_append

theorem leadBytes_cons (b : UInt8) (bytes : List UInt8) :
    leadBytes (b :: bytes) = leadBytes [b] + leadBytes bytes :=
  leadBytes_append [b] bytes

theorem leadBytes_le (bytes : List UInt8) : leadBytes bytes ≤ bytes.length := List.countP_le_length

theorem leadBytes_cons_lead {b : UInt8} (h : b.toNat < 0x80 ∨ 0xC0 ≤ b.toNat) :
    leadBytes (b :: bytes) = leadBytes bytes + 1 := by
  refine List.countP_cons_of_pos ?_
  rw [decide_eq_true_eq]
  omega

theorem leadBytes_cons_middle {b : UInt8} (h : 0x80 ≤ b.toNat ∧ b.toNat < 0xC0) :
    leadBytes (b :: bytes) = leadBytes bytes := by
  refine List.countP_cons_of_neg ?_
  rw [decide_eq_true_eq]
  omega

theorem leadBytes_lead {n : ℕ} (hn : n < 256) (h : n < 0x80 ∨ 0xC0 ≤ n) :
    leadBytes (UInt8.ofNat n :: bytes) = leadBytes bytes + 1 :=
  leadBytes_cons_lead (by rwa [toNat_ofNat hn])

theorem leadBytes_middle {x : ℕ} (h : x < 64) :
    leadBytes (UInt8.ofNat (0x80 + x) :: bytes) = leadBytes bytes :=
  leadBytes_cons_middle (by rw [toNat_ofNat (by omega)]; omega)

theorem leadBytes_utf8Bytes (c : CodePoint) : leadBytes (utf8Bytes c) = 1 := by
  have hc := c.isLt
  unfold utf8Bytes
  split
  · rw [leadBytes_lead (by omega) (by omega)]
    rfl
  split
  · rw [leadBytes_lead (by omega) (by omega), leadBytes_middle (by omega)]
    rfl
  split
  · rw [leadBytes_lead (by omega) (by omega), leadBytes_middle (by omega),
      leadBytes_middle (by omega)]
    rfl
  · rw [leadBytes_lead (by omega) (by omega), leadBytes_middle (by omega),
      leadBytes_middle (by omega), leadBytes_middle (by omega)]
    rfl

theorem encodable_cons {s : PyStr} :
    encodable (c :: s) = true ↔ isSurrogate c = false ∧ encodable s = true := by
  simp [encodable]

/-- **A decoded text has as many characters as bytes that begin one, and it can be encoded.** -/
theorem decodeUtf8From_spec {p : Option Partial} {s : PyStr} (h : decodeUtf8From p bytes = some s) :
    s.length = leadBytes bytes + p.toList.length ∧ encodable s = true := by
  induction bytes generalizing p s with
  | nil =>
      cases p with
      | none =>
          obtain rfl := Option.some.inj h
          exact ⟨rfl, rfl⟩
      | some p => cases h
  | cons b bytes ih =>
      cases p with
      | none =>
          rw [decodeUtf8From] at h
          split at h
          · rename_i hb
            obtain ⟨t, ht, rfl⟩ := Option.map_eq_some_iff.1 h
            obtain ⟨hlength, hencodable⟩ := ih ht
            have hval : (Fin.ofNat 0x110000 b.toNat).val = b.toNat := Nat.mod_eq_of_lt (by omega)
            have hscalar : isSurrogate (Fin.ofNat 0x110000 b.toNat) = false := by
              rw [isSurrogate, decide_eq_false_iff_not, hval]
              omega
            rw [List.length_cons, hlength, leadBytes_cons_lead (.inl hb)]
            exact ⟨rfl, encodable_cons.2 ⟨hscalar, hencodable⟩⟩
          · split at h
            · cases h
            · rename_i q hlead
              have hb : 0xC0 ≤ b.toNat := by
                unfold leadByte at hlead
                split at hlead
                · cases hlead
                · omega
              rw [leadBytes_cons_lead (.inr hb)]
              exact ih h
      | some p =>
          rw [decodeUtf8From] at h
          split at h
          · rename_i hb
            rw [leadBytes_cons_middle hb]
            dsimp only at h
            split at h
            · obtain ⟨c, hc, h⟩ := Option.bind_eq_some_iff.1 h
              obtain ⟨t, ht, rfl⟩ := Option.map_eq_some_iff.1 h
              obtain ⟨hlength, hencodable⟩ := ih ht
              rw [Partial.codePoint] at hc
              obtain ⟨⟨-, -, hscalar⟩, hc⟩ := Option.ite_none_right_eq_some.1 hc
              obtain rfl := Option.some.inj hc
              rw [List.length_cons, hlength]
              exact ⟨rfl, encodable_cons.2 ⟨hscalar, hencodable⟩⟩
            · obtain ⟨hlength, hencodable⟩ := ih h
              exact ⟨hlength, hencodable⟩
          · cases h

theorem least_of_leadByte {n : ℕ} {p : Partial} (h : leadByte n = some p) : 0x80 ≤ p.least := by
  unfold leadByte at h
  split at h
  · cases h
  split at h
  · obtain rfl := Option.some.inj h
    exact Nat.le_refl 0x80
  split at h
  · obtain rfl := Option.some.inj h
    show 0x80 ≤ 0x800
    omega
  · obtain ⟨-, h⟩ := Option.ite_none_right_eq_some.1 h
    obtain rfl := Option.some.inj h
    show 0x80 ≤ 0x10000
    omega

/-- A character of several bytes is not an ASCII one. -/
theorem high_of_decodeUtf8From {p : Partial} {s : PyStr} (h : decodeUtf8From (some p) bytes = some s)
    (hp : 0x80 ≤ p.least) : ∃ c ∈ s, 0x80 ≤ c.val := by
  induction bytes generalizing p with
  | nil => cases h
  | cons b bytes ih =>
      rw [decodeUtf8From] at h
      obtain ⟨-, h⟩ := Option.ite_none_right_eq_some.1 h
      dsimp only at h
      split at h
      · obtain ⟨c, hc, h⟩ := Option.bind_eq_some_iff.1 h
        obtain ⟨t, -, rfl⟩ := Option.map_eq_some_iff.1 h
        obtain ⟨⟨hleast, hvalue, -⟩, hc⟩ := Option.ite_none_right_eq_some.1 hc
        obtain rfl := Option.some.inj hc
        refine ⟨_, List.mem_cons_self, ?_⟩
        exact le_of_le_of_eq (hp.trans hleast) (Nat.mod_eq_of_lt hvalue).symm
      · exact ih h hp

/-- **ASCII characters were ASCII bytes.** -/
theorem ascii_of_decodeUtf8 {s : PyStr} (h : decodeUtf8 bytes = some s) (hs : ∀ c ∈ s, c.val < 0x80) :
    ∀ b ∈ bytes, b.toNat < 0x80 := by
  unfold decodeUtf8 at h
  induction bytes generalizing s with
  | nil => exact fun _ hb => by cases hb
  | cons b bytes ih =>
      rw [decodeUtf8From] at h
      split at h
      · rename_i hlow
        obtain ⟨t, ht, rfl⟩ := Option.map_eq_some_iff.1 h
        intro b' hb'
        rcases List.mem_cons.1 hb' with rfl | hb'
        · exact hlow
        · exact ih ht (fun c hc => hs c (List.mem_cons_of_mem _ hc)) b' hb'
      · split at h
        · cases h
        · rename_i p hlead
          obtain ⟨c, hc, hhigh⟩ := high_of_decodeUtf8From h (least_of_leadByte hlead)
          exact absurd (hs c hc) (Nat.not_lt.2 hhigh)

theorem decodeUtf8_ascii (h : ∀ b ∈ bytes, b.toNat < 0x80) :
    decodeUtf8 bytes = some (bytes.map fun b => Fin.ofNat 0x110000 b.toNat) := by
  unfold decodeUtf8
  induction bytes with
  | nil => rfl
  | cons b bytes ih =>
      rw [decodeUtf8From, if_pos (h b List.mem_cons_self),
        ih fun b' hb' => h b' (List.mem_cons_of_mem _ hb')]
      rfl

end Utf8

/-! ### Escapes -/

/-- `%`. -/
def percent : CodePoint := codePoint '%'

/-- The digit with the given value, in capitals. -/
def hexCapital (n : ℕ) : CodePoint := Fin.ofNat 0x110000 (if n < 10 then 0x30 + n else 0x37 + n)

/-- The value of a digit. -/
def hexValue (c : CodePoint) : Option ℕ :=
  if 0x30 ≤ c.val ∧ c.val ≤ 0x39 then some (c.val - 0x30)
  else if 0x41 ≤ c.val ∧ c.val ≤ 0x46 then some (c.val - 0x37)
  else if 0x61 ≤ c.val ∧ c.val ≤ 0x66 then some (c.val - 0x57)
  else none

/-- The escape of a byte. -/
def escapeByte (b : UInt8) : PyStr :=
  [percent, hexCapital (b.toNat / 16), hexCapital (b.toNat % 16)]

/-- A text in percent-encoding, with the characters that stand for themselves. -/
def percentEncode (keep : CodePoint → Bool) (s : PyStr) : PyStr :=
  s.flatMap fun c => if keep c then [c] else (utf8Bytes c).flatMap escapeByte

/-- The bytes that a text in percent-encoding stands for. -/
def unescape : PyStr → Option (List UInt8)
  | [] => some []
  | c :: s =>
      if c = percent then
        match s with
        | hi :: lo :: rest =>
            (hexValue hi).bind fun a => (hexValue lo).bind fun b =>
              (unescape rest).map (UInt8.ofNat (16 * a + b) :: ·)
        | _ => none
      else if c.val < 0x80 then (unescape s).map (UInt8.ofNat c.val :: ·)
      else none

/-- The text that a text in percent-encoding stands for. -/
def percentDecode (s : PyStr) : Option PyStr := (unescape s).bind decodeUtf8

section Escapes

variable {keep : CodePoint → Bool} {s rest : PyStr} {c : CodePoint}

theorem hexValue_hexCapital {n : ℕ} (h : n < 16) : hexValue (hexCapital n) = some n := by
  revert n
  decide

theorem unescape_escapeByte (b : UInt8) :
    unescape (escapeByte b ++ rest) = (unescape rest).map (b :: ·) := by
  have hb : b.toNat < 256 := b.toNat_lt
  have hbyte : UInt8.ofNat (16 * (b.toNat / 16) + b.toNat % 16) = b := by
    rw [Nat.div_add_mod]
    exact UInt8.ofNat_toNat
  change unescape (percent :: hexCapital (b.toNat / 16) :: hexCapital (b.toNat % 16) :: rest) = _
  rw [unescape, if_pos rfl, hexValue_hexCapital (by omega), hexValue_hexCapital (by omega),
    Option.bind_some, Option.bind_some, hbyte]

theorem unescape_escapes (bytes : List UInt8) :
    unescape (bytes.flatMap escapeByte ++ rest) = (unescape rest).map (bytes ++ ·) := by
  induction bytes with
  | nil => simp
  | cons b bytes ih =>
      rw [List.flatMap_cons, List.append_assoc, unescape_escapeByte, ih, Option.map_map]
      rfl

theorem unescape_ascii (hc : c.val < 0x80) (hne : c ≠ percent) :
    unescape (c :: s) = (unescape s).map (utf8Bytes c ++ ·) := by
  have hbytes : utf8Bytes c = [UInt8.ofNat c.val] := if_pos hc
  rcases s with _ | ⟨hi, _ | ⟨lo, s⟩⟩ <;> simp [unescape, hne, hc, hbytes]

/-- **The escapes stand for the bytes of the text.** -/
theorem unescape_percentEncode (hkeep : ∀ c, keep c = true → c.val < 0x80 ∧ c ≠ percent) :
    unescape (percentEncode keep s ++ rest) = (unescape rest).map (s.flatMap utf8Bytes ++ ·) := by
  induction s with
  | nil => simp [percentEncode]
  | cons c s ih =>
      rw [percentEncode, List.flatMap_cons, List.append_assoc, List.flatMap_cons]
      change unescape (_ ++ (percentEncode keep s ++ rest)) = _
      split
      · rename_i hc
        rw [List.singleton_append, unescape_ascii (hkeep c hc).1 (hkeep c hc).2, ih,
          Option.map_map]
        simp [Function.comp_def]
      · rw [unescape_escapes, ih, Option.map_map]
        simp [Function.comp_def]

/-- **Decoding takes back the encoding.** -/
theorem percentDecode_percentEncode (hkeep : ∀ c, keep c = true → c.val < 0x80 ∧ c ≠ percent)
    (h : encodable s = true) : percentDecode (percentEncode keep s) = some s := by
  have hbytes : unescape (percentEncode keep s) = some (s.flatMap utf8Bytes) := by
    simpa [unescape] using @unescape_percentEncode keep s [] hkeep
  rw [percentDecode, hbytes, Option.bind_some, decodeUtf8_encode h]

/-- The characters of an encoding: those that are kept, a `%` and digits. -/
theorem mem_percentEncode (hc : c ∈ percentEncode keep s) :
    (c ∈ s ∧ keep c = true) ∨ c = percent ∨ ∃ n < 16, c = hexCapital n := by
  obtain ⟨d, hmem, hd⟩ := List.mem_flatMap.1 hc
  split at hd
  · rw [List.mem_singleton.1 hd]
    exact .inl ⟨hmem, ‹_›⟩
  · obtain ⟨b, -, hb⟩ := List.mem_flatMap.1 hd
    have hlt : b.toNat < 256 := b.toNat_lt
    simp only [escapeByte, List.mem_cons, List.not_mem_nil, or_false] at hb
    rcases hb with rfl | rfl | rfl
    · exact .inr (.inl rfl)
    · exact .inr (.inr ⟨_, by omega, rfl⟩)
    · exact .inr (.inr ⟨_, by omega, rfl⟩)

theorem percentEncode_of_keep (h : ∀ c ∈ s, keep c = true) : percentEncode keep s = s := by
  induction s with
  | nil => rfl
  | cons c s ih =>
      rw [percentEncode, List.flatMap_cons, if_pos (h c List.mem_cons_self)]
      exact congrArg (c :: ·) (ih fun d hd => h d (List.mem_cons_of_mem _ hd))

end Escapes

end Lib
end Liza
