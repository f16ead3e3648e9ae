/-
# The counter block is a buffer of its own

`_adjustIv` of `clients/flutter/lib/utils/e2ee_media_proxy.dart` works on `Uint8List`s, which are
shared by reference, with the 64-bit integers of Dart.  `adjustIv` of `Liza.Client.MediaProxy` says
what it computes of values, with numbers that do not overflow.

Here the buffers are in a store, and the function allocates one and writes into it.  As long as the
offset is not negative no step of the loop overflows (`adjustLoopAt_eq`), so the buffer that is
returned has the bytes of `adjustIv`, and all buffers that were there before are as they were
(`adjustIvAt_spec`).
-/

import Liza.Client.Decryption

set_option autoImplicit false

namespace Liza
namespace Client

/-- A Dart `int`: 64 bits, in two's complement. -/
abbrev DartInt := BitVec 64

/-- The `Uint8List`s of 16 bytes that were allocated; a reference is a place in the list. -/
abbrev Buffers := List Block

/-- `list[i]`. -/
def Buffers.get (buffers : Buffers) (list : ℕ) (i : Fin 16) : DartInt :=
  match buffers[list]? with
  | some bytes => BitVec.ofNat 64 (bytes i).toNat
  | none => 0

/-- `list[i] = value`: the low eight bits are stored. -/
def Buffers.put (buffers : Buffers) (list : ℕ) (i : Fin 16) (value : DartInt) : Buffers :=
  buffers.modify list fun bytes => Function.update bytes i (UInt8.ofNat value.toNat)

/-- The loop of `_adjustIv` over the bytes `8 + n - 1` down to `8` of the buffer `adjusted`. -/
def adjustLoopAt (adjusted : ℕ) : ℕ → Buffers → DartInt → Buffers
  | 0, buffers, _ => buffers
  | n + 1, buffers, carry =>
      if 0 < carry.toInt then
        let i : Fin 16 := Fin.ofNat 16 (8 + n)
        let sum := buffers.get adjusted i + (carry &&& 0xFF)
        adjustLoopAt adjusted n (buffers.put adjusted i (sum &&& 0xFF))
          (carry.sshiftRight 8 + sum.sshiftRight 8)
      else buffers

/-- `_adjustIv`: the buffers afterwards, and the one that is returned. -/
def adjustIvAt (buffers : Buffers) (baseIv : ℕ) (blockOffset : DartInt) : Buffers × ℕ :=
  if blockOffset = 0 then (buffers, baseIv)
  else match buffers[baseIv]? with
    | some bytes =>
        let adjusted := buffers.length
        (adjustLoopAt adjusted 8 (buffers ++ [bytes]) blockOffset, adjusted)
    | none => (buffers, baseIv)

/-! ### Integers that are not negative -/

section Integers

variable {x y : DartInt} {buffers : Buffers} {iv : Block} {baseIv : ℕ}

theorem toNat_lt_of_toInt (h : 0 ≤ x.toInt) : x.toNat < 2 ^ 63 := by
  have hx := x.isLt
  rw [BitVec.toInt_eq_toNat_cond] at h
  split at h
  · omega
  · omega

theorem toInt_of_lt (h : x.toNat < 2 ^ 63) : x.toInt = x.toNat :=
  BitVec.toInt_eq_toNat_of_lt (by omega)

/-- `x & 0xFF`. -/
theorem toNat_low (x : DartInt) : (x &&& 0xFF).toNat = x.toNat % 256 := by
  rw [BitVec.toNat_and]
  exact Nat.and_two_pow_sub_one_eq_mod x.toNat 8

/-- `x >> 8`. -/
theorem toNat_high (h : x.toNat < 2 ^ 63) : (x.sshiftRight 8).toNat = x.toNat / 256 := by
  have hmsb : x.msb = false := BitVec.msb_eq_false_iff_two_mul_lt.2 (by omega)
  rw [BitVec.toNat_sshiftRight_of_msb_false hmsb, Nat.shiftRight_eq_div_pow]

/-- Integers whose sum is no more than 64 bits long. -/
theorem toNat_sum (h : x.toNat + y.toNat < 2 ^ 64) : (x + y).toNat = x.toNat + y.toNat := by
  rw [BitVec.toNat_add, Nat.mod_eq_of_lt h]

/-- The last buffer is read. -/
theorem get_last (buffers : Buffers) (iv : Block) (i : Fin 16) :
    (Buffers.get (buffers ++ [iv]) buffers.length i).toNat = (iv i).toNat := by
  have hbyte := (iv i).toNat_lt
  rw [Buffers.get, List.getElem?_concat_length]
  exact Nat.mod_eq_of_lt (by omega)

/-- The last buffer is written, and no other one. -/
theorem put_last (buffers : Buffers) (iv : Block) (i : Fin 16) (value : DartInt) :
    Buffers.put (buffers ++ [iv]) buffers.length i value =
      buffers ++ [Function.update iv i (UInt8.ofNat value.toNat)] := by
  rw [Buffers.put]
  induction buffers with
  | nil => rfl
  | cons bytes buffers ih => rw [List.cons_append, List.length_cons, List.modify_succ_cons, ih,
      List.cons_append]

/-- **The loop does to the last buffer what `adjustLoop` does to its bytes**: no carry overflows. -/
theorem adjustLoopAt_eq (buffers : Buffers) (n : ℕ) (iv : Block) {carry : DartInt}
    (hcarry : carry.toNat < 2 ^ 63) :
    adjustLoopAt buffers.length n (buffers ++ [iv]) carry =
      buffers ++ [adjustLoop n iv carry.toNat] := by
  induction n generalizing iv carry with
  | zero => rfl
  | succ n ih =>
      rw [adjustLoopAt, toInt_of_lt hcarry]
      by_cases hzero : carry.toNat = 0
      · rw [if_neg (by omega), hzero]
        simp [adjustLoop]
      · rw [if_pos (by omega), adjustLoop_succ hzero]
        dsimp only
        generalize hi : Fin.ofNat 16 (8 + n) = i
        have hbyte := (iv i).toNat_lt
        have hlow := toNat_low carry
        have hsum : (Buffers.get (buffers ++ [iv]) buffers.length i + (carry &&& 0xFF)).toNat =
            (iv i).toNat + carry.toNat % 256 := by
          rw [toNat_sum] <;> rw [get_last, hlow]
          omega
        have hcarries : (carry.sshiftRight 8 +
            (Buffers.get (buffers ++ [iv]) buffers.length i + (carry &&& 0xFF)).sshiftRight 8).toNat =
              carry.toNat / 256 + ((iv i).toNat + carry.toNat % 256) / 256 := by
          rw [toNat_sum] <;> rw [toNat_high hcarry, toNat_high (by omega), hsum]
          omega
        rw [put_last, ih _ (by omega), toNat_low, hsum, hcarries]

/-- **The function returns the bytes of `adjustIv`, and changes no buffer that was there.** -/
theorem adjustIvAt_spec {n : DartInt} (hiv : buffers[baseIv]? = some iv) (hn : 0 ≤ n.toInt) :
    (adjustIvAt buffers baseIv n).1[(adjustIvAt buffers baseIv n).2]? =
        some (adjustIv iv n.toNat) ∧
      ∀ (list : ℕ) (bytes : Block), buffers[list]? = some bytes →
        (adjustIvAt buffers baseIv n).1[list]? = some bytes := by
  unfold adjustIvAt
  split
  · rename_i hzero
    subst hzero
    exact ⟨hiv, fun _ _ h => h⟩
  · rename_i hne
    have hnat : n.toNat ≠ 0 := fun h => hne (BitVec.eq_of_toNat_eq h)
    rw [hiv]
    dsimp only
    rw [adjustLoopAt_eq buffers 8 iv (toNat_lt_of_toInt hn), adjustIv, if_neg hnat]
    refine ⟨List.getElem?_concat_length, fun list bytes h => ?_⟩
    obtain ⟨hlist, -⟩ := List.getElem?_eq_some_iff.1 h
    rw [List.getElem?_append_left hlist]
    exact h

/-- **Adjusting the counter is addition.**  For every buffer and all offsets that are not negative:
the first eight bytes stay, and the last eight are the old number plus the offset, modulo `2 ^ 64`;
two adjustments make the bytes of one by the sum, if it is in range; and no buffer is changed. -/
theorem adjustIvAt_adds (buffers : Buffers) (baseIv : ℕ) (iv : Block)
    (hiv : buffers[baseIv]? = some iv) (m n : DartInt) (hm : 0 ≤ m.toInt) (hn : 0 ≤ n.toInt) :
    (∃ out, (adjustIvAt buffers baseIv n).1[(adjustIvAt buffers baseIv n).2]? = some out ∧
      (∀ j : Fin 16, j.val < 8 → out j = iv j) ∧
      counter out = (counter iv + n.toNat) % 2 ^ 64) ∧
    (m.toInt + n.toInt < 2 ^ 63 →
      (adjustIvAt (adjustIvAt buffers baseIv m).1 (adjustIvAt buffers baseIv m).2 n).1[
        (adjustIvAt (adjustIvAt buffers baseIv m).1 (adjustIvAt buffers baseIv m).2 n).2]? =
      (adjustIvAt buffers baseIv (m + n)).1[(adjustIvAt buffers baseIv (m + n)).2]?) ∧
    ∀ (list : ℕ) (bytes : Block), buffers[list]? = some bytes →
      (adjustIvAt buffers baseIv n).1[list]? = some bytes := by
  obtain ⟨hout, hkept⟩ := adjustIvAt_spec hiv hn
  refine ⟨⟨_, hout, fun j hj => ?_, ?_⟩, fun hrange => ?_, hkept⟩
  · rw [adjustIv_eq, increased_first _ _ hj]
  · rw [adjustIv_eq, counter_increased]
  · have hm' := toNat_lt_of_toInt hm
    have hn' := toNat_lt_of_toInt hn
    rw [toInt_of_lt hm', toInt_of_lt hn'] at hrange
    have hsum : (m + n).toNat = m.toNat + n.toNat := toNat_sum (by omega)
    have hsum0 : 0 ≤ (m + n).toInt := by
      rw [toInt_of_lt (by omega)]
      omega
    obtain ⟨honce, -⟩ := adjustIvAt_spec hiv hm
    rw [(adjustIvAt_spec honce hn).1, (adjustIvAt_spec hiv hsum0).1, adjustIv_eq, adjustIv_eq,
      adjustIv_eq, increased_increased, hsum]

/-- A counter at its limit, in one step and in two. -/
theorem adjustIvAt_adds_limit :
    (adjustIvAt (adjustIvAt [fun _ => 255] 0 1).1 (adjustIvAt [fun _ => 255] 0 1).2 255).1[
      (adjustIvAt (adjustIvAt [fun _ => 255] 0 1).1 (adjustIvAt [fun _ => 255] 0 1).2 255).2]? =
    (adjustIvAt [fun _ => 255] 0 (1 + 255)).1[(adjustIvAt [fun _ => 255] 0 (1 + 255)).2]? :=
  (adjustIvAt_adds [fun _ => 255] 0 (fun _ => 255) rfl 1 255 (by decide) (by decide)).2.1 (by decide)

end Integers

end Client
end Liza
