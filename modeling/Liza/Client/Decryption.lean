/-
# Decrypting a stream is decrypting the file

`_adjustIv` adds to the 64-bit counter in the last eight bytes of a counter block, with the
carries going up byte by byte and the last one dropped (`adjustIv_eq`), so two adjustments
are one by the sum (`increased_increased`).  With this, a chunk that starts at a block
boundary is decrypted with the part of the file's keystream that belongs to it
(`aesCtrImpl_adjustIv`), and whatever the chunks are, the emitted bytes are the decrypted
file from the start of the range on (`decrypt_stream_eq_file`).
-/

import Liza.Client.MediaProxy
import Mathlib.Tactic.Ring

set_option autoImplicit false

namespace Liza
namespace Client

open Lib

/-! ### The counter -/

variable {iv iv' : Block} {n : ℕ}

/-- The place of byte `8 + n`. -/
theorem ofNat_val (h : n < 8) : (Fin.ofNat 16 (8 + n)).val = 8 + n := by
  show (8 + n) % 16 = 8 + n
  omega

/-- Only the bytes that are read matter. -/
theorem counterOf_congr (hn : n ≤ 8) (h : ∀ m < n, iv (Fin.ofNat 16 (8 + m)) =
    iv' (Fin.ofNat 16 (8 + m))) : counterOf n iv = counterOf n iv' := by
  induction n with
  | zero => rfl
  | succ n ih =>
      rw [counterOf, counterOf, h n (by omega), ih (by omega) fun m hm => h m (by omega)]

theorem counterOf_lt (n : ℕ) (iv : Block) : counterOf n iv < 256 ^ n := by
  induction n with
  | zero => simp [counterOf]
  | succ n ih =>
      have hb := (iv (Fin.ofNat 16 (8 + n))).toNat_lt
      rw [counterOf, pow_succ]
      omega

/-- The number determines its bytes. -/
theorem byte_eq_of_counterOf (h : counterOf n iv = counterOf n iv') :
    ∀ m < n, iv (Fin.ofNat 16 (8 + m)) = iv' (Fin.ofNat 16 (8 + m)) := by
  induction n with
  | zero => intro m hm; omega
  | succ n ih =>
      have hb := (iv (Fin.ofNat 16 (8 + n))).toNat_lt
      have hb' := (iv' (Fin.ofNat 16 (8 + n))).toNat_lt
      rw [counterOf, counterOf] at h
      intro m hm
      rcases Nat.lt_succ_iff_lt_or_eq.1 hm with hlt | rfl
      · exact ih (by omega) m hlt
      · exact UInt8.toNat_inj.1 (by omega)

/-- A block is its first eight bytes and its counter. -/
theorem block_ext (hfirst : ∀ j : Fin 16, j.val < 8 → iv j = iv' j)
    (hcounter : counter iv = counter iv') : iv = iv' := by
  funext j
  by_cases hj : j.val < 8
  · exact hfirst j hj
  · have hlt := j.isLt
    have hbyte := byte_eq_of_counterOf hcounter (j.val - 8) (by omega)
    have hj' : Fin.ofNat 16 (8 + (j.val - 8)) = j := Fin.ext (by rw [ofNat_val] <;> omega)
    rwa [hj'] at hbyte

/-- The bytes of a number, from the highest one on. -/
theorem counterOf_digits {c : ℕ} (hc : c < 256 ^ 8) (hn : n ≤ 8)
    (h : ∀ m < n, (iv (Fin.ofNat 16 (8 + m))).toNat = c / 256 ^ (7 - m) % 256) :
    counterOf n iv = c / 256 ^ (8 - n) := by
  induction n with
  | zero => rw [counterOf, Nat.div_eq_of_lt hc]
  | succ n ih =>
      have hpow : 8 - n = 7 - n + 1 := by omega
      rw [counterOf, ih (by omega) fun m hm => h m (by omega), h n (by omega), hpow, pow_succ,
        ← Nat.div_div_eq_div_mul, show 8 - (n + 1) = 7 - n from by omega]
      omega

@[simp]
theorem increased_first (iv : Block) (i : ℕ) {j : Fin 16} (hj : j.val < 8) :
    increased iv i j = iv j := if_pos hj

@[simp]
theorem counter_increased (iv : Block) (i : ℕ) :
    counter (increased iv i) = (counter iv + i) % 2 ^ 64 := by
  have hc : (counter iv + i) % 2 ^ 64 < 256 ^ 8 := Nat.mod_lt _ (by norm_num)
  rw [counter, counterOf_digits hc le_rfl]
  · simp
  · intro m hm
    have hplace := ofNat_val hm
    rw [increased, if_neg (by omega), hplace, show 15 - (8 + m) = 7 - m from by omega,
      UInt8.toNat_ofNat']
    omega

/-- **Adding twice is adding the sum.** -/
theorem increased_increased (iv : Block) (a b : ℕ) :
    increased (increased iv a) b = increased iv (a + b) := by
  refine block_ext (fun j hj => ?_) ?_
  · rw [increased_first _ _ hj, increased_first _ _ hj, increased_first _ _ hj]
  · rw [counter_increased, counter_increased, counter_increased, Nat.mod_add_mod, Nat.add_assoc]

/-- One byte of the loop: the carry is the high part of the sum. -/
theorem byte_carry (b c : ℕ) :
    b + c = 256 * (c / 256 + (b + c % 256) / 256) + (b + c % 256) % 256 := by
  omega

/-- The carry goes into the higher bytes, the rest stays in this one. -/
theorem shift_mod {x r : ℕ} (hr : r < 256) (p : ℕ) :
    (x * 256 + r) % (p * 256) = x % p * 256 + r := by
  have hlow : (x * 256 + r) % 256 = r := by omega
  have hhigh : (x * 256 + r) / 256 = x := by omega
  rw [Nat.mul_comm p, Nat.mod_mul, hlow, hhigh]
  ring

theorem adjustLoop_succ {c : ℕ} (hc : c ≠ 0) (n : ℕ) (iv : Block) :
    adjustLoop (n + 1) iv c = adjustLoop n
      (Function.update iv (Fin.ofNat 16 (8 + n))
        (UInt8.ofNat (((iv (Fin.ofNat 16 (8 + n))).toNat + c % 256) % 256)))
      (c / 256 + ((iv (Fin.ofNat 16 (8 + n))).toNat + c % 256) / 256) := by
  simp only [adjustLoop, if_neg hc]

/-- **The loop adds the carry to the number in the bytes it goes over**, and leaves the
others. -/
theorem adjustLoop_spec (hn : n ≤ 8) (iv : Block) (c : ℕ) :
    counterOf n (adjustLoop n iv c) = (counterOf n iv + c) % 256 ^ n ∧
      ∀ j : Fin 16, j.val < 8 ∨ 8 + n ≤ j.val → adjustLoop n iv c j = iv j := by
  induction n generalizing iv c with
  | zero => simp [adjustLoop, counterOf, Nat.mod_one]
  | succ n ih =>
      by_cases hc : c = 0
      · subst hc
        have hloop : adjustLoop (n + 1) iv 0 = iv := by simp [adjustLoop]
        refine ⟨?_, fun j _ => by rw [hloop]⟩
        rw [hloop, Nat.add_zero (counterOf _ _), Nat.mod_eq_of_lt (counterOf_lt _ _)]
      · have hplace := ofNat_val (show n < 8 by omega)
        rw [adjustLoop_succ hc]
        generalize hb : (iv (Fin.ofNat 16 (8 + n))).toNat = b
        -- The bytes before this one are those the rest of the loop goes over.
        obtain ⟨hcount, hother⟩ := ih (by omega)
          (Function.update iv (Fin.ofNat 16 (8 + n)) (UInt8.ofNat ((b + c % 256) % 256)))
          (c / 256 + (b + c % 256) / 256)
        have hsame : counterOf n (Function.update iv (Fin.ofNat 16 (8 + n))
            (UInt8.ofNat ((b + c % 256) % 256))) = counterOf n iv := by
          refine counterOf_congr (by omega) fun m hm => Function.update_of_ne ?_ _ _
          intro heq
          have hval := congrArg Fin.val heq
          rw [ofNat_val (show m < 8 by omega), hplace] at hval
          omega
        have hr : (b + c % 256) % 256 < 256 := Nat.mod_lt _ (by norm_num)
        have hsum : counterOf n iv * 256 + b + c =
            (counterOf n iv + (c / 256 + (b + c % 256) / 256)) * 256 + (b + c % 256) % 256 := by
          have := byte_carry b c
          omega
        constructor
        · rw [counterOf, hcount, hsame, hother _ (by omega), Function.update_self,
            UInt8.toNat_ofNat', Nat.mod_eq_of_lt hr, counterOf, hb, hsum, pow_succ, shift_mod hr]
        · intro j hj
          rw [hother j (by omega), Function.update_of_ne]
          intro heq
          have hval := congrArg Fin.val heq
          rw [hplace] at hval
          omega

/-- **`_adjustIv` is addition to the counter.** -/
theorem adjustIv_eq (iv : Block) (n : ℕ) : adjustIv iv n = increased iv n := by
  refine block_ext (fun j hj => ?_) ?_
  · rw [increased_first _ _ hj, adjustIv]
    split
    · rfl
    · exact (adjustLoop_spec le_rfl iv n).2 j (.inl hj)
  · rw [counter_increased, adjustIv]
    split
    · rename_i hn
      have hlt : counter iv < 2 ^ 64 := counterOf_lt 8 iv
      rw [hn, Nat.add_zero (counter iv), Nat.mod_eq_of_lt hlt]
    · exact (adjustLoop_spec le_rfl iv n).1

/-! ### The stream -/

variable {byteOffset : ℕ}

/-- The keystream of a later counter is a later part of the keystream. -/
theorem keystream_increased (aes : Bytes → Block → Block) (key : Bytes) (iv : Block) (b i : ℕ) :
    keystream aes key (increased iv b) i = keystream aes key iv (16 * b + i) := by
  have hdiv : (16 * b + i) / 16 = b + i / 16 := by omega
  have hmod : (16 * b + i) % 16 = i % 16 := by omega
  rw [keystream, keystream, increased_increased, hdiv, hmod]

/-- **A part that starts at a block is decrypted with its part of the keystream.** -/
theorem aesCtrImpl_adjustIv (aes : Bytes → Block → Block) (key : Bytes) (iv : Block) {p : ℕ}
    (hp : p % 16 = 0) (d : Bytes) :
    aesCtrImpl aes d key (adjustIv iv (p / 16)) = mask (· ^^^ ·) (keystream aes key iv) p d := by
  have hblocks : 16 * (p / 16) = p := by omega
  rw [aesCtrImpl, adjustIv_eq, mask_shift (keystream_increased aes key iv (p / 16)), hblocks,
    Nat.add_zero]

/-- What has to be cut off before the next byte is emitted. -/
def CtrState.cut (st : CtrState) (byteOffset : ℕ) : ℕ := if st.isFirstChunk then byteOffset else 0

theorem emitted_eq (st : CtrState) {d : Bytes} (h : st.cut byteOffset ≤ d.length) :
    emitted st byteOffset d = some (d.drop (st.cut byteOffset)) := by
  unfold emitted CtrState.cut at *
  cases hf : st.isFirstChunk with
  | false => simp
  | true =>
      simp only [hf, if_true] at h
      by_cases hb : byteOffset > 0
      · simp [hb, sublist, h]
      · simp [show byteOffset = 0 from by omega]

/-- The state between two chunks: whole blocks are decrypted, and less than a block waits. -/
structure CtrState.Between (st : CtrState) : Prop where
  processed : st.encryptedProcessed % 16 = 0
  waits : st.pending.length < 16

/-- **From any state, the rest of the stream is decrypted with its part of the keystream**,
whatever its chunks are. -/
theorem decryptFrom_eq (aes : Bytes → Block → Block) (key : Bytes) (iv : Block)
    (hb : byteOffset < 16) (chunks : List Bytes) (st : CtrState) (hst : st.Between)
    (hcut : st.cut byteOffset ≤ (st.pending ++ chunks.flatten).length) :
    ∃ outs, decryptFrom aes key iv byteOffset st chunks = some outs ∧
      outs.flatten = (mask (· ^^^ ·) (keystream aes key iv) st.encryptedProcessed
        (st.pending ++ chunks.flatten)).drop (st.cut byteOffset) := by
  induction chunks generalizing st with
  | nil =>
      rw [List.flatten_nil, List.append_nil] at hcut ⊢
      by_cases hp : st.pending = []
      · exact ⟨[], by simp [decryptFrom, onDone, hp], by simp [hp, mask]⟩
      · have hne : ¬st.pending.isEmpty = true := by simpa using hp
        have hemit := emitted_eq st (d := mask (· ^^^ ·) (keystream aes key iv)
          st.encryptedProcessed st.pending) (by simpa using hcut)
        refine ⟨[_], ?_, List.flatten_singleton⟩
        simp only [decryptFrom, onDone, if_neg hne, aesCtrImpl_adjustIv aes key iv hst.processed,
          hemit, Option.bind_eq_bind, Option.bind_some]
  | cons chunk chunks ih =>
      simp only [decryptFrom, onChunk, aesCtrImpl_adjustIv aes key iv hst.processed]
      rw [List.flatten_cons, ← List.append_assoc] at hcut ⊢
      generalize st.pending ++ chunk = pending at hcut ⊢
      by_cases hlen : pending.length / 16 * 16 = 0
      · -- Not a whole block yet: nothing is emitted.
        rw [if_pos hlen]
        obtain ⟨outs, houts, hflat⟩ := ih { st with pending := pending }
          ⟨hst.processed, show pending.length < 16 by omega⟩ hcut
        refine ⟨outs, ?_, hflat⟩
        simp [houts]
      · rw [if_neg hlen]
        have htake : (pending.take (pending.length / 16 * 16)).length = pending.length / 16 * 16 :=
          List.length_take_of_le (by omega)
        have hcutlt : st.cut byteOffset < 16 := by
          unfold CtrState.cut
          split <;> omega
        have hemit : emitted st byteOffset (mask (· ^^^ ·) (keystream aes key iv)
            st.encryptedProcessed (pending.take (pending.length / 16 * 16))) = some _ :=
          emitted_eq st (by rw [length_mask, htake]; omega)
        obtain ⟨outs, houts, hflat⟩ := ih
          ⟨st.encryptedProcessed + (pending.take (pending.length / 16 * 16)).length,
            pending.drop (pending.length / 16 * 16), false⟩
          ⟨show (st.encryptedProcessed + (pending.take _).length) % 16 = 0 by
              have := hst.processed
              rw [htake]
              omega,
            show (pending.drop _).length < 16 by rw [List.length_drop]; omega⟩
          (by simp [CtrState.cut])
        refine ⟨(mask (· ^^^ ·) (keystream aes key iv) st.encryptedProcessed
          (pending.take (pending.length / 16 * 16))).drop (st.cut byteOffset) :: outs, ?_, ?_⟩
        · simp only [hemit, houts, Option.bind_eq_bind, Option.bind_some, List.singleton_append]
        have hwhole : outs.flatten = mask (· ^^^ ·) (keystream aes key iv)
            (st.encryptedProcessed + (pending.take (pending.length / 16 * 16)).length)
            (pending.drop (pending.length / 16 * 16) ++ chunks.flatten) := hflat
        rw [List.flatten_cons, hwhole]
        -- The emitted part and the rest are one masked text, cut once at its start.
        have hsplit : pending ++ chunks.flatten = pending.take (pending.length / 16 * 16) ++
            (pending.drop (pending.length / 16 * 16) ++ chunks.flatten) := by
          rw [← List.append_assoc, List.take_append_drop]
        rw [hsplit, mask_append _ (pending.take _),
          List.drop_append_of_le_length (by rw [length_mask, htake]; omega)]

/-- **Streaming decryption is whole-file decryption.**  However the encrypted bytes from the
block of the range on are cut into chunks, what is emitted is the decrypted file without its
first `rangeStart` bytes. -/
theorem decrypt_stream_eq_file (aes : Bytes → Block → Block) (key : Bytes) (baseIv : Block)
    (file : Bytes) (rangeStart : ℕ) (hrange : rangeStart ≤ file.length) (chunks : List Bytes)
    (hchunks : chunks.flatten = file.drop (rangeStart - rangeStart % 16)) :
    ∃ outs, decryptCtrStream aes chunks key baseIv rangeStart = some outs ∧
      outs.flatten = (aesCtrImpl aes file key baseIv).drop rangeStart := by
  have hblocks : 16 * (rangeStart / 16) = rangeStart - rangeStart % 16 := by omega
  have hsum : 16 * (rangeStart / 16) + rangeStart % 16 = rangeStart := by omega
  have hlength : rangeStart % 16 ≤ ([] ++ chunks.flatten).length := by
    rw [hchunks, List.nil_append, List.length_drop]
    omega
  obtain ⟨outs, houts, hflat⟩ := decryptFrom_eq aes key
    (adjustIv baseIv (rangeStart / 16)) (Nat.mod_lt rangeStart (by norm_num)) chunks
    ⟨0, [], true⟩ ⟨rfl, by simp⟩ hlength
  refine ⟨outs, houts, ?_⟩
  calc outs.flatten
      = (mask (· ^^^ ·) (keystream aes key (increased baseIv (rangeStart / 16))) 0
          (file.drop (16 * (rangeStart / 16)))).drop (rangeStart % 16) := by
        rw [hflat, adjustIv_eq, hblocks, ← hchunks]
        rfl
    _ = ((aesCtrImpl aes file key baseIv).drop (16 * (rangeStart / 16))).drop (rangeStart % 16) := by
        rw [mask_shift (keystream_increased aes key baseIv _), aesCtrImpl, drop_mask 0,
          Nat.add_zero, Nat.zero_add]
    _ = (aesCtrImpl aes file key baseIv).drop rangeStart := by
        rw [List.drop_drop, hsum]

/-- The block with the given bytes. -/
def blockOf (bytes : Bytes) : Block := fun j => bytes.getD j 0

/-- A key. -/
def sampleKey : Bytes :=
  [0x60, 0x3d, 0xeb, 0x10, 0x15, 0xca, 0x71, 0xbe, 0x2b, 0x73, 0xae, 0xf0, 0x85, 0x7d, 0x77,
    0x81, 0x1f, 0x35, 0x2c, 0x07, 0x3b, 0x61, 0x08, 0xd7, 0x2d, 0x98, 0x10, 0xa3, 0x09, 0x14,
    0xdf, 0xf4]

/-- A counter block whose last byte is at its end. -/
def sampleIv : Block :=
  blockOf
    [0xf0, 0xf1, 0xf2, 0xf3, 0xf4, 0xf5, 0xf6, 0xf7,
      0xf8, 0xf9, 0xfa, 0xfb, 0xfc, 0xfd, 0xfe, 0xff]

/-- What AES-256 makes of this counter block and of the next two, under this key. -/
def sampleAes (key : Bytes) (block : Block) : Block :=
  if key = sampleKey then
    if block 15 = 0xff then
      blockOf
        [0x0b, 0xdf, 0x7d, 0xf1, 0x59, 0x17, 0x16, 0x33,
          0x5e, 0x9a, 0x8b, 0x15, 0xc8, 0x60, 0xc5, 0x02]
    else if block 15 = 0x00 then
      blockOf
        [0x5a, 0x6e, 0x69, 0x9d, 0x53, 0x61, 0x19, 0x06,
          0x54, 0x33, 0x86, 0x3c, 0x8f, 0x65, 0x7b, 0x94]
    else
      blockOf
        [0x1b, 0xc1, 0x2c, 0x9c, 0x01, 0x61, 0x0d, 0x5d,
          0x0d, 0x8b, 0xd6, 0xa3, 0x37, 0x8e, 0xca, 0x62]
  else block

/-- A file of two blocks and a half. -/
def sampleFile : Bytes :=
  [0x6b, 0xc1, 0xbe, 0xe2, 0x2e, 0x40, 0x9f, 0x96, 0xe9, 0x3d, 0x7e, 0x11, 0x73, 0x93, 0x17,
    0x2a, 0xae, 0x2d, 0x8a, 0x57, 0x1e, 0x03, 0xac, 0x9c, 0x9e, 0xb7, 0x6f, 0xac, 0x45, 0xaf,
    0x8e, 0x51, 0x30, 0xc8, 0x1c, 0x46, 0xa3, 0x5c, 0xe4, 0x11]

/-- The same file, encrypted. -/
def sampleEncrypted : Bytes :=
  [0x60, 0x1e, 0xc3, 0x13, 0x77, 0x57, 0x89, 0xa5, 0xb7, 0xa7, 0xf5, 0x04, 0xbb, 0xf3, 0xd2,
    0x28, 0xf4, 0x43, 0xe3, 0xca, 0x4d, 0x62, 0xb5, 0x9a, 0xca, 0x84, 0xe9, 0x90, 0xca, 0xca,
    0xf5, 0xc5, 0x2b, 0x09, 0x30, 0xda, 0xa2, 0x3d, 0xe9, 0x4c]

example : aesCtrImpl sampleAes sampleEncrypted sampleKey sampleIv = sampleFile := by
  decide

/-- The file from byte 21 on, in chunks that cut its blocks. -/
theorem decrypt_stream_of_three_chunks :
    ∃ outs, decryptCtrStream sampleAes [(sampleEncrypted.drop 16).take 5, [],
        sampleEncrypted.drop 21] sampleKey sampleIv 21 = some outs ∧
      outs.flatten = (aesCtrImpl sampleAes sampleEncrypted sampleKey sampleIv).drop 21 :=
  decrypt_stream_eq_file sampleAes sampleKey sampleIv sampleEncrypted 21 (by decide) _ (by decide)

end Client
end Liza
