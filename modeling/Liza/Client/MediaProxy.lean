/-
# The proxy that decrypts media for the player

`clients/flutter/lib/utils/e2ee_media_proxy.dart`: the player asks a local proxy for a range
of a video, the proxy asks the server for the encrypted bytes and decrypts them on the way.
AES in counter mode has no padding, so byte `n` of the file is byte `n` of the encrypted
file; the range sent to the server starts at the block of the range the player wants.

`decryptCtrStream` takes the encrypted bytes in the chunks the network delivers.  It keeps
the bytes of a block that is not complete, decrypts whole blocks with the counter of their
place, and cuts the first bytes off the first chunk it emits.

`_resumableUpstream` gets the encrypted bytes.  When the connection breaks it asks again,
from the byte after the last one it got, and gives up after six failures without progress.
One attempt is one step of a transition system: the reply of the server, in the chunks that
arrive, and how it ends.

AES itself is a parameter: `aes key block` is the encryption of a block.  `aesCtrImpl` of the
`matrix` package combines block `i` of its input with the encryption of the counter block,
its low 64 bits increased by `i`.
-/

import Liza.Lib.Keystream
import Mathlib.Algebra.Ring.Nat

set_option autoImplicit false

namespace Liza
namespace Client

open Lib

/-- A `Uint8List`. -/
abbrev Bytes := List UInt8

/-- A block of AES, and an initialisation vector: a `Uint8List` of 16 bytes. -/
abbrev Block := Fin 16 → UInt8

instance neZero_blockSize : NeZero 16 := ⟨by decide⟩

/-! ### The counter -/

/-- The loop of `_adjustIv` over the bytes `8 + n - 1` down to `8`. -/
def adjustLoop : ℕ → Block → ℕ → Block
  | 0, iv, _ => iv
  | n + 1, iv, carry =>
      if carry = 0 then iv
      else
        let i : Fin 16 := Fin.ofNat 16 (8 + n)
        let sum := (iv i).toNat + carry % 256
        adjustLoop n (Function.update iv i (UInt8.ofNat (sum % 256))) (carry / 256 + sum / 256)

/-- `_adjustIv`. -/
def adjustIv (baseIv : Block) (blockOffset : ℕ) : Block :=
  if blockOffset = 0 then baseIv else adjustLoop 8 baseIv blockOffset

/-- The number written in the bytes `8 … 8 + n - 1`, big-endian. -/
def counterOf : ℕ → Block → ℕ
  | 0, _ => 0
  | n + 1, iv => counterOf n iv * 256 + (iv (Fin.ofNat 16 (8 + n))).toNat

/-- The low 64 bits of a counter block. -/
def counter (iv : Block) : ℕ := counterOf 8 iv

/-- A counter block with its low 64 bits increased, modulo `2 ^ 64`. -/
def increased (iv : Block) (i : ℕ) : Block := fun j =>
  if j.val < 8 then iv j
  else UInt8.ofNat ((counter iv + i) % 2 ^ 64 / 256 ^ (15 - j.val) % 256)

/-! ### Decryption -/

section Decryption

variable (aes : Bytes → Block → Block)

/-- Byte `n` of the keystream. -/
def keystream (key : Bytes) (iv : Block) (n : ℕ) : UInt8 :=
  aes key (increased iv (n / 16)) (Fin.ofNat 16 (n % 16))

/-- `aesCtrImpl`. -/
def aesCtrImpl (input key : Bytes) (iv : Block) : Bytes :=
  mask (· ^^^ ·) (keystream aes key iv) 0 input

/-- `l.sublist(start)`, which raises a `RangeError` beyond the end of the list. -/
def sublist (l : Bytes) (start : ℕ) : Option Bytes :=
  if start ≤ l.length then some (l.drop start) else none

/-- The variables of `decryptCtrStream`. -/
structure CtrState where
  encryptedProcessed : ℕ
  pending : Bytes
  isFirstChunk : Bool

/-- What is emitted of a chunk that is decrypted. -/
def emitted (st : CtrState) (byteOffset : ℕ) (decrypted : Bytes) : Option Bytes :=
  if st.isFirstChunk && byteOffset > 0 then sublist decrypted byteOffset else some decrypted

variable (key : Bytes) (adjustedIv : Block) (byteOffset : ℕ)

/-- The body of the loop of `decryptCtrStream`: the state after a chunk, and what is
emitted. -/
def onChunk (st : CtrState) (chunk : Bytes) : Option (CtrState × List Bytes) :=
  let pending := st.pending ++ chunk
  let alignedLen := pending.length / 16 * 16
  if alignedLen = 0 then some ({ st with pending := pending }, [])
  else do
    let toDecrypt := pending.take alignedLen
    let chunkIv := adjustIv adjustedIv (st.encryptedProcessed / 16)
    let out ← emitted st byteOffset (aesCtrImpl aes toDecrypt key chunkIv)
    some (⟨st.encryptedProcessed + toDecrypt.length, pending.drop alignedLen, false⟩, [out])

/-- The end of `decryptCtrStream`: the last block, which is not complete. -/
def onDone (st : CtrState) : Option (List Bytes) :=
  if st.pending.isEmpty then some []
  else do
    let chunkIv := adjustIv adjustedIv (st.encryptedProcessed / 16)
    let out ← emitted st byteOffset (aesCtrImpl aes st.pending key chunkIv)
    some [out]

/-- `decryptCtrStream` from a state on. -/
def decryptFrom (st : CtrState) : List Bytes → Option (List Bytes)
  | [] => onDone aes key adjustedIv byteOffset st
  | chunk :: chunks => do
      let (st', out) ← onChunk aes key adjustedIv byteOffset st chunk
      let outs ← decryptFrom st' chunks
      some (out ++ outs)

/-- `decryptCtrStream`: the chunks it emits, or `none` where it raises. -/
def decryptCtrStream (encryptedBody : List Bytes) (keyBytes : Bytes) (baseIv : Block)
    (rangeStart : ℕ) : Option (List Bytes) :=
  decryptFrom aes keyBytes (adjustIv baseIv (rangeStart / 16)) (rangeStart % 16) ⟨0, [], true⟩
    encryptedBody

end Decryption

/-! ### Resuming a download -/

/-- How the body of an answer ends: normally, by an `HttpException` or a `SocketException`, or
by another exception. -/
inductive Ending where
  | done
  | broken
  | raised
deriving DecidableEq

/-- What comes of a request: no answer, or the status of an answer and the chunks of its body
that arrive. -/
inductive Reply where
  | refused
  | answered (status : ℕ) (chunks : List Bytes) (ending : Ending)
deriving DecidableEq

/-- How the generator ended: not yet, by `return`, by a `VideoProxyException` at a byte, or by
another exception. -/
inductive Outcome where
  | running
  | completed
  | exhausted (pos : ℕ)
  | failed
deriving DecidableEq

/-- The variables of `_resumableUpstream`, and the chunks it has emitted. -/
structure Upstream where
  pos : ℕ
  retries : ℕ
  out : List Bytes
  outcome : Outcome
deriving DecidableEq

/-- `_maxUpstreamRetries`. -/
def maxUpstreamRetries : ℕ := 6

/-- `_resumableUpstream` before its first request. -/
def Upstream.start (startOffset : ℕ) : Upstream := ⟨startOffset, 0, [], .running⟩

/-- The body of `await for`. -/
def Upstream.receive (st : Upstream) (chunk : Bytes) : Upstream :=
  { st with pos := st.pos + chunk.length, retries := 0, out := st.out ++ [chunk] }

/-- The handler of a broken connection. -/
def Upstream.onBroken (st : Upstream) : Upstream :=
  if st.retries + 1 > maxUpstreamRetries then
    { st with retries := st.retries + 1, outcome := .exhausted st.pos }
  else { st with retries := st.retries + 1 }

/-- One turn of the loop: a request for `bytes=pos-end`, and what comes of it.  The status
and the headers of the answer are not looked at. -/
def Upstream.attempt (st : Upstream) (reply : Reply) : Option Upstream :=
  if st.outcome = .running then
    match reply with
    | .refused => some st.onBroken
    | .answered _ chunks ending =>
        let st' := chunks.foldl Upstream.receive st
        match ending with
        | .done => some { st' with outcome := .completed }
        | .broken => some st'.onBroken
        | .raised => some { st' with outcome := .failed }
  else none

end Client
end Liza
