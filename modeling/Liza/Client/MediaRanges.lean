/-
# What the media proxy answers to a range request

`_serveDecrypted` of `clients/flutter/lib/utils/e2ee_media_proxy.dart`, which reads the `Range`
header of the player, writes the headers of the answer from its two numbers, asks the server for the
encrypted bytes from the block of the first one on, and decrypts them.  The numbers are never
compared with the size of the file or with each other: the answer is truthful, and the decryption
does not raise, exactly when the request has no such range or one within the file
(`serveDecrypted_truthful_iff`).

A number is a 64-bit integer, and `int.parse` raises where the digits are more than that.  The
server sends exactly the bytes it is asked for, in some chunks; that a download that breaks is
resumed at the same byte is shown elsewhere.  A session whose size is not known has the size 0.
The type of the content is left out: where `ContentType.parse` raises for the mimetype of the
session, the answer is a 500, too.
-/

import Liza.Client.Decryption
import Liza.Lib.PyStr

set_option autoImplicit false

namespace Liza
namespace Client

open Lib

/-! ### The header -/

/-- `\d`. -/
def isDecimal (c : CodePoint) : Bool := codePoint '0' ≤ c ∧ c ≤ codePoint '9'

/-- The regular expression at the start of a text: the two groups. -/
def matchAt (text : PyStr) : Option (PyStr × PyStr) :=
  if py "bytes=" <+: text then
    let rest := text.drop 6
    let first := rest.takeWhile isDecimal
    match rest.dropWhile isDecimal with
    | c :: after =>
        if first ≠ [] ∧ c = codePoint '-' then some (first, after.takeWhile isDecimal) else none
    | [] => none
  else none

/-- `RegExp(r'bytes=(\d+)-(\d*)').firstMatch`. -/
def firstMatch : PyStr → Option (PyStr × PyStr)
  | [] => matchAt []
  | c :: text => (matchAt (c :: text)).or (firstMatch text)

/-- The number that some digits write. -/
def number (digits : PyStr) : ℕ := digits.foldl (fun n c => n * 10 + (c.val - 48)) 0

/-- The greatest integer of 64 bits. -/
def maxInt : ℕ := 2 ^ 63 - 1

/-- `int.parse` of some digits. -/
def intParse (digits : PyStr) : Option ℕ :=
  if number digits ≤ maxInt then some (number digits) else none

/-! ### The answer -/

/-- `_ProxySession`, and the encrypted file it is about: the size is that of the file where it is
known. -/
structure Session where
  file : Bytes
  fileSize : ℤ
  keyBytes : Bytes
  ivBytes : Block
  size_eq : 0 < fileSize → (file.length : ℤ) = fileSize
  size_le : fileSize ≤ maxInt

/-- The bytes of a file that a range asks for. -/
def requestedBytes (file : Bytes) (start : ℕ) : Option ℕ → Bytes
  | some stop => (file.take (stop + 1)).drop start
  | none => file.drop start

/-- A server that sends the bytes it is asked for. -/
structure UpstreamServer (file : Bytes) where
  chunks : ℕ → Option ℕ → List Bytes
  exact : ∀ start stop, (chunks start stop).flatten = requestedBytes file start stop

/-- An answer: the body is missing where the decryption raises. -/
structure Answer where
  statusCode : ℕ
  contentRange : Option (ℕ × ℕ × ℤ)
  contentLength : Option ℤ
  body : Option (List Bytes)

/-- The variables `rangeStart`, `rangeEnd` and `isRange`; `none` where `int.parse` raises. -/
def parseRange (fileSize : ℤ) (rangeHeader : Option PyStr) : Option (ℕ × ℕ × Bool) :=
  let rangeEnd := if fileSize > 0 then (fileSize - 1).toNat else 0
  match rangeHeader.filter (fun _ => fileSize > 0) with
  | none => some (0, rangeEnd, false)
  | some text =>
      match firstMatch text with
      | none => some (0, rangeEnd, false)
      | some (first, last) => do
          let rangeStart ← intParse first
          if last = [] then some (rangeStart, rangeEnd, true)
          else do
            let rangeEnd ← intParse last
            some (rangeStart, rangeEnd, true)

/-- `response.contentLength = n`: no header for a negative number. -/
def lengthHeader (n : ℤ) : Option ℤ := if n.bmod (2 ^ 64) < 0 then none else some (n.bmod (2 ^ 64))

/-- `_serveDecrypted`; an exception before the body is answered with 500. -/
def serveDecrypted (aes : Bytes → Block → Block) (session : Session)
    (upstream : UpstreamServer session.file) (rangeHeader : Option PyStr) : Answer :=
  match parseRange session.fileSize rangeHeader with
  | none => ⟨500, none, none, some []⟩
  | some (rangeStart, rangeEnd, isRange) =>
      let alignedStart := rangeStart - rangeStart % 16
      let encrypted := upstream.chunks alignedStart
        (if session.fileSize > 0 then some rangeEnd else none)
      let body := decryptCtrStream aes encrypted session.keyBytes session.ivBytes rangeStart
      if session.fileSize > 0 then
        if isRange then
          ⟨206, some (rangeStart, rangeEnd, session.fileSize),
            lengthHeader (rangeEnd - rangeStart + 1), body⟩
        else ⟨200, none, lengthHeader session.fileSize, body⟩
      else ⟨200, none, none, body⟩

/-! ### Truthful answers -/

/-- The answer is truthful: the decryption does not raise; an answer with a part of the file names
bytes of the file, as many as it says and as it has; and one with the whole of a file whose size is
known has that many bytes, and says so. -/
structure Answer.Truthful (a : Answer) (size : ℤ) : Prop where
  decrypted : a.body ≠ none
  partial_ : a.statusCode = 206 → ∃ start stop : ℕ, ∃ outs,
    a.contentRange = some (start, stop, size) ∧ start ≤ stop ∧ (stop : ℤ) < size ∧
      a.contentLength = some ((stop : ℤ) - start + 1) ∧ a.body = some outs ∧
        (outs.flatten.length : ℤ) = stop - start + 1
  whole : a.statusCode = 200 → 0 < size → ∃ outs, a.contentLength = some size ∧
    a.body = some outs ∧ (outs.flatten.length : ℤ) = size

/-- The request has no range that is read, or one within the file: where the size is known and the
header has digits, a minus sign and perhaps digits again, of numbers of 64 bits, the first number is
at most the second one (that of the last byte, where it is missing), and this is one of a byte of
the file. -/
def Answerable (size : ℤ) (rangeHeader : Option PyStr) : Prop :=
  ∀ text first last, rangeHeader = some text → 0 < size → firstMatch text = some (first, last) →
    number first ≤ maxInt → number last ≤ maxInt →
      let stop : ℤ := if last = [] then size - 1 else number last
      number first ≤ stop ∧ stop < size

section Proofs

variable {aes : Bytes → Block → Block} {session : Session} {upstream : UpstreamServer session.file}
  {rangeHeader : Option PyStr} {start stop : ℕ} {isRange : Bool}

/-- **What is sent of a range within the file.** -/
theorem decrypt_range (aes : Bytes → Block → Block) (session : Session) (hstart : start ≤ stop)
    (hstop : stop < session.file.length) (chunks : List Bytes)
    (hchunks : chunks.flatten = (session.file.take (stop + 1)).drop (start - start % 16)) :
    ∃ outs, decryptCtrStream aes chunks session.keyBytes session.ivBytes start = some outs ∧
      outs.flatten.length = stop - start + 1 := by
  have hlength : chunks.flatten.length = stop + 1 - (start - start % 16) := by
    rw [hchunks, List.length_drop, List.length_take]
    omega
  obtain ⟨outs, houts, hflat⟩ := decryptFrom_eq aes session.keyBytes
    (adjustIv session.ivBytes (start / 16)) (Nat.mod_lt start (by norm_num)) chunks ⟨0, [], true⟩
    ⟨rfl, by simp⟩ (by
      rw [List.nil_append, hlength]
      simp only [CtrState.cut, if_true]
      omega)
  refine ⟨outs, houts, ?_⟩
  rw [hflat, List.length_drop, length_mask, List.nil_append, hlength]
  simp only [CtrState.cut, if_true]
  omega

/-- A file that is sent from its start on is decrypted. -/
theorem decrypt_whole (aes : Bytes → Block → Block) (session : Session) (chunks : List Bytes) :
    ∃ outs, decryptCtrStream aes chunks session.keyBytes session.ivBytes 0 = some outs := by
  obtain ⟨outs, houts, -⟩ := decryptFrom_eq aes session.keyBytes
    (adjustIv session.ivBytes (0 / 16)) (Nat.mod_lt 0 (by norm_num)) chunks ⟨0, [], true⟩
    ⟨rfl, by simp⟩ (by simp [CtrState.cut])
  exact ⟨outs, houts⟩

theorem lengthHeader_eq {n : ℤ} (h : 0 ≤ n) (hn : n ≤ maxInt) : lengthHeader n = some n := by
  have hmod : n.bmod (2 ^ 64) = n := by
    unfold maxInt at hn
    rw [Int.bmod_eq_of_le] <;> omega
  rw [lengthHeader, hmod, if_neg (by omega)]

/-- A header in which the regular expression finds a range. -/
theorem answerable_some {size : ℤ} {text first last : PyStr} (hsize : 0 < size)
    (hmatch : firstMatch text = some (first, last)) : Answerable size (some text) ↔
      (number first ≤ maxInt → number last ≤ maxInt →
        (number first : ℤ) ≤ (if last = [] then size - 1 else number last) ∧
          (if last = [] then size - 1 else (number last : ℤ)) < size) := by
  constructor
  · intro h
    exact h text first last rfl hsize hmatch
  · intro h t first' last' heq _ hgroups
    obtain rfl := Option.some.inj heq
    obtain ⟨rfl, rfl⟩ := Prod.mk.inj (Option.some.inj (hmatch.symm.trans hgroups))
    exact h

/-- The cases of reading the header: no range, numbers that are too great, or a range. -/
theorem parseRange_cases (size : ℤ) (rangeHeader : Option PyStr) :
    (Answerable size rangeHeader ∧
        (parseRange size rangeHeader = none ∨
          parseRange size rangeHeader =
            some (0, if size > 0 then (size - 1).toNat else 0, false))) ∨
      ∃ start stop : ℕ, parseRange size rangeHeader = some (start, stop, true) ∧ 0 < size ∧
        (Answerable size rangeHeader ↔ start ≤ stop ∧ (stop : ℤ) < size) := by
  cases rangeHeader with
  | none => exact .inl ⟨nofun, .inr rfl⟩
  | some text =>
      by_cases hsize : 0 < size
      · have hfilter : (some text).filter (fun _ => decide (size > 0)) = some text := by
          simp [hsize]
        unfold parseRange
        rw [hfilter, if_pos hsize]
        cases hmatch : firstMatch text with
        | none =>
            refine .inl ⟨fun t first last heq _ h => ?_, .inr (by simp [hmatch])⟩
            obtain rfl := Option.some.inj heq
            rw [hmatch] at h
            cases h
        | some groups =>
            obtain ⟨first, last⟩ := groups
            rw [answerable_some hsize hmatch]
            simp only [hmatch, intParse]
            by_cases hfirst : number first ≤ maxInt
            · by_cases hempty : last = []
              · subst hempty
                refine .inr ⟨number first, (size - 1).toNat, by simp [hfirst], hsize, ?_⟩
                have hlast : number [] ≤ maxInt := Nat.zero_le _
                simp only [hfirst, hlast, if_true, forall_const]
                omega
              · by_cases hlast : number last ≤ maxInt
                · refine .inr ⟨number first, number last, by simp [hfirst, hlast, hempty], hsize,
                    ?_⟩
                  simp only [hfirst, hlast, hempty, if_false, forall_const]
                  omega
                · exact .inl ⟨fun _ h => absurd h hlast, .inl (by simp [hfirst, hlast, hempty])⟩
            · exact .inl ⟨fun h => absurd h hfirst, .inl (by simp [hfirst])⟩
      · refine .inl ⟨fun t first last _ hpos => absurd hpos hsize, .inr ?_⟩
        simp [parseRange, hsize]

/-- An answer with the whole file is truthful. -/
theorem truthful_whole (hparse : parseRange session.fileSize rangeHeader =
    some (0, if session.fileSize > 0 then (session.fileSize - 1).toNat else 0, false)) :
    (serveDecrypted aes session upstream rangeHeader).Truthful session.fileSize := by
  unfold serveDecrypted
  rw [hparse]
  dsimp only
  by_cases hsize : session.fileSize > 0
  · have hfile := session.size_eq hsize
    obtain ⟨outs, houts, hlength⟩ := decrypt_range aes session
      (Nat.zero_le (session.fileSize - 1).toNat) (by omega) _
      (upstream.exact (0 - 0 % 16) (some (session.fileSize - 1).toNat))
    simp only [hsize, if_true, Bool.false_eq_true, if_false]
    rw [houts]
    refine ⟨nofun, nofun, fun _ _ => ⟨outs, lengthHeader_eq hsize.le session.size_le, rfl, ?_⟩⟩
    rw [hlength]
    omega
  · obtain ⟨outs, houts⟩ := decrypt_whole aes session
      (upstream.chunks (0 - 0 % 16) none)
    simp only [hsize, if_false]
    rw [houts]
    exact ⟨nofun, nofun, fun _ hpos => absurd hpos hsize⟩

end Proofs

/-- **When the answer to a range request is truthful.**  For every file and size, every header and
every server that sends exactly what it is asked for: the decryption does not raise, an answer with
status 206 has `0 ≤ start ≤ end < size`, a length of `end - start + 1` and as many bytes, and one
with status 200 has the size as its length, where it is known, and as many bytes, exactly when the
request is answerable. -/
theorem serveDecrypted_truthful_iff (aes : Bytes → Block → Block) (session : Session)
    (upstream : UpstreamServer session.file) (rangeHeader : Option PyStr) :
    (serveDecrypted aes session upstream rangeHeader).Truthful session.fileSize ↔
      Answerable session.fileSize rangeHeader := by
  rcases parseRange_cases session.fileSize rangeHeader with
    ⟨hanswerable, hnone | hwhole⟩ | ⟨start, stop, hparse, hsize, hiff⟩
  · refine ⟨fun _ => hanswerable, fun _ => ?_⟩
    unfold serveDecrypted
    rw [hnone]
    exact ⟨nofun, nofun, nofun⟩
  · exact ⟨fun _ => hanswerable, fun _ => truthful_whole hwhole⟩
  · rw [hiff]
    unfold serveDecrypted
    rw [hparse]
    simp only [gt_iff_lt, hsize, if_true]
    constructor
    · rintro ⟨-, h, -⟩
      obtain ⟨start', stop', outs, hrange, hle, hlt, -⟩ := h rfl
      obtain ⟨rfl, hrest⟩ := Prod.mk.inj (Option.some.inj hrange)
      obtain ⟨rfl, -⟩ := Prod.mk.inj hrest
      exact ⟨hle, hlt⟩
    · rintro ⟨hle, hlt⟩
      have hfile := session.size_eq hsize
      have hmax := session.size_le
      obtain ⟨outs, houts, hlength⟩ := decrypt_range aes session hle
        (by omega) _ (upstream.exact (start - start % 16) (some stop))
      rw [houts]
      refine ⟨nofun, fun _ => ⟨start, stop, outs, rfl, hle, hlt, ?_, rfl, ?_⟩, nofun⟩
      · exact lengthHeader_eq (by omega) (by omega)
      · rw [hlength]
        omega

/-- A file of 20 bytes. -/
def smallSession : Session where
  file := List.replicate 20 0
  fileSize := 20
  keyBytes := []
  ivBytes := fun _ => 0
  size_eq := fun _ => rfl
  size_le := by decide

/-- A server that sends everything in one chunk. -/
def oneChunk (file : Bytes) : UpstreamServer file where
  chunks := fun start stop => [requestedBytes file start stop]
  exact := fun _ _ => List.flatten_singleton

/-- Players do probe behind the end: the header of one answer names bytes that are not there, the
decryption for another raises, and a third one names no bytes at all. -/
theorem probes_untruthful :
    (¬(serveDecrypted (fun _ b => b) smallSession (oneChunk _)
        (some (py "bytes=0-99999"))).Truthful 20) ∧
      (serveDecrypted (fun _ b => b) smallSession (oneChunk _)
        (some (py "bytes=25-"))).body = none ∧
      (serveDecrypted (fun _ b => b) smallSession (oneChunk _)
        (some (py "bytes=5-3"))).contentRange = some (5, 3, 20) := by
  refine ⟨?_, by decide +kernel, by decide +kernel⟩
  rintro ⟨-, h, -⟩
  obtain ⟨start, stop, outs, hrange, -, hlt, -⟩ := h (by decide +kernel)
  have hnamed : (serveDecrypted (fun _ b => b) smallSession (oneChunk _)
      (some (py "bytes=0-99999"))).contentRange = some (0, 99999, 20) := by decide +kernel
  rw [hnamed] at hrange
  obtain ⟨-, hrest⟩ := Prod.mk.inj (Option.some.inj hrange)
  obtain ⟨rfl, -⟩ := Prod.mk.inj hrest
  exact absurd hlt (by decide)

end Client
end Liza
