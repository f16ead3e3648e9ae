/-
# A resumed download, byte by byte

What `_resumableUpstream` emits should be the encrypted file from the start of the range on,
whatever breaks in between and whatever the server answers; and it should end normally only
when the range is complete (`ByteExact`).

A server answers a request for a range in one of three ways: with the range (206), with the
whole file because it knows no ranges (200), or with an error and its text (`Conforms`).  The
code takes the body of any of them for the bytes it asked for.  It is right about the first
one, about the second one when it asked from byte 0, and about an answer of which nothing
arrived (`Usable`); as long as the server answers so, what is emitted is byte-exact
(`resumed_download_exact`).  A server that knows no ranges, or one that has lost the file,
breaks it (`whole_file_spliced`).
-/

import Liza.Lib.Run
import Liza.Client.MediaProxy
import Mathlib.Data.List.Infix

set_option autoImplicit false

namespace Liza
namespace Client

open Lib

/-- The bytes of the file from `pos` to the end of the range. -/
def requested (file : Bytes) (rangeEnd : Option ℕ) (pos : ℕ) : Bytes :=
  match rangeEnd with
  | some e => (file.take (e + 1)).drop pos
  | none => file.drop pos

/-- A part of a body arrived: all of it, when the answer ended normally. -/
def Arrives (body : Bytes) (chunks : List Bytes) (ending : Ending) : Prop :=
  chunks.flatten <+: body ∧ (ending = .done → chunks.flatten = body)

instance (body : Bytes) (chunks : List Bytes) (ending : Ending) :
    Decidable (Arrives body chunks ending) :=
  inferInstanceAs (Decidable (_ ∧ _))

/-- An answer to a request for the bytes from `pos` on, by a server that follows HTTP. -/
def Conforms (file : Bytes) (rangeEnd : Option ℕ) (pos : ℕ) : Reply → Prop
  | .refused => True
  | .answered status chunks ending =>
      if status = 206 then requested file rangeEnd pos ≠ [] ∧
        Arrives (requested file rangeEnd pos) chunks ending
      else if status = 200 then Arrives file chunks ending
      else 400 ≤ status ∧ status < 600

instance (file : Bytes) (rangeEnd : Option ℕ) (pos : ℕ) :
    (reply : Reply) → Decidable (Conforms file rangeEnd pos reply)
  | .refused => inferInstanceAs (Decidable True)
  | .answered _ _ _ => inferInstanceAs (Decidable (ite _ _ _))

/-- The answer is what the code takes it for: the range, the whole file when it was asked for
from its first byte on, or nothing. -/
def Usable (st : Upstream) : Reply → Prop
  | .refused => True
  | .answered status chunks ending =>
      status = 206 ∨ (status = 200 ∧ st.pos = 0) ∨ (chunks.flatten = [] ∧ ending ≠ .done)

instance (st : Upstream) : (reply : Reply) → Decidable (Usable st reply)
  | .refused => inferInstanceAs (Decidable True)
  | .answered _ _ _ => inferInstanceAs (Decidable (_ ∨ _))

/-- What has been emitted is a part of the file from the start of the range on, and all of the
range when the generator ended normally. -/
structure ByteExact (file : Bytes) (rangeEnd : Option ℕ) (startOffset : ℕ) (st : Upstream) :
    Prop where
  isPrefix : st.out.flatten <+: file.drop startOffset
  complete : st.outcome = .completed → requested file rangeEnd startOffset <+: st.out.flatten

/-! ### What one attempt emits -/

variable {file : Bytes} {rangeEnd : Option ℕ} {startOffset : ℕ} {st st' : Upstream} {reply : Reply}

/-- The chunks of an answer are emitted as they arrive. -/
theorem foldl_receive (st : Upstream) (chunks : List Bytes) :
    (chunks.foldl Upstream.receive st).pos = st.pos + chunks.flatten.length ∧
      (chunks.foldl Upstream.receive st).out = st.out ++ chunks ∧
      (chunks.foldl Upstream.receive st).outcome = st.outcome := by
  induction chunks generalizing st with
  | nil => simp
  | cons chunk chunks ih =>
      obtain ⟨hpos, hout, houtcome⟩ := ih (st.receive chunk)
      simp only [List.foldl_cons]
      rw [hpos, hout, houtcome]
      refine ⟨?_, by simp [Upstream.receive], rfl⟩
      rw [List.flatten_cons, List.length_append]
      show st.pos + chunk.length + _ = _
      omega

/-- A broken connection emits nothing and does not end the generator normally. -/
theorem onBroken_spec (st : Upstream) : st.onBroken.pos = st.pos ∧ st.onBroken.out = st.out ∧
    (st.outcome = .running → st.onBroken.outcome ≠ .completed) := by
  unfold Upstream.onBroken
  split
  · exact ⟨rfl, rfl, fun _ h => by cases h⟩
  · exact ⟨rfl, rfl, fun hr h => by rw [show st.outcome = .completed from h] at hr; cases hr⟩

/-- The chunks an attempt emits. -/
def Reply.chunks : Reply → List Bytes
  | .refused => []
  | .answered _ chunks _ => chunks

/-- **One attempt emits what arrives**, and ends normally only when the answer does. -/
theorem attempt_spec (h : st.attempt reply = some st') : st.outcome = .running ∧
    st'.pos = st.pos + reply.chunks.flatten.length ∧ st'.out = st.out ++ reply.chunks ∧
    (st'.outcome = .completed → ∃ status chunks, reply = .answered status chunks .done) := by
  unfold Upstream.attempt at h
  split at h
  case isFalse => cases h
  case isTrue hrun =>
    refine ⟨hrun, ?_⟩
    cases reply with
    | refused =>
        obtain rfl := Option.some.inj h
        obtain ⟨hpos, hout, hend⟩ := onBroken_spec st
        exact ⟨by simp [hpos, Reply.chunks], by simp [hout, Reply.chunks],
          fun hc => absurd hc (hend hrun)⟩
    | answered status chunks ending =>
        obtain ⟨hpos, hout, houtcome⟩ := foldl_receive st chunks
        cases ending with
        | done =>
            obtain rfl := Option.some.inj h
            exact ⟨hpos, hout, fun _ => ⟨status, chunks, rfl⟩⟩
        | broken =>
            obtain rfl := Option.some.inj h
            obtain ⟨hpos', hout', hend⟩ := onBroken_spec (chunks.foldl Upstream.receive st)
            exact ⟨hpos'.trans hpos, hout'.trans hout,
              fun hc => absurd hc (hend (houtcome.trans hrun))⟩
        | raised =>
            obtain rfl := Option.some.inj h
            exact ⟨hpos, hout, fun hc => by cases hc⟩

/-! ### Whole downloads -/

/-- The position is the place in the file of the next byte. -/
structure OnTrack (file : Bytes) (rangeEnd : Option ℕ) (startOffset : ℕ) (st : Upstream) :
    Prop where
  byteExact : ByteExact file rangeEnd startOffset st
  pos_eq : st.pos = startOffset + st.out.flatten.length

theorem requested_initial (file : Bytes) (rangeEnd : Option ℕ) (pos : ℕ) :
    requested file rangeEnd pos <+: file.drop pos := by
  cases rangeEnd with
  | none => exact List.prefix_refl _
  | some e =>
      rw [requested, List.drop_take]
      exact List.take_prefix _ _

/-- What has been emitted and what is still to come. -/
theorem OnTrack.split (h : OnTrack file rangeEnd startOffset st) :
    file.drop startOffset = st.out.flatten ++ file.drop st.pos := by
  obtain ⟨t, ht⟩ := h.byteExact.isPrefix
  have hrest : t = file.drop st.pos := by
    rw [h.pos_eq, ← List.drop_drop, ← ht, List.drop_left]
  rw [← ht, hrest]

/-- The rest of the range completes what has been emitted. -/
theorem OnTrack.requested_eq (h : OnTrack file rangeEnd startOffset st)
    (hne : requested file rangeEnd st.pos ≠ []) :
    requested file rangeEnd startOffset = st.out.flatten ++ requested file rangeEnd st.pos := by
  cases rangeEnd with
  | none => exact h.split
  | some e =>
      have hpos := h.pos_eq
      have hlt : st.pos < e + 1 := by
        by_contra hge
        refine hne (List.drop_eq_nil_of_le ?_)
        rw [List.length_take]
        omega
      have hrest : e + 1 - startOffset - st.out.flatten.length = e + 1 - st.pos := by omega
      rw [requested, requested, List.drop_take, List.drop_take, h.split, List.take_append,
        List.take_of_length_le (by omega), hrest]

/-- What an answer that can be used brings is the next part of the file. -/
theorem chunks_initial (hconf : Conforms file rangeEnd st.pos reply) (huse : Usable st reply) :
    reply.chunks.flatten <+: file.drop st.pos := by
  cases reply with
  | refused => exact List.nil_prefix
  | answered status chunks ending =>
      show chunks.flatten <+: file.drop st.pos
      obtain rfl | ⟨rfl, hpos⟩ | ⟨hnil, -⟩ := huse
      · exact hconf.2.1.trans (requested_initial _ _ _)
      · rw [hpos, List.drop_zero]
        exact hconf.1
      · rw [hnil]
        exact List.nil_prefix

/-- **One attempt with an answer that can be used keeps the download on track.** -/
theorem onTrack_attempt (h : OnTrack file rangeEnd startOffset st)
    (hconf : Conforms file rangeEnd st.pos reply) (huse : Usable st reply)
    (hstep : st.attempt reply = some st') : OnTrack file rangeEnd startOffset st' := by
  obtain ⟨-, hpos, hout, hend⟩ := attempt_spec hstep
  have hflat : st'.out.flatten = st.out.flatten ++ reply.chunks.flatten := by
    rw [hout, List.flatten_append]
  refine ⟨⟨?_, fun hc => ?_⟩, ?_⟩
  · rw [hflat, h.split]
    exact (List.prefix_append_right_inj _).2 (chunks_initial hconf huse)
  · obtain ⟨status, chunks, rfl⟩ := hend hc
    rw [hflat]
    obtain rfl | ⟨rfl, hzero⟩ | ⟨-, hne⟩ := huse
    · -- The range that was asked for, to its end.
      have hall : chunks.flatten = requested file rangeEnd st.pos := hconf.2.2 rfl
      rw [h.requested_eq hconf.1, ← hall]
      exact List.prefix_refl _
    · -- The whole file, before anything was emitted.
      have hall : chunks.flatten = file := hconf.2 rfl
      have hstart : startOffset = 0 ∧ st.out.flatten = [] := by
        have := h.pos_eq
        exact ⟨by omega, List.eq_nil_of_length_eq_zero (by omega)⟩
      rw [hstart.1, hstart.2, List.nil_append]
      show requested file rangeEnd 0 <+: chunks.flatten
      rw [hall]
      exact requested_initial file rangeEnd 0
    · exact absurd rfl hne
  · rw [hpos, hflat, List.length_append, h.pos_eq]
    omega

/-- **A download whose answers can be used is byte-exact**, after every attempt. -/
theorem resumed_download_exact (file : Bytes) (rangeEnd : Option ℕ) (startOffset : ℕ)
    (replies : List Reply) (st : Upstream)
    (h : Exec Upstream.attempt
      (fun st reply => Conforms file rangeEnd st.pos reply ∧ Usable st reply)
      (.start startOffset) replies st) : ByteExact file rangeEnd startOffset st := by
  have hstart : OnTrack file rangeEnd startOffset (.start startOffset) :=
    ⟨⟨List.nil_prefix, fun hc => by cases hc⟩, rfl⟩
  have hrun : OnTrack file rangeEnd startOffset st :=
    h.invariant hstart fun _ _ _ hst hc hs => onTrack_attempt hst hc.1 hc.2 hs
  exact hrun.byteExact

/-- A connection that breaks in the middle, one that is refused, and the rest. -/
theorem resumed_in_the_middle : ∃ st, Exec Upstream.attempt
      (fun st reply => Conforms [1, 2, 3, 4] (some 3) st.pos reply ∧ Usable st reply) (.start 0)
      [.answered 206 [[1, 2]] .broken, .refused, .answered 206 [[3], [4]] .done] st ∧
    ByteExact [1, 2, 3, 4] (some 3) 0 st := by
  obtain ⟨st, hrun, -⟩ := exists_exec_of_runs (f := Upstream.attempt)
    (C := fun st reply => Conforms [1, 2, 3, 4] (some 3) st.pos reply ∧ Usable st reply)
    (s := .start 0)
    (l := [.answered 206 [[1, 2]] .broken, .refused, .answered 206 [[3], [4]] .done])
    (p := fun st => st.outcome = .completed) (by decide)
  exact ⟨st, hrun, resumed_download_exact _ _ _ _ _ hrun⟩

/-- A server that knows no ranges sends the whole file again, and it is spliced in; a server
that has lost the file sends an error, and its text is passed on as media. -/
theorem whole_file_spliced :
    (∃ st, Exec Upstream.attempt (fun st reply => Conforms [1, 2, 3, 4] (some 3) st.pos reply)
      (.start 0) [.answered 200 [[1, 2]] .broken, .answered 200 [[1, 2, 3, 4]] .done] st ∧
      ¬ByteExact [1, 2, 3, 4] (some 3) 0 st) ∧
    ∃ st, Exec Upstream.attempt (fun st reply => Conforms [1, 2, 3, 4] (some 3) st.pos reply)
      (.start 0) [.answered 206 [[1, 2]] .broken, .answered 404 [[0x7B, 0x7D]] .done] st ∧
      ¬ByteExact [1, 2, 3, 4] (some 3) 0 st := by
  obtain ⟨st, hrun, hst⟩ := exists_exec_of_runs (f := Upstream.attempt)
    (C := fun st reply => Conforms [1, 2, 3, 4] (some 3) st.pos reply) (s := .start 0)
    (l := [.answered 200 [[1, 2]] .broken, .answered 200 [[1, 2, 3, 4]] .done])
    (p := fun st => st.out.flatten = [1, 2, 1, 2, 3, 4]) (by decide)
  obtain ⟨st', hrun', hst'⟩ := exists_exec_of_runs (f := Upstream.attempt)
    (C := fun st reply => Conforms [1, 2, 3, 4] (some 3) st.pos reply) (s := .start 0)
    (l := [.answered 206 [[1, 2]] .broken, .answered 404 [[0x7B, 0x7D]] .done])
    (p := fun st => st.out.flatten = [1, 2, 0x7B, 0x7D]) (by decide)
  refine ⟨⟨st, hrun, fun h => ?_⟩, st', hrun', fun h => ?_⟩
  · exact absurd (hst ▸ h.isPrefix) (by decide)
  · exact absurd (hst' ▸ h.isPrefix) (by decide)

end Client
end Liza
