/-
# The live tail of a channel

`ChannelPeekStream` of `clients/flutter/lib/utils/channel_peek.dart`.  Stopping is cooperative: the
loop of a stream that was stopped lives on until its request is answered, while a new loop may
already be running, and all of them share the token.  A loop knows the generation it was started in.

An answer that finds its loop current moves the token to its end, and its events are delivered if
there are any.  So it is the answers that the token went through that form a chain, and not those
that were delivered: an answer without events for the timeline stands between two that have some
(`skipped_not_chained`).  Nothing is lost or delivered twice (`peek_chained`).
-/

import Liza.Lib.Run

set_option autoImplicit false

namespace Liza
namespace Client
namespace ChannelPeek

open Lib (Exec exists_exec_of_runs)

/-- A token of the server. -/
abbrev Token := String

/-- `MatrixEvent`. -/
structure MatrixEvent where
  type : String
  eventId : String
deriving DecidableEq

/-- `PeekEventsResponse`. -/
structure PeekEventsResponse where
  chunk : Option (List MatrixEvent)
  /-- `end`. -/
  endToken : Option Token
deriving DecidableEq

/-- `_feedEventTypes`. -/
def feedEventTypes : List String :=
  ["m.room.message", "m.sticker", "m.room.encrypted", "m.room.create", "m.reaction"]

/-- `peekEventsToTimeline`. -/
def peekEventsToTimeline (raw : List MatrixEvent) : List MatrixEvent :=
  raw.filter fun e => e.type ∈ feedEventTypes

/-- Where a loop is. -/
inductive Phase where
  /-- It awaits the answer to a request from this token. -/
  | fetching (from_ : Option Token)
  /-- It has taken an answer over; `onEvents` may call the stream. -/
  | delivered
  /-- It waits before the next attempt. -/
  | delaying
  | returned
deriving DecidableEq

/-- A run of `_run`. -/
structure Loop where
  generation : ℕ
  phase : Phase
deriving DecidableEq

/-- An answer that was taken over, and the token it was fetched from. -/
structure Answer where
  from_ : Option Token
  response : PeekEventsResponse
deriving DecidableEq

/-- The events of an answer. -/
def Answer.events (a : Answer) : List MatrixEvent :=
  peekEventsToTimeline (a.response.chunk.getD [])

/-- `ChannelPeekStream`, with its loops, the answers that the token went through and those that were
given to `onEvents`. -/
structure State where
  token : Option Token
  stopped : Bool
  generation : ℕ
  /-- `_loop`, as the place of the loop. -/
  loop : Option ℕ
  loops : List Loop
  taken : List Answer
  delivered : List Answer
deriving DecidableEq

/-- What happens; a loop is known by its place. -/
inductive Act where
  | start
  | dispose
  /-- A request is answered. -/
  | respond (loop : ℕ) (response : PeekEventsResponse)
  /-- A request fails. -/
  | fail (loop : ℕ)
  /-- A delay ends. -/
  | wake (loop : ℕ)
  /-- A loop comes back to its head. -/
  | next (loop : ℕ)
deriving DecidableEq

/-- The constructor. -/
def init (from_ : Option Token) : State := ⟨from_, false, 0, none, [], [], []⟩

/-- `!_stopped && generation == _generation`. -/
def State.current (s : State) (generation : ℕ) : Bool := !s.stopped && generation == s.generation

/-- The head of the loop, up to the request. -/
def State.head (s : State) (generation : ℕ) : Loop :=
  ⟨generation, if s.current generation then .fetching s.token else .returned⟩

/-- A loop goes on. -/
def State.setLoop (s : State) (i : ℕ) (l : Loop) : State := { s with loops := s.loops.set i l }

/-- `start`. -/
def start (s : State) : State :=
  if s.loop.isSome then s
  else
    let s := { s with stopped := false }
    { s with loops := s.loops ++ [s.head s.generation], loop := some s.loops.length }

/-- `dispose`. -/
def dispose (s : State) : State :=
  { s with stopped := true, generation := s.generation + 1, loop := none }

/-- What a current loop does with an answer. -/
def take (s : State) (a : Answer) : State :=
  { s with
    token := a.response.endToken.or s.token
    taken := s.taken ++ [a]
    delivered := if a.events = [] then s.delivered else s.delivered ++ [a] }

/-- Behind the request, with the answer or with `none` for an exception. -/
def answered (s : State) (i generation : ℕ) (from_ : Option Token) :
    Option PeekEventsResponse → State
  | some response =>
      if s.current generation then (take s ⟨from_, response⟩).setLoop i ⟨generation, .delivered⟩
      else s.setLoop i ⟨generation, .returned⟩
  | none => s.setLoop i ⟨generation, if s.current generation then .delaying else .returned⟩

/-- The request of a loop comes to its end. -/
def complete (s : State) (i : ℕ) (response : Option PeekEventsResponse) : Option State :=
  match s.loops[i]? with
  | some ⟨generation, .fetching from_⟩ => some (answered s i generation from_ response)
  | _ => none

/-- A loop comes to its head from where it was. -/
def goOn (s : State) (i : ℕ) (phase : Phase) : Option State :=
  match s.loops[i]? with
  | some l => if l.phase = phase then some (s.setLoop i (s.head l.generation)) else none
  | none => none

def step (s : State) : Act → Option State
  | .start => some (start s)
  | .dispose => some (dispose s)
  | .respond i response => complete s i (some response)
  | .fail i => complete s i none
  | .wake i => goOn s i .delaying
  | .next i => goOn s i .delivered

/-- Answers carry `end`. -/
def Act.CarriesEnd : Act → Prop
  | .respond _ response => response.endToken ≠ none
  | _ => True

instance decidableCarriesEnd (a : Act) : Decidable a.CarriesEnd := by
  cases a with
  | respond i response => exact inferInstanceAs (Decidable (_ ≠ _))
  | _ => exact instDecidableTrue

/-- The answers form one chain of tokens from the first to the last one. -/
def Chained : Option Token → List Answer → Option Token → Prop
  | first, [], last => first = last
  | first, a :: l, last => a.from_ = first ∧ Chained a.response.endToken l last

/-- A batch was fetched from the token at which the one before it ended. -/
def Adjacent (a b : Answer) : Prop := b.from_ = a.response.endToken

instance decidableAdjacent (a b : Answer) : Decidable (Adjacent a b) :=
  inferInstanceAs (Decidable (_ = _))

/-! ### The invariant -/

/-- **The invariant.**  Of the loops that have not returned only the one in `_loop` is of the
current generation, and what it fetches it fetches from the token. -/
structure Inv (first : Option Token) (s : State) : Prop where
  old : ∀ l ∈ s.loops, l.generation ≤ s.generation
  stopped : s.stopped = true → s.loop = none
  alone : ∀ i l, s.loops[i]? = some l → l.phase ≠ .returned → l.generation = s.generation →
    s.loop = some i
  fetching : ∀ l ∈ s.loops, ∀ from_, l.phase = .fetching from_ → l.generation = s.generation →
    from_ = s.token
  chained : Chained first s.taken s.token
  delivered : s.delivered = s.taken.filter fun a => a.events ≠ []

section Chain

variable {first last : Option Token} {l : List Answer} {a : Answer}

theorem Chained.append (h : Chained first l last) (hfrom : a.from_ = last) :
    Chained first (l ++ [a]) a.response.endToken := by
  induction l generalizing first with
  | nil => exact ⟨hfrom.trans h.symm, rfl⟩
  | cons b l ih => exact ⟨h.1, ih h.2⟩

/-- Answers in a chain are adjacent. -/
theorem Chained.isChain (h : Chained first l last) : l.IsChain Adjacent := by
  induction l generalizing first with
  | nil => exact .nil
  | cons a l ih =>
      cases l with
      | nil => exact .singleton a
      | cons b l => exact .cons_cons h.2.1 (ih h.2)

end Chain

section Step

variable {first : Option Token} {s t : State} {i generation : ℕ}

theorem inv_init (first : Option Token) : Inv first (init first) := by
  constructor <;> simp [init, Chained]

/-- A loop goes on, and the loop at its place was not that of a newer generation. -/
theorem Inv.setLoop {l n : Loop} (hs : Inv first s) (hl : s.loops[i]? = some l)
    (hlive : l.phase ≠ .returned) (hgeneration : n.generation = l.generation)
    (hnew : ∀ from_, n.phase = .fetching from_ → n.generation = s.generation → from_ = s.token) :
    Inv first (s.setLoop i n) := by
  have hmem : l ∈ s.loops := List.mem_of_getElem? hl
  refine ⟨fun m hm => ?_, hs.stopped, fun j m hj hm hcurrent => ?_,
    fun m hm from_ hfrom hcurrent => ?_, hs.chained, hs.delivered⟩
  · rcases List.mem_or_eq_of_mem_set hm with hm | rfl
    · exact hs.old m hm
    · exact hgeneration ▸ hs.old l hmem
  · change (s.loops.set i n)[j]? = some m at hj
    rw [List.getElem?_set] at hj
    split at hj
    · rename_i hij
      split at hj
      · obtain rfl := Option.some.inj hj
        exact hij ▸ hs.alone i l hl hlive (hgeneration ▸ hcurrent)
      · cases hj
    · exact hs.alone j m hj hm hcurrent
  · rcases List.mem_or_eq_of_mem_set hm with hm | rfl
    · exact hs.fetching m hm from_ hfrom hcurrent
    · exact hnew from_ hfrom hcurrent

theorem State.head_fetching {from_ : Option Token}
    (h : (s.head generation).phase = .fetching from_) : from_ = s.token := by
  unfold State.head at h
  split at h
  · exact (Phase.fetching.inj h).symm
  · cases h

theorem start_of_none (h : s.loop = none) :
    start s = { s with
      stopped := false
      loops := s.loops ++ [⟨s.generation, .fetching s.token⟩]
      loop := some s.loops.length } := by
  simp [start, h, State.head, State.current]

theorem Inv.start (hs : Inv first s) : Inv first (start s) := by
  cases hloop : s.loop with
  | some i =>
      have hsame : ChannelPeek.start s = s := by simp [ChannelPeek.start, hloop]
      exact hsame.symm ▸ hs
  | none =>
      have hnone : ∀ (i : ℕ) (l : Loop), s.loops[i]? = some l → l.phase ≠ .returned →
          l.generation ≠ s.generation := by
        intro i l hl hlive hcurrent
        have h := hs.alone i l hl hlive hcurrent
        rw [hloop] at h
        cases h
      rw [start_of_none hloop]
      refine ⟨fun l hl => ?_, fun h => (by cases h), fun i l hl hlive hcurrent => ?_,
        fun l hl from_ hfrom hcurrent => ?_, hs.chained, hs.delivered⟩
      · rcases List.mem_append.1 hl with hl | hl
        · exact hs.old l hl
        · obtain rfl := List.mem_singleton.1 hl
          exact Nat.le_refl _
      · rw [List.getElem?_append] at hl
        split at hl
        · exact absurd hcurrent (hnone i l hl hlive)
        · rename_i hge
          obtain ⟨hi, -⟩ := List.getElem?_eq_some_iff.1 hl
          rw [List.length_singleton] at hi
          exact congrArg some (by omega)
      · rcases List.mem_append.1 hl with hl | hl
        · exact hs.fetching l hl from_ hfrom hcurrent
        · rw [List.mem_singleton.1 hl] at hfrom
          exact (Phase.fetching.inj hfrom).symm

theorem Inv.dispose (hs : Inv first s) : Inv first (dispose s) := by
  have hold : ∀ l ∈ s.loops, l.generation ≠ s.generation + 1 := fun l hl heq => by
    have := hs.old l hl
    omega
  exact ⟨fun l hl => Nat.le_succ_of_le (hs.old l hl), fun _ => rfl,
    fun i l hl _ hcurrent => absurd hcurrent (hold l (List.mem_of_getElem? hl)),
    fun l hl _ _ hcurrent => absurd hcurrent (hold l hl), hs.chained, hs.delivered⟩

theorem State.current_eq (h : s.current generation = true) :
    s.stopped = false ∧ generation = s.generation := by
  simpa [State.current] using h

/-- An answer with an end is taken over by the only loop that is current. -/
theorem Inv.take {from_ : Option Token} {response : PeekEventsResponse} (hs : Inv first s)
    (hl : s.loops[i]? = some ⟨generation, .fetching from_⟩) (hcurrent : s.current generation = true)
    (hend : response.endToken ≠ none) :
    Inv first ((take s ⟨from_, response⟩).setLoop i ⟨generation, .delivered⟩) := by
  obtain ⟨e, he⟩ := Option.ne_none_iff_exists'.1 hend
  have hgeneration : generation = s.generation := (State.current_eq hcurrent).2
  have hfrom : from_ = s.token :=
    hs.fetching _ (List.mem_of_getElem? hl) from_ rfl hgeneration
  have hloop : s.loop = some i := hs.alone i _ hl (by simp) hgeneration
  have hset := hs.setLoop (n := ⟨generation, .delivered⟩) hl (by simp) rfl
    (fun _ h => (by cases h))
  refine ⟨hset.old, hset.stopped, hset.alone, fun l hmem from' hphase hcur => ?_, ?_, ?_⟩
  · -- any other loop that fetches is of an older generation
    obtain ⟨j, hj⟩ := List.mem_iff_getElem?.1 hmem
    have hji : some i = some j := hloop ▸ hset.alone j l hj (by simp [hphase]) hcur
    obtain rfl := Option.some.inj hji
    change (s.loops.set i _)[i]? = some l at hj
    obtain ⟨hi, -⟩ := List.getElem?_eq_some_iff.1 hl
    rw [List.getElem?_set_self hi] at hj
    obtain rfl := Option.some.inj hj
    cases hphase
  · have hchained := hs.chained.append (a := ⟨from_, response⟩) hfrom
    have htoken : response.endToken.or s.token = response.endToken := by rw [he, Option.some_or]
    change Chained first (s.taken ++ [_]) (response.endToken.or s.token)
    rw [htoken]
    exact hchained
  · change (if _ then s.delivered else s.delivered ++ [_]) = (s.taken ++ [_]).filter _
    rw [List.filter_append, hs.delivered]
    split
    · rename_i hevents
      simp [hevents]
    · rename_i hevents
      simp [hevents]

theorem Inv.step {a : Act} (hs : Inv first s) (ha : a.CarriesEnd) (h : step s a = some t) :
    Inv first t := by
  have hcomplete : ∀ i response, (∀ r, response = some r → r.endToken ≠ none) →
      complete s i response = some t → Inv first t := by
    intro i response hend ht
    unfold complete at ht
    split at ht
    · rename_i generation from_ hl
      obtain rfl := Option.some.inj ht
      have hreturned := hs.setLoop (n := ⟨generation, .returned⟩) hl (by simp) rfl
        (fun _ h => (by cases h))
      cases response with
      | none =>
          refine hs.setLoop hl (by simp) rfl fun from' hphase _ => ?_
          dsimp only at hphase
          split at hphase <;> cases hphase
      | some response =>
          rw [answered]
          split
          · exact hs.take hl ‹_› (hend response rfl)
          · exact hreturned
    · cases ht
  have hgoOn : ∀ i phase, phase ≠ .returned → goOn s i phase = some t → Inv first t := by
    intro i phase hphase ht
    unfold goOn at ht
    split at ht
    · rename_i l hl
      obtain ⟨heq, ht⟩ := Option.ite_none_right_eq_some.1 ht
      obtain rfl := Option.some.inj ht
      exact hs.setLoop hl (heq ▸ hphase) rfl fun _ h _ => State.head_fetching h
    · cases ht
  cases a with
  | start =>
      obtain rfl := Option.some.inj h
      exact hs.start
  | dispose =>
      obtain rfl := Option.some.inj h
      exact hs.dispose
  | respond i response => exact hcomplete i _ (fun r hr => Option.some.inj hr ▸ ha) h
  | fail i => exact hcomplete i none (fun r hr => (by cases hr)) h
  | wake i => exact hgoOn i _ (by simp) h
  | next i => exact hgoOn i _ (by simp) h

/-- While the stream is stopped nothing is taken over. -/
theorem stopped_step {a : Act} (hstopped : s.stopped = true) (ha : a ≠ .start)
    (h : step s a = some t) :
    t.stopped = true ∧ t.taken = s.taken ∧ t.delivered = s.delivered := by
  have hcurrent : ∀ generation, s.current generation = false := fun generation => by
    simp [State.current, hstopped]
  have hcomplete : ∀ i response, complete s i response = some t →
      t.stopped = true ∧ t.taken = s.taken ∧ t.delivered = s.delivered := by
    intro i response ht
    unfold complete at ht
    split at ht
    · obtain rfl := Option.some.inj ht
      cases response with
      | none => exact ⟨hstopped, rfl, rfl⟩
      | some response =>
          rw [answered, if_neg (by simp [hcurrent])]
          exact ⟨hstopped, rfl, rfl⟩
    · cases ht
  have hgoOn : ∀ i phase, goOn s i phase = some t →
      t.stopped = true ∧ t.taken = s.taken ∧ t.delivered = s.delivered := by
    intro i phase ht
    unfold goOn at ht
    split at ht
    · obtain ⟨-, ht⟩ := Option.ite_none_right_eq_some.1 ht
      obtain rfl := Option.some.inj ht
      exact ⟨hstopped, rfl, rfl⟩
    · cases ht
  cases a with
  | start => exact absurd rfl ha
  | dispose =>
      obtain rfl := Option.some.inj h
      exact ⟨rfl, rfl, rfl⟩
  | respond i response => exact hcomplete i _ h
  | fail i => exact hcomplete i _ h
  | wake i => exact hgoOn i _ h
  | next i => exact hgoOn i _ h

end Step

/-- The answers that are delivered do not always form a chain: an answer without events lies between
these two. -/
theorem skipped_not_chained :
    ∃ t, Exec step (fun _ a => a.CarriesEnd) (init (some "s0"))
        [.start, .respond 0 ⟨some [⟨"m.room.message", "$1"⟩], some "s1"⟩, .next 0,
          .respond 0 ⟨some [], some "s2"⟩, .next 0,
          .respond 0 ⟨some [⟨"m.room.message", "$2"⟩], some "s3"⟩] t ∧
      ¬t.delivered.IsChain Adjacent :=
  exists_exec_of_runs (by decide)

/-- **The live tail goes over each answer once.**  In every run the answers that were taken over
form one chain, from the token of the constructor to the token the stream has, and they are
delivered, if they have events, in this order.  What a loop fetches that is still current it
fetches from that token.  Between `dispose` and the next `start` none is taken over and none is
delivered. -/
theorem peek_chained {first : Option Token} {as : List Act} {s : State}
    (h : Exec step (fun _ a => a.CarriesEnd) (init first) as s) :
    Chained first s.taken s.token ∧
    s.taken.IsChain Adjacent ∧
    (s.delivered = s.taken.filter fun a => a.events ≠ []) ∧
    (∀ l ∈ s.loops, ∀ from_, l.phase = .fetching from_ → s.current l.generation = true →
      from_ = s.token) ∧
    ∀ bs t, .start ∉ bs → Exec step (fun _ _ => True) (dispose s) bs t →
      t.taken = s.taken ∧ t.delivered = s.delivered := by
  have hs : Inv first s := h.invariant (inv_init first) fun s a t hs ha hstep => hs.step ha hstep
  refine ⟨hs.chained, hs.chained.isChain, hs.delivered, fun l hl from_ hphase hcurrent => ?_,
    fun bs t hbs ht => ?_⟩
  · exact hs.fetching l hl from_ hphase (State.current_eq hcurrent).2
  · have hrun := ht.and_mem (D := fun a => a ≠ .start) fun a ha heq => hbs (heq ▸ ha)
    refine (hrun.invariant
      (I := fun t => t.stopped = true ∧ t.taken = s.taken ∧ t.delivered = s.delivered)
      ⟨rfl, rfl, rfl⟩ fun u a v hu ha hv => ?_).2
    obtain ⟨hstopped, htaken, hdelivered⟩ := stopped_step hu.1 ha.2 hv
    exact ⟨hstopped, htaken.trans hu.2.1, hdelivered.trans hu.2.2⟩

/-- A stream that was stopped and started again while its first request was under way. -/
theorem peek_chained_restarted :
    ∃ s, Exec step (fun _ a => a.CarriesEnd) (init none)
        [.start, .dispose, .start, .respond 0 ⟨none, some "s1"⟩,
          .respond 1 ⟨some [⟨"m.reaction", "$1"⟩], some "s2"⟩, .next 1, .fail 1, .wake 1] s ∧
      Chained none s.taken s.token ∧ s.delivered.length = 1 := by
  have hrun : ∃ s, Exec step (fun _ a => a.CarriesEnd) (init none)
      [.start, .dispose, .start, .respond 0 ⟨none, some "s1"⟩,
        .respond 1 ⟨some [⟨"m.reaction", "$1"⟩], some "s2"⟩, .next 1, .fail 1, .wake 1] s ∧
      s.delivered.length = 1 := exists_exec_of_runs (by decide)
  obtain ⟨s, hs, hlength⟩ := hrun
  exact ⟨s, hs, (peek_chained hs).1, hlength⟩

end ChannelPeek
end Client
end Liza
