/-
# A confirmed vote is not rolled back

What the service holds of one poll is its view (`PollView`).  A step changes a view by moves of a
few kinds (`ViewMove`); `view_step` says which.  Of the moves, three bring answers: a vote brings
those of the user, an ack those of the bot, and a sync those of the account data.  Each of them
may bring answers older than those that were applied, because

* a vote takes its number from the clock of the device,
* the ack of the vote in flight is taken whatever its number is, and
* a sync is taken whatever the number of its answers is.

`NotBehind` rules this out step by step.  Then the number that was applied never decreases, and the
answers on the screen never belong to a smaller one.  That a poll is closed is kept in any case.
-/

import Liza.Client.NewsPoll
import Mathlib.Data.Int.Order.Basic
import Mathlib.Logic.Relation

set_option autoImplicit false

namespace Liza
namespace Client

open Lib Relation

/-- What the service holds of one poll. -/
@[ext]
structure PollView where
  state : Option NewsPollVoteState
  vote : Option InFlightVote
  applied : Option ℤ
  seq : ℤ

/-- The view of a poll. -/
def PollService.view (s : PollService) (p : PyStr) : PollView :=
  ⟨s.states.get? p, s.votes.get? p, s.appliedSeq.get? p, s.answersSeq p⟩

/-- What may happen to a view; where `G` holds, answers are not older than those applied. -/
inductive ViewMove (G : Prop) : PollView → PollView → Prop
  /-- The state is made from the account data. -/
  | create (w : PollView) (st : NewsPollVoteState) (x : ℤ) (hnone : w.state = none)
      (hp : st.pending = none) : ViewMove G w { w with state := some st, seq := x }
  /-- The poll is closed. -/
  | close (w : PollView) (st : NewsPollVoteState) (h : w.state = some st) :
      ViewMove G w { w with state := some { st with closed := true } }
  /-- The answers are those of the account data. -/
  | store (w : PollView) (st st' : NewsPollVoteState) (x : ℤ) (h : w.state = some st)
      (hv : w.vote = none) (hp : st'.pending = st.pending)
      (hclosed : st.closed = true → st'.closed = true)
      (hseq : G → ∀ k, w.applied = some k → k ≤ x) :
      ViewMove G w { w with state := some st', seq := x }
  /-- A vote is cast. -/
  | vote (w : PollView) (st st' : NewsPollVoteState) (v : InFlightVote) (h : w.state = some st)
      (hp : st'.pending = some v.answers) (hclosed : st'.closed = st.closed)
      (hseq : G → ∀ k, w.applied = some k → k ≤ v.seq) :
      ViewMove G w { w with state := some st', vote := some v }
  /-- It is sent again. -/
  | retry (w : PollView) (v : InFlightVote) (n : ℕ) (h : w.vote = some v) :
      ViewMove G w { w with vote := some { v with attempts := n } }
  /-- It is given up. -/
  | giveUp (w : PollView) (st st' : NewsPollVoteState) (h : w.state = some st)
      (hp : st'.pending = none) (hclosed : st'.closed = st.closed) :
      ViewMove G w { w with state := some st', vote := none }
  /-- An ack is applied. -/
  | ack (w : PollView) (st' : NewsPollVoteState) (k : ℤ) (hp : st'.pending = none)
      (hclosed : ∀ st, w.state = some st → st.closed = true → st'.closed = true)
      (hseq : G → ∀ k', w.applied = some k' → k' ≤ k) :
      ViewMove G w ⟨some st', none, some k, k⟩

/-- The invariant of a view: what is shown belongs to no smaller number than the one applied, and
what is pending is the vote in flight. -/
structure GoodView (w : PollView) : Prop where
  applied : ∀ k, w.applied = some k →
    w.state.isSome = true ∧ k ≤ w.seq ∧ ∀ v, w.vote = some v → k ≤ v.seq
  pending : ∀ st, w.state = some st → st.pending = w.vote.map InFlightVote.answers
  vote : w.vote.isSome = true → w.state.isSome = true

/-- The number applied does not decrease. -/
def AppliedKept (w w' : PollView) : Prop :=
  ∀ k, w.applied = some k → ∃ k', w'.applied = some k' ∧ k ≤ k'

/-- A poll that is closed stays closed. -/
def ClosedKept (w w' : PollView) : Prop :=
  ∀ st, w.state = some st → st.closed = true → ∃ st', w'.state = some st' ∧ st'.closed = true

/-- **A move keeps a view good, where no answers are older than those applied.** -/
theorem GoodView.move {w w' : PollView} (hw : GoodView w) (h : ViewMove True w w') :
    GoodView w' ∧ AppliedKept w w' := by
  have hsame : AppliedKept w w := fun k hk => ⟨k, hk, le_refl k⟩
  cases h with
  | create st x hnone hp =>
      have happlied : w.applied = none := by
        by_contra hne
        obtain ⟨k, hk⟩ := Option.ne_none_iff_exists'.1 hne
        have hsome := (hw.applied k hk).1
        rw [hnone] at hsome
        cases hsome
      have hvote : w.vote = none := by
        by_contra hne
        obtain ⟨v, hv⟩ := Option.ne_none_iff_exists'.1 hne
        have hsome := hw.vote (by rw [hv]; rfl)
        rw [hnone] at hsome
        cases hsome
      refine ⟨⟨fun k hk => ?_, fun st' hst' => ?_, fun _ => rfl⟩, hsame⟩
      · rw [happlied] at hk
        cases hk
      · rw [← Option.some.inj hst', hp, hvote]
        rfl
  | close st hstate =>
      refine ⟨⟨fun k hk => ⟨rfl, (hw.applied k hk).2⟩, fun st' hst' => ?_, fun _ => rfl⟩, hsame⟩
      rw [← Option.some.inj hst']
      exact hw.pending st hstate
  | store st st' x hstate hv hp hclosed hseq =>
      refine ⟨⟨fun k hk => ⟨rfl, hseq trivial k hk, fun v hvote => ?_⟩, fun st'' hst' => ?_,
        fun _ => rfl⟩, hsame⟩
      · rw [hv] at hvote
        cases hvote
      · rw [← Option.some.inj hst', hp]
        exact hw.pending st hstate
  | vote st st' v hstate hp hclosed hseq =>
      refine ⟨⟨fun k hk => ⟨rfl, (hw.applied k hk).2.1, fun v' hv' => ?_⟩, fun st'' hst' => ?_,
        fun _ => rfl⟩, hsame⟩
      · rw [← Option.some.inj hv']
        exact hseq trivial k hk
      · rw [← Option.some.inj hst', hp]
        rfl
  | retry v n hvote =>
      refine ⟨⟨fun k hk => ?_, fun st hst => ?_, fun _ => hw.vote (by rw [hvote]; rfl)⟩, hsame⟩
      · obtain ⟨hstate, hle, hv⟩ := hw.applied k hk
        refine ⟨hstate, hle, fun v' hv' => ?_⟩
        rw [← Option.some.inj hv']
        exact hv v hvote
      · have hpending := hw.pending st hst
        rw [hvote] at hpending
        exact hpending
  | giveUp st st' hstate hp hclosed =>
      refine ⟨⟨fun k hk => ⟨rfl, (hw.applied k hk).2.1, fun v hv => ?_⟩, fun st'' hst' => ?_,
        fun hv => ?_⟩, hsame⟩
      · cases hv
      · rw [← Option.some.inj hst', hp]
        rfl
      · cases hv
  | ack st' k hp hclosed hseq =>
      refine ⟨⟨fun k' hk' => ⟨rfl, (Option.some.inj hk').ge, fun v hv => ?_⟩, fun st'' hst' => ?_,
        fun _ => rfl⟩, fun k' hk' => ⟨k, rfl, hseq trivial k' hk'⟩⟩
      · cases hv
      · rw [← Option.some.inj hst', hp]
        rfl

/-- A move keeps a closed poll closed. -/
theorem ClosedKept.move {G : Prop} {w w' : PollView} (h : ViewMove G w w') : ClosedKept w w' := by
  intro st hst hclosed
  cases h with
  | create st' x hnone hp =>
      rw [hnone] at hst
      cases hst
  | close st' hstate => exact ⟨_, rfl, rfl⟩
  | store st₁ st' x hstate hv hp hkeep hseq =>
      obtain rfl := Option.some.inj (hstate.symm.trans hst)
      exact ⟨st', rfl, hkeep hclosed⟩
  | vote st₁ st' v hstate hp hkeep hseq =>
      obtain rfl := Option.some.inj (hstate.symm.trans hst)
      exact ⟨st', rfl, hkeep.trans hclosed⟩
  | retry v n hvote => exact ⟨st, hst, hclosed⟩
  | giveUp st₁ st' hstate hp hkeep =>
      obtain rfl := Option.some.inj (hstate.symm.trans hst)
      exact ⟨st', rfl, hkeep.trans hclosed⟩
  | ack st' k hp hkeep hseq => exact ⟨st', rfl, hkeep st hst hclosed⟩

/-- Moves one after the other keep a view good. -/
theorem GoodView.moves {w w' : PollView} (hw : GoodView w)
    (h : ReflTransGen (ViewMove True) w w') : GoodView w' ∧ AppliedKept w w' := by
  induction h with
  | refl => exact ⟨hw, fun k hk => ⟨k, hk, le_refl k⟩⟩
  | tail _ hmove ih =>
      obtain ⟨hgood, hkept⟩ := ih
      obtain ⟨hgood', hkept'⟩ := hgood.move hmove
      refine ⟨hgood', fun k hk => ?_⟩
      obtain ⟨k', hk', hle⟩ := hkept k hk
      obtain ⟨k'', hk'', hle'⟩ := hkept' k' hk'
      exact ⟨k'', hk'', hle.trans hle'⟩

theorem ClosedKept.moves {G : Prop} {w w' : PollView} (h : ReflTransGen (ViewMove G) w w') :
    ClosedKept w w' := by
  induction h with
  | refl => exact fun st hst hclosed => ⟨st, hst, hclosed⟩
  | tail _ hmove ih =>
      intro st hst hclosed
      obtain ⟨st', hst', hclosed'⟩ := ih st hst hclosed
      exact ClosedKept.move hmove st' hst' hclosed'

/-! ### Which moves a step makes -/

section Views

variable {s t : PollService} {p q : PyStr} {G : Prop}

/-- Writing the state of a poll. -/
theorem view_setState (s : PollService) (q : PyStr) (st : NewsPollVoteState) (p : PyStr) :
    (s.setState q st).view p =
      if p = q then { s.view p with state := some st } else s.view p := by
  unfold PollService.setState PollService.view
  split
  · rename_i heq
    rw [heq, Assoc.get?_set_self]
  · rename_i hne
    rw [Assoc.get?_set_of_ne _ _ hne]

/-- Putting a vote in flight. -/
theorem view_setVote (s : PollService) (q : PyStr) (v : InFlightVote) (n : ℤ) (p : PyStr) :
    PollService.view { s with votes := s.votes.set q v, lastSeq := n } p =
      if p = q then { s.view p with vote := some v } else s.view p := by
  unfold PollService.view
  split
  · rename_i heq
    rw [heq, Assoc.get?_set_self]
  · rename_i hne
    rw [Assoc.get?_set_of_ne _ _ hne]

/-- Making the state of another poll changes nothing. -/
theorem view_touch_of_ne (s : PollService) (h : p ≠ q) : (s.touch q).view p = s.view p := by
  unfold PollService.touch
  split
  · rfl
  · unfold PollService.view
    simp only [Assoc.get?_set_of_ne _ _ h, if_neg h]

/-- The state that was made is there, and nothing is pending in it. -/
theorem view_touch_self (s : PollService) (p : PyStr) :
    ((s.states.get? p).isSome = true ∧ s.touch p = s) ∨
      (s.states.get? p = none ∧ (s.touch p).view p =
        { s.view p with
          state := some (fromAccountData s.accountData.content p), seq := s.accountData.seqs p }) := by
  unfold PollService.touch
  split
  · rename_i st hst
    exact .inl ⟨by rw [hst]; rfl, rfl⟩
  · rename_i hnone
    refine .inr ⟨hnone, ?_⟩
    unfold PollService.view
    simp only [Assoc.get?_set_self, if_true]

/-- Making a state reads neither the votes in flight nor the numbers applied. -/
theorem touch_frame (s : PollService) (applied : Assoc PyStr ℤ) (votes : Assoc PyStr InFlightVote)
    (q : PyStr) : PollService.touch { s with appliedSeq := applied, votes := votes } q =
      { s.touch q with appliedSeq := applied, votes := votes } := by
  unfold PollService.touch
  dsimp only
  split <;> rfl

theorem appliedSeq_touch (s : PollService) (q : PyStr) : (s.touch q).appliedSeq = s.appliedSeq := by
  unfold PollService.touch
  split <;> rfl

theorem votes_touch (s : PollService) (q : PyStr) : (s.touch q).votes = s.votes := by
  unfold PollService.touch
  split <;> rfl

theorem pending_fromAccountData (content : Dict) (p : PyStr) :
    (fromAccountData content p).pending = none := by
  unfold fromAccountData
  split <;> rfl

/-- Making a state is at most one move. -/
theorem moves_touch (s : PollService) (p q : PyStr) :
    ReflTransGen (ViewMove G) (s.view p) ((s.touch q).view p) := by
  by_cases h : p = q
  · subst h
    rcases view_touch_self s p with ⟨-, hsame⟩ | ⟨hnone, hview⟩
    · rw [hsame]
    · rw [hview]
      exact .single (.create _ _ _ hnone (pending_fromAccountData _ _))
  · rw [view_touch_of_ne s h]

/-- After `stateOf` the state is in the view. -/
theorem view_stateOf (s : PollService) (p : PyStr) :
    ((s.touch p).view p).state = some ((s.touch p).stateOf p) := by
  rcases view_touch_self s p with ⟨hsome, hsame⟩ | ⟨hnone, hview⟩
  · obtain ⟨st, hst⟩ := Option.isSome_iff_exists.1 hsome
    rw [hsame]
    simp only [PollService.view, PollService.stateOf, hst, Option.getD_some]
  · have hstate : ((s.touch p).view p).state = some (fromAccountData s.accountData.content p) := by
      rw [hview]
    have hget : (s.touch p).states.get? p = some (fromAccountData s.accountData.content p) := hstate
    rw [hstate, PollService.stateOf, hget, Option.getD_some]

/-- The condition on a step: no answers come that are older than those applied. -/
def NotBehind (s : PollService) : PollAction → Prop
  | .vote pollId _ now _ => ∀ k ∈ s.appliedSeq.get? pollId, k ≤ s.nextSeq now
  | .ack _ content =>
      ∀ reqId ∈ tryGetString content "req_id", ∀ pollId ∈ tryGetString content "poll_id",
        ∀ v ∈ s.votes.get? pollId, v.reqId = reqId →
          ∀ k ∈ s.appliedSeq.get? pollId, k ≤ (tryGetInt content "seq").getD 0
  | .sync =>
      ∀ stored ∈ s.echoes.head?, ∀ e ∈ s.appliedSeq,
        (s.takesStored stored.content e.1).isSome = true → e.2 ≤ stored.seqs e.1
  | _ => True

instance (s : PollService) : (a : PollAction) → Decidable (NotBehind s a)
  | .vote pollId _ now _ =>
      inferInstanceAs (Decidable (∀ k ∈ s.appliedSeq.get? pollId, k ≤ s.nextSeq now))
  | .ack _ content =>
      inferInstanceAs (Decidable (∀ reqId ∈ tryGetString content "req_id",
        ∀ pollId ∈ tryGetString content "poll_id", ∀ v ∈ s.votes.get? pollId, v.reqId = reqId →
          ∀ k ∈ s.appliedSeq.get? pollId, k ≤ (tryGetInt content "seq").getD 0))
  | .sync =>
      inferInstanceAs (Decidable (∀ stored ∈ s.echoes.head?, ∀ e ∈ s.appliedSeq,
        (s.takesStored stored.content e.1).isSome = true → e.2 ≤ stored.seqs e.1))
  | .ensureLoaded .. | .timeout .. | .written .. | .failed .. | .other .. => .isTrue trivial

theorem moves_ensureLoaded (s : PollService) (q : PyStr) (closed : Bool) (p : PyStr) :
    ReflTransGen (ViewMove G) (s.view p) ((s.ensureLoaded q closed).view p) := by
  unfold PollService.ensureLoaded
  split
  · exact .refl
  · have htouch := moves_touch (G := G) { s with mineRequested := q :: s.mineRequested } p q
    dsimp only
    split
    · rw [view_setState]
      split
      · rename_i heq
        subst heq
        exact htouch.tail (.close _ _ (view_stateOf _ p))
      · exact htouch
    · exact htouch

theorem moves_vote (s : PollService) (q : PyStr) (answers : List PyStr) (now : ℤ) (reqId : PyStr)
    (hC : G → ∀ k, s.appliedSeq.get? q = some k → k ≤ s.nextSeq now) (p : PyStr) :
    ReflTransGen (ViewMove G) (s.view p) ((s.vote q answers now reqId).view p) := by
  have htouch := moves_touch (G := G) s p q
  have hseq : (s.touch q).nextSeq now = s.nextSeq now := by
    unfold PollService.touch
    split <;> rfl
  unfold PollService.vote
  rw [view_setState, view_setVote]
  split
  · rename_i heq
    subst heq
    refine htouch.tail (.vote _ _ _ _ (view_stateOf s p) rfl rfl fun hG k hk => ?_)
    rw [hseq]
    exact hC hG k (appliedSeq_touch s p ▸ hk)
  · exact htouch

theorem moves_timeout (h : s.timeout q = some t) (p : PyStr) :
    ReflTransGen (ViewMove G) (s.view p) (t.view p) := by
  unfold PollService.timeout at h
  split at h
  · cases h
  · rename_i v hv
    split at h
    · obtain rfl := Option.some.inj h
      rw [view_setVote]
      split
      · rename_i heq
        subst heq
        exact .single (.retry _ v _ hv)
      · exact .refl
    · obtain rfl := Option.some.inj h
      have hframe : PollService.touch { s with votes := s.votes.erase q } q =
          { s.touch q with votes := s.votes.erase q } := by
        have hboth := touch_frame s s.appliedSeq (s.votes.erase q) q
        rw [← appliedSeq_touch s q] at hboth
        rw [← hboth, appliedSeq_touch]
      rw [hframe, view_setState]
      have htouch := moves_touch (G := G) s p q
      have hview : PollService.view { s.touch q with votes := s.votes.erase q } p =
          { (s.touch q).view p with vote := if p = q then none else s.votes.get? p } := by
        unfold PollService.view
        simp only [Assoc.get?_erase]
      rw [hview]
      split
      · rename_i heq
        subst heq
        exact htouch.tail (.giveUp _ _ _ (view_stateOf s p) rfl rfl)
      · have hsame : { (s.touch q).view p with vote := s.votes.get? p } = (s.touch q).view p := by
          unfold PollService.view
          rw [votes_touch]
        rw [hsame]
        exact htouch

theorem view_persist (s : PollService) (v : PersistedVote) (x : ℤ) (p : PyStr) :
    (s.persist v x).view p = s.view p := by
  unfold PollService.persist
  dsimp only
  split <;> rfl

/-- A state that is there is not made again. -/
theorem stateOf_touch {st : NewsPollVoteState} (h : (s.view q).state = some st) :
    (s.touch q).stateOf q = st := by
  rcases view_touch_self s q with ⟨-, hsame⟩ | ⟨hnone, -⟩
  · have hget : s.states.get? q = some st := h
    rw [hsame, PollService.stateOf, hget, Option.getD_some]
  · cases hnone.symm.trans h

theorem moves_onAck (s : PollService) (q reqId : PyStr) (content : Dict)
    (hC : G → ∀ v k, s.votes.get? q = some v → v.reqId = reqId → s.appliedSeq.get? q = some k →
      k ≤ (tryGetInt content "seq").getD 0) (p : PyStr) :
    ReflTransGen (ViewMove G) (s.view p) ((s.onAck q reqId content).view p) := by
  unfold PollService.onAck
  dsimp only
  split
  · exact .refl
  rename_i hreq
  split
  · exact .refl
  rename_i hnew
  -- the view after the ack, whether or not it is stored
  suffices hmoves : ∀ st' : NewsPollVoteState, st'.pending = none →
      (∀ st, (s.view q).state = some st → st.closed = true → st'.closed = true) →
      ReflTransGen (ViewMove G) (s.view p)
        ((PollService.setState { PollService.touch { s with
            appliedSeq := s.appliedSeq.set q ((tryGetInt content "seq").getD 0)
            votes := s.votes.erase q } q with
          answersSeq := fun p => if p = q then (tryGetInt content "seq").getD 0 else
            (PollService.touch { s with
              appliedSeq := s.appliedSeq.set q ((tryGetInt content "seq").getD 0)
              votes := s.votes.erase q } q).answersSeq p } q st').view p) by
    have hclosed : ∀ b st, (s.view q).state = some st → st.closed = true →
        (b || (PollService.stateOf (PollService.touch { s with
            appliedSeq := s.appliedSeq.set q ((tryGetInt content "seq").getD 0)
            votes := s.votes.erase q } q) q).closed) = true := by
      intro b st hst hcl
      rw [stateOf_touch (s := { s with
            appliedSeq := s.appliedSeq.set q ((tryGetInt content "seq").getD 0)
            votes := s.votes.erase q }) hst, hcl, Bool.or_true]
    split
    · rw [view_persist]
      exact hmoves _ rfl (hclosed _)
    · exact hmoves _ rfl (hclosed _)
  intro st' hpending hclosed
  rw [view_setState, touch_frame]
  by_cases hpq : p = q
  · subst hpq
    rw [if_pos rfl]
    have hview : { PollService.view { s.touch p with
          appliedSeq := s.appliedSeq.set p ((tryGetInt content "seq").getD 0)
          votes := s.votes.erase p
          answersSeq := fun p' => if p' = p then (tryGetInt content "seq").getD 0 else
            (s.touch p).answersSeq p' } p with state := some st' } =
        ⟨some st', none, some ((tryGetInt content "seq").getD 0),
          (tryGetInt content "seq").getD 0⟩ := by
      unfold PollService.view
      simp only [Assoc.get?_set_self, Assoc.get?_erase, if_true]
    rw [hview]
    refine .single (.ack _ _ _ hpending hclosed fun hG k hk => ?_)
    have hget : s.appliedSeq.get? p = some k := hk
    cases hvote : s.votes.get? p with
    | none =>
        rw [hget, Option.getD_some] at hnew
        by_contra hlt
        exact hnew ⟨hvote, not_le.1 hlt⟩
    | some v =>
        rw [hvote] at hreq
        refine hC hG v k hvote ?_ hget
        by_contra hne
        exact hreq (by simp [hne])
  · rw [if_neg hpq]
    have hview : PollService.view { s.touch q with
          appliedSeq := s.appliedSeq.set q ((tryGetInt content "seq").getD 0)
          votes := s.votes.erase q
          answersSeq := fun p' => if p' = q then (tryGetInt content "seq").getD 0 else
            (s.touch q).answersSeq p' } p = (s.touch q).view p := by
      unfold PollService.view
      simp only [Assoc.get?_set_of_ne _ _ hpq, Assoc.get?_erase, if_neg hpq, votes_touch,
        appliedSeq_touch]
    rw [hview]
    exact moves_touch s p q

theorem moves_sync (s : PollService) (stored : StoredVotes) (rest : List StoredVotes) (p : PyStr)
    (hC : G → ∀ k, (s.takesStored stored.content p).isSome = true →
      s.appliedSeq.get? p = some k → k ≤ stored.seqs p) :
    ReflTransGen (ViewMove G) (s.view p) ((s.sync stored rest).view p) := by
  have hget : (s.sync stored rest).states.get? p = (s.states.get? p).map fun st =>
      ((s.takesStored stored.content p).map (PollService.withStored st)).getD st := by
    unfold PollService.sync PollService.applyAccountData
    rw [Assoc.get?_map]
    · congr 1
      funext st
      have htakes : PollService.takesStored { s with accountData := stored, echoes := rest }
          stored.content p = s.takesStored stored.content p := rfl
      dsimp only
      rw [htakes]
      cases s.takesStored stored.content p <;> rfl
    · intro e
      split <;> rfl
  have hseq : (s.sync stored rest).answersSeq p =
      if (s.states.get? p).isSome = true ∧ (s.takesStored stored.content p).isSome = true then
        stored.seqs p
      else s.answersSeq p := rfl
  cases hst : s.states.get? p with
  | none =>
      have hview : (s.sync stored rest).view p = s.view p := by
        rw [hst] at hget
        rw [if_neg (by simp [hst])] at hseq
        exact PollView.ext (hget.trans hst.symm) rfl rfl hseq
      rw [hview]
  | some st =>
      cases htake : s.takesStored stored.content p with
      | none =>
          have hview : (s.sync stored rest).view p = s.view p := by
            rw [hst, htake] at hget
            rw [if_neg (by simp [htake])] at hseq
            exact PollView.ext (hget.trans hst.symm) rfl rfl hseq
          rw [hview]
      | some d =>
          rw [hst, htake] at hget
          have hview : (s.sync stored rest).view p =
              { s.view p with
                state := some (PollService.withStored st d), seq := stored.seqs p } := by
            rw [if_pos (by simp [hst, htake])] at hseq
            exact PollView.ext hget rfl rfl hseq
          have hvote : s.votes.get? p = none := by
            by_contra hne
            have hsome := Option.isSome_iff_ne_none.2 hne
            simp [PollService.takesStored, hsome] at htake
          rw [hview]
          refine .single (.store _ st _ _ hst hvote rfl (fun hcl => ?_) fun hG k hk => ?_)
          · simp [PollService.withStored, hcl]
          · exact hC hG k (by simp [htake]) hk

/-- **What a step does to a view.** -/
theorem view_step {a : PollAction} (hC : G → NotBehind s a) (h : pollStep s a = some t) (p : PyStr) :
    ReflTransGen (ViewMove G) (s.view p) (t.view p) := by
  cases a with
  | ensureLoaded q closed =>
      obtain rfl := Option.some.inj h
      exact moves_ensureLoaded s q closed p
  | vote q answers now reqId =>
      obtain rfl := Option.some.inj h
      exact moves_vote s q answers now reqId hC p
  | timeout q => exact moves_timeout h p
  | ack senderId content =>
      obtain rfl := Option.some.inj h
      unfold PollService.onToDevice
      split
      · rename_i reqId q hreq hq
        split
        · exact moves_onAck s q reqId content
            (fun hG v k hv hid hk => hC hG reqId hreq q hq v hv hid k hk) p
        · exact .refl
      · exact .refl
  | sync =>
      simp only [pollStep] at h
      split at h
      · cases h
      · rename_i stored rest hechoes
        obtain rfl := Option.some.inj h
        refine moves_sync s stored rest p fun hG k htake hk => ?_
        exact hC hG stored (by rw [hechoes]; rfl) (p, k) (Assoc.mem_of_get? hk) htake
  | written i =>
      simp only [pollStep] at h
      split at h
      · cases h
      · obtain rfl := Option.some.inj h
        exact .refl
  | failed i =>
      simp only [pollStep] at h
      split at h
      · obtain rfl := Option.some.inj h
        exact .refl
      · cases h
  | other stored =>
      obtain rfl := Option.some.inj h
      exact .refl

end Views

/-! ### Whole runs -/

section Runs

variable {s t : PollService} {as : List PollAction}

theorem goodView_start (accountData server : StoredVotes) (p : PyStr) :
    GoodView ((PollService.start accountData server).view p) where
  applied k hk := by cases hk
  pending st hst := by cases hst
  vote hv := by cases hv

/-- Along a run that is never behind, views stay good and the numbers applied do not decrease. -/
theorem goodView_run (h : Exec pollStep NotBehind s as t) (p : PyStr) (hs : GoodView (s.view p)) :
    GoodView (t.view p) ∧ AppliedKept (s.view p) (t.view p) := by
  refine h.invariant (I := fun u => GoodView (u.view p) ∧ AppliedKept (s.view p) (u.view p))
    ⟨hs, fun k hk => ⟨k, hk, le_refl k⟩⟩ fun u a u' hu hC hstep => ?_
  obtain ⟨hgood, hkept⟩ := hu
  obtain ⟨hgood', hkept'⟩ := hgood.moves (view_step (fun _ => hC) hstep p)
  refine ⟨hgood', fun k hk => ?_⟩
  obtain ⟨k', hk', hle⟩ := hkept k hk
  obtain ⟨k'', hk'', hle'⟩ := hkept' k' hk'
  exact ⟨k'', hk'', hle.trans hle'⟩

theorem closed_run (h : Exec pollStep (fun _ _ => True) s as t) (p : PyStr) :
    ClosedKept (s.view p) (t.view p) := by
  refine h.invariant (I := fun u => ClosedKept (s.view p) (u.view p))
    (fun st hst hclosed => ⟨st, hst, hclosed⟩) fun u a u' hu _ hstep st hst hclosed => ?_
  obtain ⟨st', hst', hclosed'⟩ := hu st hst hclosed
  exact ClosedKept.moves (view_step (G := False) False.elim hstep p) st' hst' hclosed'

/-- The answers on the screen: those of the vote in flight, and else those confirmed. -/
def shownAnswers (s : PollService) (p : PyStr) (st : NewsPollVoteState) : List PyStr :=
  match s.votes.get? p with
  | some v => v.answers
  | none => st.answers

theorem shown_of_goodView {p : PyStr} (h : GoodView (s.view p)) {st : NewsPollVoteState}
    (hst : s.states.get? p = some st) : st.shown = shownAnswers s p st := by
  have hpending : st.pending = (s.votes.get? p).map InFlightVote.answers := h.pending st hst
  unfold NewsPollVoteState.shown shownAnswers
  rw [hpending]
  cases s.votes.get? p <;> rfl

theorem applied_le_shownSeq {p : PyStr} (h : GoodView (s.view p)) {k : ℤ}
    (hk : s.appliedSeq.get? p = some k) : k ≤ s.shownSeq p := by
  obtain ⟨-, hle, hvote⟩ := h.applied k hk
  unfold PollService.shownSeq
  split
  · rename_i v hv
    exact hvote v hv
  · exact hle

end Runs

/-- **A confirmed vote is not rolled back, in every run that is never behind: the number applied
does not decrease, and the answers on the screen belong to no smaller one.  In every run a poll
that is closed stays closed.** -/
theorem confirmed_vote_kept (accountData server : StoredVotes) :
    (∀ as s bs t, Exec pollStep NotBehind (PollService.start accountData server) as s →
      Exec pollStep NotBehind s bs t → ∀ p k, s.appliedSeq.get? p = some k →
        (∃ k', t.appliedSeq.get? p = some k' ∧ k ≤ k' ∧ k' ≤ t.shownSeq p) ∧
        ∃ st, t.states.get? p = some st ∧ st.shown = shownAnswers t p st) ∧
    ∀ as s bs t, Exec pollStep (fun _ _ => True) (PollService.start accountData server) as s →
      Exec pollStep (fun _ _ => True) s bs t → ∀ p st, s.states.get? p = some st →
        st.closed = true → ∃ st', t.states.get? p = some st' ∧ st'.closed = true := by
  constructor
  · intro as s bs t hs ht p k hk
    have hgood := (goodView_run hs p (goodView_start accountData server p)).1
    obtain ⟨hgood', hkept⟩ := goodView_run ht p hgood
    obtain ⟨k', hk', hle⟩ := hkept k hk
    obtain ⟨st, hst⟩ := Option.isSome_iff_exists.1 (hgood'.applied k' hk').1
    exact ⟨⟨k', hk', hle, applied_le_shownSeq hgood' hk'⟩, st, hst, shown_of_goodView hgood' hst⟩
  · intro as s bs t _ ht p st hst hclosed
    exact closed_run ht p st hst hclosed

/-- No votes are stored. -/
def noVotes : StoredVotes := ⟨[], fun _ => 0⟩

/-- The bot's ack, with the number of the vote where there is one. -/
def ackOf (reqId : PyStr) (seq : Option ℤ) (answers : List PyStr) : PollAction :=
  .ack "@liza-news:bots.liza.ru"
    (([("req_id", .str reqId), ("poll_id", .str "p1"), ("answers", .arr (answers.map .str))] : Dict)
      ++ (seq.map fun n => (py "seq", Json.int n)).toList)

/-- A vote that is confirmed and stored, and another one. -/
def votedTwice : List PollAction :=
  [.sync, .vote "p1" ["a"] 1000 "r1", ackOf "r1" (some 1000) ["a"], .written 0,
    .vote "p1" ["b"] 2000 "r2"]

/-- The echo of the first vote comes before the ack of the second. -/
theorem confirmed_vote_kept_echo_first :
    ∃ s t, Exec pollStep NotBehind (PollService.start noVotes noVotes) votedTwice s ∧
      Exec pollStep NotBehind s [.sync, ackOf "r2" (some 2000) ["b"]] t ∧
      ∃ k', t.appliedSeq.get? "p1" = some k' ∧ 1000 ≤ k' ∧ k' ≤ t.shownSeq "p1" := by
  obtain ⟨s, hs, hk, hrest⟩ : ∃ s,
      Exec pollStep NotBehind (PollService.start noVotes noVotes) votedTwice s ∧
      s.appliedSeq.get? "p1" = some 1000 ∧
      (runs pollStep NotBehind s [.sync, ackOf "r2" (some 2000) ["b"]]).isSome = true :=
    exists_exec_of_runs (p := fun s : PollService => s.appliedSeq.get? "p1" = some 1000 ∧
      (runs pollStep NotBehind s [.sync, ackOf "r2" (some 2000) ["b"]]).isSome = true) (by decide +kernel)
  obtain ⟨t, ht⟩ := Option.isSome_iff_exists.1 hrest
  have ht := exec_of_runs ht
  exact ⟨s, t, hs, ht, ((confirmed_vote_kept noVotes noVotes).1 _ s _ t hs ht _ _ hk).1⟩

/-- **The ack of the vote in flight lowers the number applied where it has none, and the echo of an
earlier vote replaces the answers of a later one.** -/
theorem confirmed_vote_rolled_back :
    (∃ s t, Exec pollStep (fun _ _ => True) (PollService.start noVotes noVotes) votedTwice s ∧
      pollStep s (ackOf "r2" none ["b"]) = some t ∧
      s.appliedSeq.get? "p1" = some 1000 ∧ t.appliedSeq.get? "p1" = some 0) ∧
    ∃ s t, Exec pollStep (fun _ _ => True) (PollService.start noVotes noVotes)
        (votedTwice ++ [ackOf "r2" (some 2000) ["b"]]) s ∧
      pollStep s .sync = some t ∧
      s.appliedSeq.get? "p1" = some 2000 ∧ (s.stateOf "p1").shown = [py "b"] ∧
      t.shownSeq "p1" = 1000 ∧ (t.stateOf "p1").shown = [py "a"] := by
  constructor
  · exact exists_step_of_runs (p := fun s t : PollService =>
      s.appliedSeq.get? "p1" = some 1000 ∧ t.appliedSeq.get? "p1" = some 0) (by decide +kernel)
  · exact exists_step_of_runs (p := fun s t : PollService =>
      s.appliedSeq.get? "p1" = some 2000 ∧ (s.stateOf "p1").shown = [py "b"] ∧
      t.shownSeq "p1" = 1000 ∧ (t.stateOf "p1").shown = [py "a"]) (by decide +kernel)

end Client
end Liza
