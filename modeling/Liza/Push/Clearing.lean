/-
# Is every read room cleared?

A counts-only push makes the devices of a user take down the banners of the rooms
that were read.  `_update_badge` sends one when the badge has changed, and with
`clearing_on_room_read` also when a room of the set it remembers is not unread any
more.  But the set is remembered by `_update_badge` alone, while the badge is
remembered by event pushes too: a room that becomes unread, is pushed, and is read
again between two `_update_badge` calls is in no remembered set, and when another
room has become unread in the meantime the badge is the same.

So the rooms at risk are those that left the unread set unseen.  All others that were
not cleared since they left are still in the remembered set (`Remembered`), over every
run; from this it follows exactly when a completed `_update_badge` leaves no pushed and
read room behind.
-/

import Liza.Push.HttpPusher

set_option autoImplicit false

namespace Liza
namespace Push

open Lib Synapse

/-- What holds of every state: a room that left the unread set and was not cleared since
is remembered, or it left unseen; and what left unseen was not cleared since. -/
structure Remembered (s : State) : Prop where
  kept : ∀ room ∈ s.uncleared, room ∈ s.unseen ∨ room ∈ s.unreadRoomsLastCall.getD []
  sub : ∀ room ∈ s.unseen, room ∈ s.uncleared

section Step

variable {cfg : Config} {s t : State} {a : Act} {invites : List RoomId}
  {counts : List (RoomId × ℕ)} {room : RoomId}

/-- A call that does not send keeps every remembered room unread. -/
theorem subset_of_not_send {previousBadge : Option ℕ} {badge : ℕ}
    {previousRooms : Option (List RoomId)} {rooms : List RoomId}
    (h : shouldSendBadge previousBadge badge previousRooms rooms true = false)
    (hroom : room ∈ previousRooms.getD []) : room ∈ rooms := by
  unfold shouldSendBadge at h
  split at h
  · cases h
  · cases previousRooms with
    | none => cases hroom
    | some previousRooms =>
        have hsub : ∀ room ∈ previousRooms, room ∈ rooms := by simpa using h
        exact hsub room hroom

/-- What a completed `_update_badge` leaves of the rooms that were not cleared. -/
theorem updateBadge_cases (cfg : Config) (s : State) (invites : List RoomId)
    (counts : List (RoomId × ℕ)) :
    let send := shouldSendBadge s.badgeCountLastCall
      (badgeFromUnread invites counts cfg.groupUnreadCountByRoom) s.unreadRoomsLastCall
      (unreadRoomIds invites counts) cfg.clearingOnRoomRead
    let t := updateBadge cfg s invites counts
    t.unreadRoomsLastCall = some (unreadRoomIds invites counts) ∧ t.pushed = s.pushed ∧
      (send = true ∧ t.uncleared = [] ∧ t.unseen = [] ∨
        send = false ∧ t.uncleared = s.uncleared ∧ t.unseen = s.unseen) := by
  intro send t
  cases hsend : send with
  | true =>
      have ht : t = { s with
          unreadRoomsLastCall := some (unreadRoomIds invites counts)
          badgeCountLastCall := some (badgeFromUnread invites counts cfg.groupUnreadCountByRoom)
          uncleared := [], unseen := [] } := if_pos hsend
      rw [ht]
      exact ⟨rfl, rfl, .inl ⟨rfl, rfl, rfl⟩⟩
  | false =>
      have ht : t = { s with unreadRoomsLastCall := some (unreadRoomIds invites counts) } :=
        if_neg (by rw [show shouldSendBadge _ _ _ _ _ = send from rfl, hsend]; exact
          Bool.false_ne_true)
      rw [ht]
      exact ⟨rfl, rfl, .inr ⟨rfl, rfl, rfl⟩⟩

theorem remembered_change (hs : Remembered s) : Remembered (change s invites counts) := by
  constructor
  · intro room hroom
    rcases List.mem_append.1 hroom with hroom | hleft
    · exact (hs.kept room hroom).imp (fun h => List.mem_append.2 (.inl h)) id
    · by_cases hseen : room ∈ s.unreadRoomsLastCall.getD []
      · exact .inr hseen
      · refine .inl (List.mem_append.2 (.inr (List.mem_filter.2 ⟨hleft, ?_⟩)))
        exact decide_eq_true hseen
  · intro room hroom
    rcases List.mem_append.1 hroom with hroom | hleft
    · exact List.mem_append.2 (.inl (hs.sub room hroom))
    · exact List.mem_append.2 (.inr (List.mem_filter.1 hleft).1)

theorem remembered_updateBadge (hclear : cfg.clearingOnRoomRead = true) (hs : Remembered s) :
    Remembered (updateBadge cfg s invites counts) := by
  obtain ⟨hlast, -, ⟨-, hun, hunseen⟩ | ⟨hsend, hun, hunseen⟩⟩ :=
    updateBadge_cases cfg s invites counts
  · refine ⟨fun room hroom => ?_, fun room hroom => ?_⟩
    · rw [hun] at hroom
      cases hroom
    · rw [hunseen] at hroom
      cases hroom
  · rw [hclear] at hsend
    refine ⟨fun room hroom => ?_, fun room hroom => ?_⟩
    · rw [hun] at hroom
      rw [hunseen, hlast]
      -- a remembered room is unread still, so it is in the new set
      exact (hs.kept room hroom).imp id fun h => subset_of_not_send hsend h
    · rw [hunseen] at hroom
      rw [hun]
      exact hs.sub room hroom

/-- **Every step keeps what is remembered.** -/
theorem remembered_step (hclear : cfg.clearingOnRoomRead = true) (hs : Remembered s)
    (h : step cfg s a = some t) : Remembered t := by
  cases a with
  | change invites counts =>
      obtain rfl := Option.some.inj h
      exact remembered_change hs
  | update =>
      obtain rfl := Option.some.inj h
      exact ⟨hs.kept, hs.sub⟩
  | count i =>
      simp only [step] at h
      split at h
      · obtain rfl := Option.some.inj h
        exact ⟨hs.kept, hs.sub⟩
      · cases h
  | finish i =>
      simp only [step] at h
      split at h
      · obtain rfl := Option.some.inj h
        exact ⟨(remembered_updateBadge hclear hs).kept, (remembered_updateBadge hclear hs).sub⟩
      · cases h
  | process room =>
      simp only [step] at h
      split at h
      · obtain rfl := Option.some.inj h
        exact ⟨hs.kept, hs.sub⟩
      · cases h
  | countEvent =>
      simp only [step] at h
      split at h
      · obtain rfl := Option.some.inj h
        exact ⟨hs.kept, hs.sub⟩
      · cases h
  | skip =>
      obtain rfl := Option.some.inj h
      exact ⟨hs.kept, hs.sub⟩
  | answer accepted =>
      simp only [step] at h
      split at h
      · split at h <;> obtain rfl := Option.some.inj h <;> exact ⟨hs.kept, hs.sub⟩
      · cases h

end Step

section Runs

variable {cfg : Config} {s t : State} {as : List Act} {invites invites₀ : List RoomId}
  {counts counts₀ : List (RoomId × ℕ)} {i : ℕ}

theorem remembered_run (hclear : cfg.clearingOnRoomRead = true)
    (h : Exec (step cfg) (fun _ _ => True) (start invites₀ counts₀) as s) : Remembered s := by
  refine h.invariant (I := Remembered) ⟨?_, ?_⟩ fun _ _ _ hs _ hstep =>
    remembered_step hclear hs hstep
  · intro room hroom
    cases hroom
  · intro room hroom
    cases hroom

/-- **Which completed `_update_badge` leaves a banner behind.**  In every run, after a
completed `_update_badge` every room with an earlier event push that is not in the set
computed by the call has had a counts-only push since it left the unread set, exactly
when the call sends one or every room with an earlier event push that left unseen (since
the last counts-only push, at a moment when no remembered set held it) is in the computed
set again. -/
theorem update_clears_iff (hclear : cfg.clearingOnRoomRead = true)
    (h : Exec (step cfg) (fun _ _ => True) (start invites₀ counts₀) as s)
    (hi : s.updates[i]? = some ⟨invites, some counts⟩) (hstep : step cfg s (.finish i) = some t) :
    (∀ room ∈ t.pushed, room ∉ unreadRoomIds invites counts → room ∉ t.uncleared) ↔
      (shouldSendBadge s.badgeCountLastCall
          (badgeFromUnread invites counts cfg.groupUnreadCountByRoom) s.unreadRoomsLastCall
          (unreadRoomIds invites counts) cfg.clearingOnRoomRead = false →
        ∀ room ∈ s.pushed, room ∈ s.unseen → room ∈ unreadRoomIds invites counts) := by
  have hs := remembered_run hclear h
  simp only [step, hi, Option.some.injEq] at hstep
  subst hstep
  obtain ⟨-, hpushed, hcases⟩ := updateBadge_cases cfg s invites counts
  change (∀ room ∈ (updateBadge cfg s invites counts).pushed, _ →
    room ∉ (updateBadge cfg s invites counts).uncleared) ↔ _
  rw [hpushed]
  rcases hcases with ⟨hsend, hun, -⟩ | ⟨hsend, hun, -⟩
  · refine iff_of_true (fun room _ _ hroom => ?_) fun hnot => ?_
    · rw [hun] at hroom
      cases hroom
    · rw [hsend] at hnot
      cases hnot
  · rw [hun]
    constructor
    · intro hclean _ room hroom hunseen
      by_contra hread
      exact hclean room hroom hread (hs.sub room hunseen)
    · intro hcond room hroom hread huncleared
      rcases hs.kept room huncleared with hunseen | hseen
      · exact hread (hcond hsend room hroom hunseen)
      · -- a remembered room that is read makes the call send
        rw [hclear] at hsend
        exact hread (subset_of_not_send hsend hseen)

end Runs

/-! ### A room that comes and goes -/

/-- One badge for each room, and clearing is on. -/
def clearing : Config := ⟨true, true⟩

/-- `_update_badge` from its beginning to its end. -/
def receipt : List Act := [.update, .count 0, .finish 0]

/-- An event push of a room, accepted. -/
def eventPush (room : RoomId) : List Act := [.process room, .countEvent, .answer true]

/-- Nothing is unread; a message arrives in `!x` and is pushed; `!x` is read while a
message arrives in `!y`; then `_update_badge` runs, up to its last step. -/
def comesAndGoes : List Act :=
  receipt ++ [Act.change [] [("!x", 1)]] ++ eventPush "!x" ++
    [Act.change [] [("!y", 1)], .update, .count 0]

/-- **The banner of a read room stays:** `!x` has had an event push, is not in the set that
the completed `_update_badge` has computed, and no counts-only push was sent since it was
read. -/
theorem banner_stays :
    ∃ s t, Exec (step clearing) (fun _ _ => True) (start [] []) comesAndGoes s ∧
      step clearing s (.finish 0) = some t ∧
      s.updates[0]? = some ⟨[], some [(py "!y", 1)]⟩ ∧ py "!x" ∈ t.pushed ∧
      py "!x" ∉ unreadRoomIds [] [(py "!y", 1)] ∧ py "!x" ∈ t.uncleared :=
  exists_step_of_runs (by decide)

/-- The same with an `_update_badge` while `!x` is unread: the remembered set holds `!x`,
and the last call sends. -/
def seenInBetween : List Act :=
  receipt ++ [Act.change [] [("!x", 1)]] ++ eventPush "!x" ++ receipt ++
    [Act.change [] [("!y", 1)], .update, .count 0]

/-- What was seen unread is cleared. -/
theorem seen_room_cleared :
    ∃ s t, Exec (step clearing) (fun _ _ => True) (start [] []) seenInBetween s ∧
      step clearing s (.finish 0) = some t ∧ py "!x" ∈ t.pushed ∧
      ∀ room ∈ t.pushed, room ∉ unreadRoomIds [] [(py "!y", 1)] → room ∉ t.uncleared := by
  obtain ⟨s, t, hs, hstep, hi, hpushed, hunseen⟩ := exists_step_of_runs
    (f := step clearing) (C := fun _ _ => True) (s := start [] []) (l := seenInBetween)
    (a := .finish 0)
    (p := fun s t => s.updates[0]? = some ⟨[], some [(py "!y", 1)]⟩ ∧ py "!x" ∈ t.pushed ∧
      s.unseen = []) (by decide)
  refine ⟨s, t, hs, hstep, hpushed, (update_clears_iff rfl hs hi hstep).2 ?_⟩
  intro _ room _ hroom
  rw [hunseen] at hroom
  cases hroom

end Push
end Liza
