/-
# A channel with a fixed discussion room

The results about convergence are about one channel whose link does not change.
`Linked C D owner w` says what the jobs read of such a pair of rooms; below it
are what leaves the pair as it is, and what the reads of the module return on it.
-/

import Liza.ChannelSync.Module
import Liza.Synapse.Specs

set_option autoImplicit false

namespace Liza
namespace ChannelSync

open Lib Synapse

/-- A channel with its linked discussion room, which is not a channel itself. -/
structure Linked (C D : RoomId) (owner : UserId) (w : World) : Prop where
  channel : w.chatType C = .str channelTypeName
  link : w.link C = .str D
  creator : w.creator D = some owner
  discussion : w.chatType D ≠ .str channelTypeName

variable {C D : RoomId} {owner : UserId} {w w' : World}

/-- The pair is read off the creation events and the link. -/
theorem Linked.of_rooms (hw : Linked C D owner w)
    (hc : ∀ room, w'.rooms.state room createState [] = w.rooms.state room createState [])
    (hl : w'.rooms.state C channelDiscussionState [] =
      w.rooms.state C channelDiscussionState []) : Linked C D owner w' where
  channel := by
    have := hw.channel
    unfold World.chatType at this ⊢
    rwa [hc]
  link := by
    have := hw.link
    unfold World.link at this ⊢
    rwa [hl]
  creator := by
    have := hw.creator
    unfold World.creator at this ⊢
    rwa [hc]
  discussion := by
    have := hw.discussion
    unfold World.chatType at this ⊢
    rwa [hc]

theorem Linked.of_rooms_eq (hw : Linked C D owner w) (hr : w'.rooms = w.rooms) :
    Linked C D owner w' :=
  hw.of_rooms (fun _ => by rw [hr]) (by rw [hr])

/-- Any other event leaves the pair as it is. -/
theorem Linked.persist (hw : Linked C D owner w) {e : Event} (hr : w'.rooms = w.rooms.persist e)
    (hc : e.type ≠ createState) (hl : e.type ≠ channelDiscussionState) :
    Linked C D owner w' := by
  refine hw.of_rooms (fun room => ?_) ?_
  · rw [hr, Rooms.persist_state_of_ne]
    exact fun h => hc h.2.1
  · rw [hr, Rooms.persist_state_of_ne]
    exact fun h => hl h.2.1

theorem Linked.ne (hw : Linked C D owner w) : C ≠ D := by
  rintro rfl
  exact hw.discussion hw.channel

variable {I : World → Prop}

theorem discussionRoom_returns (hI : ∀ w, I w → w.link C = .str D) :
    Returns I (· = .str D) (discussionRoom C) := by
  simp only [discussionRoom, stateContent, Task.bind_assoc, Task.pure_eq_ret, Task.ret_bind]
  exact .read (fun ev => discussionRoomOf (ev.map StateEvent.content)) hI

theorem channelJoinRule_returns {V : Json → Prop} (hV : ∀ w, I w → V (w.joinRule C)) :
    Returns I V (channelJoinRule (.str C)) := by
  simp only [channelJoinRule, stateContent, Task.bind_assoc, Task.pure_eq_ret, Task.ret_bind]
  exact .read (fun ev => joinRuleOf (ev.map StateEvent.content)) hV

end ChannelSync
end Liza
