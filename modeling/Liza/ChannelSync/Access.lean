/-
# Access to a discussion room follows the membership of its channel, in order

A join in a closed channel starts `_on_channel_join`, which invites the member to
the discussion room; a leave or a ban starts `_on_channel_leave`, which takes the
member out of it.  As with the privacy of the room (`Liza.ChannelSync.Privacy`)
the jobs are not ordered: an invite may land after the kick that should undo it,
and then somebody who has left the channel is asked into its comments.

A run is in order when no invite or kick of a user lands after the opposite call
for the same user by the job of a later event.  In every such run, in which the
membership calls fail only where they would change nothing, everybody who has
come to the channel is in the discussion room and nobody who has left it is, as
soon as all jobs have ended.
-/

import Liza.ChannelSync.Linked
import Liza.Lib.Settle

set_option autoImplicit false

namespace Liza
namespace ChannelSync

open Lib Synapse
open Lib.Task (Obeys Bound)

/-- What an event of the channel asks for `user`: access to the discussion room
(`true`) on a join, and no access (`false`) on a leave or a ban. -/
def askOf (C : RoomId) (user : UserId) : Ev → Option Bool
  | .newEvent e =>
      if e.roomId = C ∧ e.type = py "m.room.member" ∧ e.stateKey = some user then
        match Rooms.membershipOf e.content with
        | some .join => some true
        | some .leave => some false
        | some .ban => some false
        | _ => none
      else none
  | _ => none

/-- The membership call that gives or takes access. -/
def accessAction (b : Bool) : Membership := if b then .invite else .leave

/-- The job that makes it. -/
def accessJob (C : RoomId) (user : UserId) (b : Bool) : Job :=
  if b then .onChannelJoin C user else .onChannelLeave C user

/-- A join, leave or ban of a human member of the channel, under a full user id. -/
def memberEvent (host : PyStr) (roles : UserId → Option Dict) (C : RoomId) (e : Event) : Bool :=
  e.roomId = C && e.type = py "m.room.member" &&
    match e.stateKey with
    | some user => (split1 (codePoint ':') user).2.isSome && human host roles user &&
        (askOf C user (.newEvent e)).isSome
    | none => false

/-- A user who is in the discussion room, or asked into it, joins it. -/
def acceptance (w : World) (D : RoomId) (e : Event) : Bool :=
  e.roomId = D && e.type = py "m.room.member" && e.content.get "membership" = .str "join" &&
    match e.stateKey with
    | some user => w.rooms.isIn D user
    | none => false

/-- The moves of the runs in question: members come and go in the channel, the
invited accept, reads of the state succeed, and a membership call fails only
where the target is in the room already, respectively not in it. -/
def Moves (host : PyStr) (roles : UserId → Option Dict) (C D : RoomId) (s : State) : Act → Prop
  | .event (.newEvent e) => memberEvent host roles C e = true ∨ acceptance s.world D e = true
  | .event _ => False
  | .step i raises =>
      match s.threads[i]? with
      | some ⟨_, _, .await (.stateEvent room type) _⟩ =>
          (perform channelSync host s.world (.stateEvent room type) raises).2.1.isSome
      | some ⟨_, _, .await (.updateRoomMembership sender target room action hosts) _⟩ =>
          (perform channelSync host s.world (.updateRoomMembership sender target room action hosts)
              raises).2.1 = none →
            s.world.rooms.isIn D target = decide (action = .invite)
      | _ => True

/-- A membership call does not undo the opposite one of a later event. -/
def InTurn (s : State) : Act → Prop
  | .event _ => True
  | .step i _ =>
      match s.threads[i]? with
      | some ⟨o, _, .await (.updateRoomMembership _ target room action _) _⟩ =>
          ∀ e ∈ s.log, o < e.origin →
            match e.done.op with
            | .updateRoomMembership _ target' room' action' _ =>
                target' = target → room' = room → action' = action
            | _ => True
      | _ => True

instance (host : PyStr) (roles : UserId → Option Dict) (C D : RoomId) (s : State) (a : Act) :
    Decidable (Moves host roles C D s a) := by
  unfold Moves
  split
  · infer_instance
  · infer_instance
  · split <;> infer_instance

instance (s : State) (a : Act) : Decidable (InTurn s a) := by
  unfold InTurn
  split
  · infer_instance
  · split
    · refine @List.decidableBAll _ _ (fun e => ?_) _
      refine @instDecidableForall _ _ _ ?_
      split <;> infer_instance
    · infer_instance

/-- Who has come to the channel is in the discussion room or invited to it, and
who has left it or was banned is not. -/
def World.AccessFollows (w : World) (C D : RoomId) (user : UserId) : Prop :=
  (w.rooms.membership C user = some .join → w.rooms.isIn D user = true) ∧
    (w.rooms.membership C user = some .leave ∨ w.rooms.membership C user = some .ban →
      w.rooms.isIn D user = false)

instance (w : World) (C D : RoomId) (user : UserId) : Decidable (w.AccessFollows C D user) := by
  unfold World.AccessFollows
  infer_instance

/-! ### The law of the runs -/

section Law

variable (host : PyStr) (roles : UserId → Option Dict) (C D : RoomId) (owner : UserId)

/-- A closed channel with its discussion room; the roles of the users are fixed. -/
structure Closed (w : World) : Prop extends Linked C D owner w where
  closed : isPublicChannel (w.joinRule C) = false
  roles : w.roles = roles

/-- The jobs of such a run. -/
def accessJobs (es : List Ev) (o : ℕ) : Job → Prop
  | .onNewEvent e =>
      (e.roomId = D ∧ e.type = py "m.room.member") ∨
        es[o]? = some (.newEvent e) ∧ memberEvent host roles C e = true
  | .onChannelJoin c user => c = C ∧ human host roles user = true ∧
      (split1 (codePoint ':') user).2.isSome = true ∧
      ∃ e, es[o]? = some e ∧ askOf C user e = some true
  | .onChannelLeave c user => c = C ∧ ∃ e, es[o]? = some e ∧ askOf C user e = some false
  | .muteForSubscriber _ _ => True
  | _ => False

/-- What they do: they read and mute, the callback of a member's event starts the
job that gives or takes access, and that job makes its membership call. -/
def accessOps : Job → Op → Prop
  | .onNewEvent e, op => op.quiet = true ∨
      (∃ user room, op = .background (.muteForSubscriber user room)) ∨
      ∃ user b, e.roomId = C ∧ e.stateKey = some user ∧ askOf C user (.newEvent e) = some b ∧
        op = .background (accessJob C user b)
  | .onChannelJoin _ user, op => op.quiet = true ∨
      ∃ hosts, op = .updateRoomMembership owner user (.str D) .invite hosts
  | .onChannelLeave _ user, op => op.quiet = true ∨
      op = .updateRoomMembership owner user (.str D) .leave none
  | .muteForSubscriber _ _, op => op.quiet = true
  | _, _ => False

/-- The law of the runs in question. -/
def access : System.Law World Ev Job Op Res where
  I := Closed roles C D owner
  J := accessJobs host roles C D
  A := answers (Closed roles C D owner)
  P := fun job _ op => accessOps C D owner job op

variable {host roles C D owner}

theorem askOf_newEvent {e : Event} {user : UserId} {b : Bool}
    (h : askOf C user (.newEvent e) = some b) :
    e.roomId = C ∧ e.type = py "m.room.member" ∧ e.stateKey = some user ∧
      (b = true ∧ Rooms.membershipOf e.content = some .join ∨
        b = false ∧ (Rooms.membershipOf e.content = some .leave ∨
          Rooms.membershipOf e.content = some .ban)) := by
  simp only [askOf] at h
  split at h
  · rename_i hc
    refine ⟨hc.1, hc.2.1, hc.2.2, ?_⟩
    split at h
    · rename_i hm
      exact .inl ⟨(Option.some.inj h).symm, hm⟩
    · rename_i hm
      exact .inr ⟨(Option.some.inj h).symm, .inl hm⟩
    · rename_i hm
      exact .inr ⟨(Option.some.inj h).symm, .inr hm⟩
    · cases h
  · cases h

theorem memberEvent_cases {e : Event} (h : memberEvent host roles C e = true) :
    ∃ user b, e.roomId = C ∧ e.type = py "m.room.member" ∧ e.stateKey = some user ∧
      (split1 (codePoint ':') user).2.isSome = true ∧ human host roles user = true ∧
      askOf C user (.newEvent e) = some b := by
  simp only [memberEvent, Bool.and_eq_true, decide_eq_true_eq] at h
  obtain ⟨⟨hr, ht⟩, hk⟩ := h
  split at hk
  · rename_i user hkey
    simp only [Bool.and_eq_true] at hk
    obtain ⟨⟨hcolon, hhuman⟩, hask⟩ := hk
    obtain ⟨b, hb⟩ := Option.isSome_iff_exists.1 hask
    exact ⟨user, b, hr, ht, hkey, hcolon, hhuman, hb⟩
  · cases hk

/-- The text of a membership. -/
theorem get_membership {content : Dict} {m : Membership}
    (h : Rooms.membershipOf content = some m) : content.get "membership" = .str m.text := by
  unfold Rooms.membershipOf at h
  split at h
  · rename_i t ht
    rw [ht]
    have := List.find?_some h
    rw [of_decide_eq_true this]
  · cases h

theorem ne_nil_of_server {user : UserId} (h : (split1 (codePoint ':') user).2.isSome = true) :
    user ≠ [] := by
  rintro rfl
  cases h

/-- `_on_new_event` of a leave or a ban. -/
theorem onNewEvent_leave {e : Event} {user : UserId} (ht : e.type = py "m.room.member")
    (hm : e.content.get "membership" = .str "leave" ∨ e.content.get "membership" = .str "ban")
    (hk : e.stateKey = some user) (hu : user ≠ []) :
    onNewEvent host e = channelType (.str e.roomId) >>= fun chatType =>
      if chatType = .str channelTypeName then
        call (.background (.onChannelLeave e.roomId user)) else .ret () := by
  have hleave : isMembershipLeave e.type e.content = true := by
    rw [isMembershipLeave, ht]
    rcases hm with hm | hm
    · simp [hm]
    · simp [hm]
  simp [onNewEvent, hleave, hk, hu]

/-- `_on_new_event` of a join. -/
theorem onNewEvent_join {e : Event} {user : UserId} (ht : e.type = py "m.room.member")
    (hm : e.content.get "membership" = .str "join") (hk : e.stateKey = some user)
    (hu : user ≠ []) :
    onNewEvent host e = channelType (.str e.roomId) >>= fun chatType =>
      if chatType = .str discussionChatType then
        if isMine host user then call (.background (.muteForSubscriber user e.roomId)) else .ret ()
      else if chatType = .str channelTypeName then
        call (.background (.onChannelJoin e.roomId user)) else .ret () := by
  have hleave : isMembershipLeave (py "m.room.member") e.content = false := by
    simp [isMembershipLeave, hm]
  simp [onNewEvent, hleave, ht, hm, hk, hu]

/-- The callback of a membership event of the discussion room mutes at most. -/
theorem onNewEvent_discussion {I : World → Prop} {e : Event}
    (hI : ∀ w, I w → w.chatType D ≠ .str channelTypeName) (hr : e.roomId = D)
    (ht : e.type = py "m.room.member") :
    Obeys (answers I)
      (fun _ op => op.quiet = true ∨ ∃ user room, op = .background (.muteForSubscriber user room))
      (fun _ _ => True) [] (onNewEvent host e) := by
  have hquiet : ∀ (_ : List (Done Op Res)) (op : Op), op.quiet = true → op.quiet = true ∨
      ∃ user room, op = .background (.muteForSubscriber user room) := fun _ _ hq => .inl hq
  have hspec : Returns I (fun v => v ≠ .str channelTypeName) (channelType (.str e.roomId)) := by
    rw [hr]
    exact chatType_returns hI
  unfold onNewEvent
  dsimp only
  -- Of the other kinds of events nothing is left.
  simp only [ht, channelDiscussionState, joinRulesState, isRootPost, py_inj, String.reduceEq,
    if_false, decide_false, Bool.false_and, Bool.false_eq_true, true_and]
  split
  · split
    · exact trivial
    · split
      · exact trivial
      · refine hspec.obeys hquiet fun h v hv => ?_
        rw [if_neg hv]
        exact trivial
  · split
    · refine hspec.obeys hquiet fun h v hv => ?_
      split
      · exact trivial
      · rename_i user _
        split
        · split
          · exact obeys_background (.inr ⟨user, e.roomId, rfl⟩)
          · exact trivial
        · rw [if_neg fun h => hv h.1]
          exact trivial
    · exact trivial

/-- The callback of a member's event starts its job. -/
theorem onNewEvent_access {e : Event} {user : UserId} {b : Bool}
    (hserver : (split1 (codePoint ':') user).2.isSome = true)
    (hask : askOf C user (.newEvent e) = some b) :
    onNewEvent host e = channelType (.str C) >>= fun chatType =>
      if chatType = .str channelTypeName then call (.background (accessJob C user b))
      else if chatType = .str discussionChatType ∧ b = true ∧ isMine host user = true then
        call (.background (.muteForSubscriber user C))
      else .ret () := by
  obtain ⟨hr, ht, hk, hb⟩ := askOf_newEvent hask
  have hu := ne_nil_of_server hserver
  rcases hb with ⟨rfl, hm⟩ | ⟨rfl, hm⟩
  · rw [onNewEvent_join ht (get_membership hm) hk hu, hr]
    congr 1
    funext v
    by_cases hd : v = .str discussionChatType
    · subst hd
      simp [discussionChatType, channelTypeName]
    · simp [hd, accessJob]
  · have hm : e.content.get "membership" = .str "leave" ∨
        e.content.get "membership" = .str "ban" :=
      hm.imp get_membership get_membership
    rw [onNewEvent_leave ht hm hk hu, hr]
    simp [accessJob]

theorem onNewEvent_obeys {es : List Ev} {o : ℕ} {e : Event}
    (hj : accessJobs host roles C D es o (.onNewEvent e)) :
    Obeys (answers (Closed roles C D owner)) (fun _ op => accessOps C D owner (.onNewEvent e) op)
      (fun _ _ => True) [] (onNewEvent host e) := by
  rcases hj with ⟨hr, ht⟩ | ⟨-, hmember⟩
  · exact (onNewEvent_discussion (fun w hw => hw.discussion) hr ht).imp
      fun _ _ hop => hop.imp id .inl
  · obtain ⟨user, b, hr, -, hk, hserver, -, hask⟩ := memberEvent_cases hmember
    rw [onNewEvent_access hserver hask]
    refine (chatType_returns (V := fun v => v = .str channelTypeName)
      fun w hw => hw.channel).obeys (fun _ _ hq => .inl hq) ?_
    rintro h _ rfl
    rw [if_pos rfl]
    exact obeys_background (.inr (.inr ⟨user, b, hr, hk, hask, rfl⟩))

theorem onNewEvent_asks {e : Event} {user : UserId} {b : Bool}
    (hserver : (split1 (codePoint ':') user).2.isSome = true)
    (hask : askOf C user (.newEvent e) = some b) :
    Bound (answers (Closed roles C D owner)) (· = .background (accessJob C user b))
      (onNewEvent host e) := by
  rw [onNewEvent_access hserver hask]
  refine (chatType_returns (V := fun v => v = .str channelTypeName)
    fun w hw => hw.channel).bound ?_
  rintro _ rfl
  rw [if_pos rfl]
  exact Bound.call rfl

section Jobs

variable {user : UserId} {h : List (Done Op Res)}

/-- `_on_channel_join`: reads and a mute, and then at most the invite. -/
theorem onChannelJoin_invites {I : World → Prop} (hlink : ∀ w, I w → w.link C = .str D)
    (hcreator : ∀ w, I w → w.creator D = some owner)
    (hserver : (split1 (codePoint ':') user).2.isSome = true) :
    Obeys (answers I) (fun _ op => op.quiet = true ∨
        ∃ hosts, op = .updateRoomMembership owner user (.str D) .invite hosts)
      (fun _ _ => True) h (onChannelJoin host C user) := by
  have hquiet : ∀ (_ : List (Done Op Res)) (op : Op), op.quiet = true → op.quiet = true ∨
      ∃ hosts, op = .updateRoomMembership owner user (.str D) .invite hosts := fun _ _ hq => .inl hq
  obtain ⟨hosts, hhosts⟩ := @remoteHosts_eq Job StoreOp StoreRes host _ hserver
  refine isAi_returns_some.obeys hquiet fun h ai _ => ?_
  split
  · exact trivial
  · refine (discussionRoom_returns hlink).obeys hquiet ?_
    rintro h _ rfl
    rw [if_neg (by simp)]
    refine muteIfLocal_returns.obeys hquiet fun h _ _ => ?_
    refine (channelJoinRule_returns (V := fun _ => True) fun _ _ => trivial).obeys hquiet
      fun h rule _ => ?_
    split
    · exact trivial
    · refine (roomCreator_returns hcreator).obeys hquiet ?_
      rintro h _ rfl
      dsimp only
      rw [hhosts]
      exact obeys_attempt (.inr ⟨hosts, rfl⟩) fun _ => trivial

/-- `_on_channel_join` makes the invite. -/
theorem onChannelJoin_bound (hu : human host roles user = true)
    (hserver : (split1 (codePoint ':') user).2.isSome = true) :
    Bound (answers (Closed roles C D owner))
      (fun op => ∃ hosts, op = .updateRoomMembership owner user (.str D) .invite hosts)
      (onChannelJoin host C user) := by
  obtain ⟨hosts, hhosts⟩ := remoteHosts_eq host hserver
  refine (isAi_returns (fun w hw => hw.roles) hu).bound ?_
  rintro _ rfl
  refine (discussionRoom_returns fun w hw => hw.link).bound ?_
  rintro _ rfl
  rw [if_neg (by simp)]
  refine muteIfLocal_returns.bound fun _ _ => ?_
  refine (channelJoinRule_returns (V := fun r => isPublicChannel r = false)
    fun w hw => hw.closed).bound fun r hr => ?_
  rw [if_neg (by simp [hr])]
  refine (roomCreator_returns fun w hw => hw.creator).bound ?_
  rintro _ rfl
  dsimp only
  rw [hhosts]
  exact bound_attempt ⟨hosts, rfl⟩

/-- `_on_channel_leave`: reads, and then the kick. -/
theorem onChannelLeave_kicks {I : World → Prop} (hlink : ∀ w, I w → w.link C = .str D)
    (hcreator : ∀ w, I w → w.creator D = some owner) :
    Obeys (answers I) (fun _ op => op.quiet = true ∨
        op = .updateRoomMembership owner user (.str D) .leave none)
      (fun _ _ => True) h (onChannelLeave C user) := by
  have hquiet : ∀ (_ : List (Done Op Res)) (op : Op), op.quiet = true → op.quiet = true ∨
      op = .updateRoomMembership owner user (.str D) .leave none := fun _ _ hq => .inl hq
  refine (discussionRoom_returns hlink).obeys hquiet ?_
  rintro h _ rfl
  rw [if_neg (by simp)]
  refine (roomCreator_returns hcreator).obeys hquiet ?_
  rintro h _ rfl
  exact obeys_attempt (.inr rfl) fun _ => trivial

/-- `_on_channel_leave` makes the kick. -/
theorem onChannelLeave_bound :
    Bound (answers (Closed roles C D owner))
      (fun op => ∃ hosts, op = .updateRoomMembership owner user (.str D) .leave hosts)
      (onChannelLeave C user) := by
  refine (discussionRoom_returns fun w hw => hw.link).bound ?_
  rintro _ rfl
  rw [if_neg (by simp)]
  refine (roomCreator_returns fun w hw => hw.creator).bound ?_
  rintro _ rfl
  exact bound_attempt ⟨none, rfl⟩

end Jobs

/-- Membership events leave the pair of rooms as it is. -/
theorem Closed.persist {w w' : World} (hw : Closed roles C D owner w) {e : Event}
    (hr : w'.rooms = w.rooms.persist e) (hroles : w'.roles = w.roles)
    (ht : e.type = py "m.room.member") : Closed roles C D owner w' where
  toLinked := by
    refine hw.toLinked.persist hr ?_ ?_
    · rw [ht]
      decide
    · rw [ht]
      decide
  closed := by
    have := hw.closed
    unfold World.joinRule at this ⊢
    rw [hr, Rooms.persist_state_of_ne]
    · exact this
    · rintro ⟨-, hty, -⟩
      rw [ht] at hty
      revert hty
      decide
  roles := hroles.trans hw.roles

theorem Closed.of_rooms_eq {w w' : World} (hw : Closed roles C D owner w)
    (hr : w'.rooms = w.rooms) (hroles : w'.roles = w.roles) : Closed roles C D owner w' where
  toLinked := hw.toLinked.of_rooms_eq hr
  closed := by
    have := hw.closed
    unfold World.joinRule at this ⊢
    rwa [hr]
  roles := hroles.trans hw.roles

theorem Moves.read {s : State} {i : ℕ} {raises : Bool} {o : ℕ} {j : Job} {op : Op}
    {k : Option (Res op) → Code Unit} (hm : Moves host roles C D s (.step i raises))
    (hi : s.threads[i]? = some ⟨o, j, .await op k⟩) (room : Json) (type : PyStr)
    (ho : op = .stateEvent room type) : (perform channelSync host s.world op raises).2.1.isSome = true := by
  subst ho
  simpa only [Moves, hi] using hm

/-- **What the completion of an await can do:** nothing to the rooms, or it gives or
takes the access that the event it goes back to asks for. -/
theorem access_op {s : State} {i : ℕ} (raises : Bool) {o : ℕ} {j : Job} {op : Op}
    {k : Option (Res op) → Code Unit} (hs : System.Lawful (access host roles C D owner) s)
    (hi : s.threads[i]? = some ⟨o, j, .await op k⟩) :
    (perform channelSync host s.world op raises).1.rooms = s.world.rooms ∨
    ∃ (user : UserId) (b : Bool) (hosts : Option (List PyStr)) (ev : Ev) (e : Event),
      op = .updateRoomMembership owner user (.str D) (accessAction b) hosts ∧
      s.events[o]? = some ev ∧ askOf C user ev = some b ∧
      (perform channelSync host s.world op raises).1.rooms = s.world.rooms.persist e ∧
      (perform channelSync host s.world op raises).2.2 = [.onNewEvent e] ∧
      e.roomId = D ∧ e.type = py "m.room.member" ∧ e.stateKey = some user ∧
      Rooms.membershipOf e.content = some (accessAction b) := by
  have hj : accessJobs host roles C D s.events o j := (hs.jobs _ (List.mem_of_getElem? hi)).2
  have hp : accessOps C D owner j op := (hs.threads i _ hi).1
  -- it does nothing to the rooms, or it is the call that the job makes
  have hkind : (perform channelSync host s.world op raises).1.rooms = s.world.rooms ∨
      ∃ (user : UserId) (b : Bool) (hosts : Option (List PyStr)) (ev : Ev),
        op = .updateRoomMembership owner user (.str D) (accessAction b) hosts ∧
        s.events[o]? = some ev ∧ askOf C user ev = some b := by
    cases j with
    | onNewEvent e =>
        rcases hp with hq | ⟨user, room, rfl⟩ | ⟨user, b, -, -, -, rfl⟩
        · exact .inl (perform_quiet hq).1
        · exact .inl (by rw [perform_background])
        · exact .inl (by rw [perform_background])
    | onChannelJoin c user =>
        rcases hp with hq | ⟨hosts, hop⟩
        · exact .inl (perform_quiet hq).1
        · obtain ⟨ev, hev, hask⟩ := hj.2.2.2
          exact .inr ⟨user, true, hosts, ev, hop, hev, hask⟩
    | onChannelLeave c user =>
        rcases hp with hq | hop
        · exact .inl (perform_quiet hq).1
        · obtain ⟨ev, hev, hask⟩ := hj.2
          exact .inr ⟨user, false, none, ev, hop, hev, hask⟩
    | muteForSubscriber user room => exact .inl (perform_quiet hp).1
    | _ => exact hp.elim
  rcases hkind with hsame | ⟨user, b, hosts, ev, rfl, hev, hask⟩
  · exact .inl hsame
  rcases perform_cases channelSync host s.world
    (.updateRoomMembership owner user (.str D) (accessAction b) hosts) raises
    with ⟨hr, -⟩ | ⟨e, he, hr, hjobs⟩
  · exact .inl hr
  · obtain ⟨hroom, ht, hk, hm, -⟩ := createdEvent_membership he
    exact .inr ⟨user, b, hosts, ev, e, rfl, hev, hask, hr, hjobs, (Json.str.inj hroom).symm, ht,
      hk, hm⟩

/-- The jobs that an await of such a run starts. -/
theorem access_spawn {s : State} {i : ℕ} {raises : Bool} {o : ℕ} {j : Job} {op : Op}
    {k : Option (Res op) → Code Unit} (hs : System.Lawful (access host roles C D owner) s)
    (hi : s.threads[i]? = some ⟨o, j, .await op k⟩) {j' : Job}
    (hj' : j' ∈ (perform channelSync host s.world op raises).2.2) : accessJobs host roles C D s.events o j' := by
  have hj : accessJobs host roles C D s.events o j := (hs.jobs _ (List.mem_of_getElem? hi)).2
  have hp : accessOps C D owner j op := (hs.threads i _ hi).1
  have hquiet : op.quiet = true → accessJobs host roles C D s.events o j' := by
    intro hq
    rw [(perform_quiet hq).2] at hj'
    cases hj'
  have hmember : ∀ user action hosts,
      op = .updateRoomMembership owner user (.str D) action hosts →
      accessJobs host roles C D s.events o j' := by
    rintro user action hosts rfl
    rcases perform_cases channelSync host s.world (.updateRoomMembership owner user (.str D) action hosts)
      raises with ⟨-, hb⟩ | ⟨e, he, -, hjobs⟩
    · cases hb j' hj'
    · rw [hjobs] at hj'
      obtain rfl := List.mem_singleton.1 hj'
      obtain ⟨hroom, ht, -⟩ := createdEvent_membership he
      exact .inl ⟨(Json.str.inj hroom).symm, ht⟩
  cases j with
  | onNewEvent e =>
      rcases hp with hq | ⟨user, room, rfl⟩ | ⟨user, b, hr, hk, hask, rfl⟩
      · exact hquiet hq
      · rw [perform_background] at hj'
        obtain rfl := List.mem_singleton.1 hj'
        exact trivial
      · rw [perform_background] at hj'
        obtain rfl := List.mem_singleton.1 hj'
        rcases hj with ⟨hD, -⟩ | ⟨hev, hmem⟩
        · exact absurd (hr.symm.trans hD) hs.world.ne
        · obtain ⟨user', b', -, -, hk', hserver, hhuman, -⟩ := memberEvent_cases hmem
          obtain rfl := Option.some.inj (hk.symm.trans hk')
          cases b with
          | true => exact ⟨rfl, hhuman, hserver, _, hev, hask⟩
          | false => exact ⟨rfl, _, hev, hask⟩
  | onChannelJoin c user =>
      rcases hp with hq | ⟨hosts, hop⟩
      · exact hquiet hq
      · exact hmember user _ hosts hop
  | onChannelLeave c user =>
      rcases hp with hq | hop
      · exact hquiet hq
      · exact hmember user _ none hop
  | muteForSubscriber user room => exact hquiet hp
  | _ => exact hp.elim

theorem acceptance_cases {w : World} {e : Event} (h : acceptance w D e = true) :
    ∃ user, e.roomId = D ∧ e.type = py "m.room.member" ∧ e.stateKey = some user ∧
      Rooms.membershipOf e.content = some .join ∧ w.rooms.isIn D user = true := by
  simp only [acceptance, Bool.and_eq_true, decide_eq_true_eq] at h
  obtain ⟨⟨⟨hr, ht⟩, hm⟩, hk⟩ := h
  split at hk
  · rename_i user hkey
    refine ⟨user, hr, ht, hkey, ?_, hk⟩
    rw [Rooms.membershipOf, hm]
    rfl
  · cases hk

/-- **The law holds of every run of members coming and going.** -/
theorem access_keeps :
    (system host).Keeps (Moves host roles C D) (access host roles C D owner) where
  code := by
    intro es o j hj
    cases j with
    | onNewEvent e => exact onNewEvent_obeys hj
    | onChannelJoin c user =>
        obtain ⟨rfl, -, hserver, -⟩ := hj
        exact onChannelJoin_invites (fun w hw => hw.link) (fun w hw => hw.creator) hserver
    | onChannelLeave c user =>
        obtain ⟨rfl, -⟩ := hj
        exact onChannelLeave_kicks (fun w hw => hw.link) fun w hw => hw.creator
    | muteForSubscriber user room => exact (muteRoom_returns []).mono fun _ _ _ => trivial
    | _ => exact hj.elim
  later := by
    intro es o j e hj ho
    cases j with
    | onNewEvent e' =>
        rcases hj with hj | ⟨hj, hm⟩
        · exact .inl hj
        · exact .inr ⟨by rw [List.getElem?_append_left ho, hj], hm⟩
    | onChannelJoin c user =>
        obtain ⟨hc, hu, hserver, e', he', hask⟩ := hj
        exact ⟨hc, hu, hserver, e', by rw [List.getElem?_append_left ho, he'], hask⟩
    | onChannelLeave c user =>
        obtain ⟨hc, e', he', hask⟩ := hj
        exact ⟨hc, e', by rw [List.getElem?_append_left ho, he'], hask⟩
    | muteForSubscriber user room => exact trivial
    | _ => exact hj.elim
  event := by
    intro s e hw hc
    cases e with
    | newEvent e =>
        rcases hc with hc | hc
        · obtain ⟨_, _, _, ht, _⟩ := memberEvent_cases hc
          refine ⟨Closed.persist hw rfl rfl ht, fun j hj => ?_⟩
          obtain rfl := List.mem_singleton.1 hj
          exact .inr ⟨by simp, hc⟩
        · obtain ⟨_, hr, ht, _⟩ := acceptance_cases hc
          refine ⟨Closed.persist hw rfl rfl ht, fun j hj => ?_⟩
          obtain rfl := List.mem_singleton.1 hj
          exact .inl ⟨hr, ht⟩
    | _ => exact hc.elim
  op := by
    intro s i raises o j op k hs hc hi hp
    have hroles := perform_roles channelSync host s.world op raises
    refine ⟨?_, answers_perform hs.world (hc.read hi), fun j' hj' => access_spawn hs hi hj'⟩
    rcases access_op raises hs hi with hr | ⟨_, _, _, _, e, -, -, -, hr, -, -, ht, -⟩
    · exact hs.world.of_rooms_eq hr hroles
    · exact hs.world.persist hr hroles ht

end Law

/-! ### Convergence -/

section Convergence

variable {host : PyStr} {roles : UserId → Option Dict} {C D : RoomId} {owner : UserId}
  {w₀ : World} {s t : State} {user : UserId}

theorem accessAction_isIn (b : Bool) : (accessAction b).isIn = b := by
  cases b <;> rfl

/-- The access of a user after an event of the run that does not ask for it. -/
theorem isIn_event {e : Event} (hs : System.Lawful (access host roles C D owner) s)
    (hc : Moves host roles C D s (.event (.newEvent e))) :
    (s.world.persist e).rooms.isIn D user = s.world.rooms.isIn D user := by
  change (s.world.rooms.persist e).isIn D user = _
  rcases hc with hc | hc
  · obtain ⟨_, _, hr, -⟩ := memberEvent_cases hc
    exact Rooms.persist_isIn_of_ne _ _ _ _ fun h => hs.world.ne (hr.symm.trans h)
  · obtain ⟨user', hr, ht, hk, hm, hin⟩ := acceptance_cases hc
    rw [← hr, Rooms.persist_isIn _ _ _ _ hk ht hm]
    split
    · rename_i hu
      rw [hu, hr, hin]
      rfl
    · rfl

/-- The membership call of a run in question leaves its target with the access it
is meant to give. -/
theorem isIn_call {i : ℕ} {raises : Bool} {o : ℕ} {j : Job} {b : Bool}
    {hosts : Option (List PyStr)} {k : Option Unit → Code Unit}
    (hc : Moves host roles C D s (.step i raises))
    (hi : s.threads[i]? = some
      ⟨o, j, .await (.updateRoomMembership owner user (.str D) (accessAction b) hosts) k⟩) :
    (perform channelSync host s.world (.updateRoomMembership owner user (.str D) (accessAction b) hosts)
      raises).1.rooms.isIn D user = b := by
  cases hans : (perform channelSync host s.world
      (.updateRoomMembership owner user (.str D) (accessAction b) hosts) raises).2.1 with
  | none =>
      simp only [Moves, hi] at hc
      rw [perform_rooms_of_none hans, hc hans]
      cases b <;> rfl
  | some a =>
      have hsome : (perform channelSync host s.world
          (.updateRoomMembership owner user (.str D) (accessAction b) hosts)
          raises).2.1.isSome = true := by rw [hans]; rfl
      obtain ⟨e, he⟩ := created_of_isSome (.inr ⟨_, _, _, _, _, rfl⟩) hsome
      obtain ⟨hroom, ht, hk, hm, -⟩ := createdEvent_membership he
      rw [(perform_of_created he hsome).1, Json.str.inj hroom, Rooms.persist_isIn _ _ _ _ hk ht hm,
        if_pos rfl, accessAction_isIn]

/-- **The last event of a user wins.** -/
theorem access_settles (user : UserId) :
    (system host).Settles (fun s a => Moves host roles C D s a ∧ InTurn s a)
      (access host roles C D owner) (askOf C user)
      (fun b op => op = .background (accessJob C user b) ∧ human host roles user = true ∧
        (split1 (codePoint ':') user).2.isSome = true)
      (fun b op => ∃ hosts, op = .updateRoomMembership owner user (.str D) (accessAction b) hosts)
      (fun b w => w.rooms.isIn D user = b) where
  drops := by
    rintro s e ⟨hc, -⟩
    cases e with
    | newEvent e => rfl
    | _ => exact hc.elim
  asked := by
    rintro s e b hs ⟨hc, -⟩ hask
    cases e with
    | newEvent e =>
        refine ⟨.onNewEvent e, List.mem_singleton_self _, ?_⟩
        obtain ⟨hr, -, hk, -⟩ := askOf_newEvent hask
        rcases hc with hc | hc
        · obtain ⟨user', b', -, -, hk', hserver, hhuman, -⟩ := memberEvent_cases hc
          obtain rfl := Option.some.inj (hk.symm.trans hk')
          simp only [hserver, hhuman, and_self, and_true]
          exact onNewEvent_asks hserver hask
        · obtain ⟨_, hD, -⟩ := acceptance_cases hc
          exact absurd (hr.symm.trans hD) hs.world.ne
    | _ => exact hc.elim
  started := by
    rintro s i raises o j _ kont b hs - - ⟨rfl, hhuman, hserver⟩
    refine ⟨accessJob C user b, ?_, ?_⟩
    · change _ ∈ (perform channelSync host s.world _ raises).2.2
      rw [perform_background]
      exact List.mem_singleton_self _
    · cases b with
      | true => exact onChannelJoin_bound hhuman hserver
      | false => exact onChannelLeave_bound
  acted := by
    rintro s i raises o j _ kont b - ⟨hc, -⟩ hi ⟨hosts, rfl⟩
    exact isIn_call hc hi
  event := by
    rintro s e b hs ⟨hc, -⟩ - hgood
    cases e with
    | newEvent e => exact (isIn_event hs hc).trans hgood
    | _ => exact hc.elim
  op := by
    rintro s i raises o j op kont n b hs ⟨hc, ho⟩ hi hl ⟨e, he, heo, hosts, heop⟩ hgood
    rcases access_op raises hs hi with hr | ⟨user', b', hosts', ev, e', rfl, hev, hask,
      hr, -, hroom, ht, hk, hm⟩
    · change (perform channelSync host s.world op raises).1.rooms.isIn D user = b
      rw [hr, hgood]
    · change (perform channelSync host s.world _ raises).1.rooms.isIn D user = b
      by_cases hu : user = user'
      · subst hu
        have hbb : b' = b := by
          rcases Nat.lt_or_ge o n with hlt | hge
          · -- an older call: it is of the same kind as the one that stands
            simp only [InTurn, hi] at ho
            have hagree := ho e he (by omega)
            rw [heop] at hagree
            have hagree : accessAction b = accessAction b' := hagree rfl rfl
            revert hagree
            cases b <;> cases b' <;> decide
          · obtain rfl : o = n := Nat.le_antisymm (hl.le hev hask) hge
            exact hl.value_eq hev hask
        rw [← hbb]
        exact isIn_call hc hi
      · rw [hr, ← hroom, Rooms.persist_isIn _ _ _ _ hk ht hm, if_neg hu, hroom, hgood]

/-- The membership of a user in the channel is what its last event there asked
for, and where there was none nothing has changed. -/
structure Tracking (C D : RoomId) (user : UserId) (w₀ : World) (s : State) : Prop where
  current : ∀ n b, Latest (askOf C user) s.events n b →
    b = true ∧ s.world.rooms.membership C user = some .join ∨
      b = false ∧ (s.world.rooms.membership C user = some .leave ∨
        s.world.rooms.membership C user = some .ban)
  untouched : (∀ e ∈ s.events, askOf C user e = none) →
    s.world.rooms.membership C user = w₀.rooms.membership C user ∧
      s.world.rooms.isIn D user = w₀.rooms.isIn D user

/-- The membership of a user in the channel after an event that does not ask for
anything for them. -/
theorem membership_event {e : Event} (hs : System.Lawful (access host roles C D owner) s)
    (hc : Moves host roles C D s (.event (.newEvent e)))
    (hask : askOf C user (.newEvent e) = none) :
    (s.world.persist e).rooms.membership C user = s.world.rooms.membership C user := by
  change (s.world.rooms.persist e).membership C user = _
  refine Rooms.persist_membership_of_ne _ _ _ _ ?_
  rintro ⟨hr, -, hk⟩
  rcases hc with hc | hc
  · obtain ⟨user', b, -, -, hk', -, -, hask'⟩ := memberEvent_cases hc
    obtain rfl := Option.some.inj (hk.symm.trans hk')
    rw [hask] at hask'
    cases hask'
  · obtain ⟨_, hD, -⟩ := acceptance_cases hc
    exact hs.world.ne (hr.symm.trans hD)

theorem tracking_event {e : Event} (hs : System.Lawful (access host roles C D owner) s)
    (hv : Tracking C D user w₀ s) (hc : Moves host roles C D s (.event (.newEvent e)))
    (h : (system host).step s (.event (.newEvent e)) = some t) : Tracking C D user w₀ t := by
  obtain rfl := Option.some.inj h
  refine ⟨fun n b hl => ?_, fun hnone => ?_⟩
  · change b = true ∧ (s.world.persist e).rooms.membership C user = some .join ∨
      b = false ∧ ((s.world.persist e).rooms.membership C user = some .leave ∨
        (s.world.persist e).rooms.membership C user = some .ban)
    cases hask : askOf C user (.newEvent e) with
    | some b' =>
        obtain ⟨-, rfl⟩ := latest_append_some hask hl
        obtain ⟨hr, ht, hk, hm⟩ := askOf_newEvent hask
        have hset : ∀ m, Rooms.membershipOf e.content = some m →
            (s.world.persist e).rooms.membership C user = some m := by
          intro m hm
          rw [← hr]
          exact Rooms.persist_membership_self _ _ _ hk ht hm
        rcases hm with ⟨hb, hm⟩ | ⟨hb, hm⟩
        · exact .inl ⟨hb, hset _ hm⟩
        · exact .inr ⟨hb, hm.imp (hset _) (hset _)⟩
    | none =>
        rw [membership_event hs hc hask]
        exact hv.current n b (latest_append_none hask hl)
  · have hask : askOf C user (.newEvent e) = none := hnone _ (List.mem_append.2 (.inr (by simp)))
    obtain ⟨hm, hin⟩ := hv.untouched fun e' he' => hnone e' (List.mem_append.2 (.inl he'))
    exact ⟨(membership_event hs hc hask).trans hm, (isIn_event hs hc).trans hin⟩

theorem tracking_op {i : ℕ} {raises : Bool} (hs : System.Lawful (access host roles C D owner) s)
    (hv : Tracking C D user w₀ s) (h : (system host).step s (.step i raises) = some t) :
    Tracking C D user w₀ t := by
  obtain ⟨_, hm, -⟩ | ⟨i', c', o, j, op, kont, hm, hi, rfl⟩ := System.step_cases h
  · cases hm
  obtain ⟨rfl, rfl⟩ := Move.step.inj hm
  have hmem : (perform channelSync host s.world op raises).1.rooms.membership C user =
      s.world.rooms.membership C user := by
    rcases access_op raises hs hi with hr | ⟨_, _, _, _, e, -, -, -, hr, -, hroom, -⟩
    · rw [hr]
    · rw [hr]
      refine Rooms.persist_membership_of_ne _ _ _ _ ?_
      exact fun h => hs.world.ne (h.1.symm.trans hroom)
  refine ⟨fun n b hl => ?_, fun hnone => ?_⟩
  · have := hv.current n b hl
    rw [← hmem] at this
    exact this
  · obtain ⟨hm₀, hin⟩ := hv.untouched hnone
    refine ⟨hmem.trans hm₀, ?_⟩
    change (perform channelSync host s.world op raises).1.rooms.isIn D user = _
    rw [← hin]
    rcases access_op raises hs hi with hr | ⟨user', b', _, ev, e, -, hev, hask, hr, -,
      hroom, ht, hk, hm⟩
    · rw [hr]
    · have hu : user ≠ user' := by
        rintro rfl
        rw [hnone ev (List.mem_of_getElem? hev)] at hask
        cases hask
      rw [hr, ← hroom, Rooms.persist_isIn _ _ _ _ hk ht hm, if_neg hu]

/-- The channel is tracked along every run. -/
theorem tracking {as : List Act} (hw : Closed roles C D owner w₀)
    (h : Exec (system host).step (fun s a => Moves host roles C D s a ∧ InTurn s a) (start w₀) as
      s) : Tracking C D user w₀ s := by
  have hinv : System.Lawful (access host roles C D owner) s ∧ Tracking C D user w₀ s := by
    refine h.invariant (I := fun s => System.Lawful (access host roles C D owner) s ∧
      Tracking C D user w₀ s) ⟨System.lawful_start hw, ?_, fun _ => ⟨rfl, rfl⟩⟩ ?_
    · rintro n b ⟨⟨e, he, -⟩, -⟩
      cases he
    · rintro s a t ⟨hs, hv⟩ ⟨hc, -⟩ hstep
      refine ⟨access_keeps.lawful_step hs hc hstep, ?_⟩
      cases a with
      | event e =>
          cases e with
          | newEvent e => exact tracking_event hs hv hc hstep
          | _ => exact hc.elim
      | step i raises => exact tracking_op hs hv hstep
  exact hinv.2

/-- **Access follows membership.**  In every run of human members joining and
leaving a closed channel, or being banned from it, that is in turn, when all jobs
have ended every user's access to the discussion room is that of their current
membership in the channel; it was so at the start, or the user had an event. -/
theorem access_follows {as : List Act} (hw : Closed roles C D owner w₀)
    (h : Exec (system host).step (fun s a => Moves host roles C D s a ∧ InTurn s a) (start w₀) as
      s) (hidle : System.Idle s) (user : UserId)
    (h₀ : w₀.AccessFollows C D user ∨ ∃ e ∈ s.events, askOf C user e ≠ none) :
    s.world.AccessFollows C D user := by
  have htrack : Tracking C D user w₀ s := tracking hw h
  by_cases hask : ∃ e ∈ s.events, askOf C user e ≠ none
  · obtain ⟨n, b, hl⟩ := exists_latest hask
    have hin : s.world.rooms.isIn D user = b :=
      (access_settles user).good_of_idle (access_keeps.mono fun _ _ hc => hc.1) hw h hidle hl
    unfold World.AccessFollows
    rcases htrack.current n b hl with ⟨rfl, hm⟩ | ⟨rfl, hm⟩
    · rw [hm, hin]
      simp
    · refine ⟨fun hj => ?_, fun _ => hin⟩
      rcases hm with hm | hm
      · rw [hm] at hj
        cases hj
      · rw [hm] at hj
        cases hj
  · have hnone : ∀ e ∈ s.events, askOf C user e = none := by
      intro e he
      by_contra hne
      exact hask ⟨e, he, hne⟩
    obtain ⟨hm, hin⟩ := htrack.untouched hnone
    unfold World.AccessFollows
    rw [hm, hin]
    exact h₀.resolve_right hask

end Convergence

/-! ### In turn and out of turn -/

/-- A closed channel `!c` of `@ann:h` with its discussion room `!d`. -/
def accessWorld : World :=
  worldOf
    [("!c", createState, ⟨"@ann:h", [(chatTypeKey, .str channelTypeName)]⟩),
      ("!c", channelDiscussionState, ⟨"@ann:h", [("room_id", .str "!d")]⟩),
      ("!c", joinRulesState, ⟨"@ann:h", [("join_rule", .str "invite")]⟩),
      ("!d", createState, ⟨"@ann:h", [(chatTypeKey, .str discussionChatType)]⟩)]
    [("!c", "@ann:h", .join), ("!d", "@ann:h", .join)]

theorem accessWorld_closed : Closed (fun _ => none) "!c" "!d" "@ann:h" accessWorld where
  channel := by decide
  link := by decide
  creator := by decide
  discussion := by decide
  closed := by decide
  roles := rfl

/-- A membership event of a user in the channel. -/
def comesOrGoes (id user membership : PyStr) : Act :=
  .event (.newEvent ⟨id, "m.room.member", "!c", user, some user,
    [("membership", .str membership)], none⟩)

/-- `@bob:h` joins and leaves, and his invite runs before his kick. -/
def invitedThenKicked : List Act :=
  [comesOrGoes "$1" "@bob:h" "join", comesOrGoes "$2" "@bob:h" "leave"] ++
    List.replicate 2 (.step 0 false : Act) ++ List.replicate 2 (.step 1 false : Act) ++
    List.replicate 7 (.step 2 false : Act) ++ List.replicate 3 (.step 3 false : Act) ++ [(.step 5 false : Act)]

/-- The same with the kick first. -/
def kickedThenInvited : List Act :=
  [comesOrGoes "$1" "@bob:h" "join", comesOrGoes "$2" "@bob:h" "leave"] ++
    List.replicate 2 (.step 0 false : Act) ++ List.replicate 2 (.step 1 false : Act) ++
    List.replicate 3 (.step 3 false : Act) ++ List.replicate 7 (.step 2 false : Act) ++ [(.step 4 false : Act)]

/-- In turn the access is taken away again. -/
theorem access_follows_in_turn :
    ∃ s, Exec (system "h").step
        (fun s a => Moves "h" (fun _ => none) "!c" "!d" s a ∧ InTurn s a) (start accessWorld)
        invitedThenKicked s ∧ System.Idle s ∧ s.world.AccessFollows "!c" "!d" "@bob:h" := by
  obtain ⟨s, hs, hidle⟩ := exists_exec_of_runs (f := (system "h").step)
    (C := fun s a => Moves "h" (fun _ => none) "!c" "!d" s a ∧ InTurn s a)
    (s := start accessWorld) (l := invitedThenKicked) (p := System.Idle) (by decide +kernel)
  exact ⟨s, hs, hidle, access_follows accessWorld_closed hs hidle "@bob:h" (.inl (by decide))⟩

/-- **An invite that outlives its kick:** no membership call fails, and at the end
of all jobs `@bob:h`, who has left the channel, is invited to its discussion. -/
theorem late_invite_stands :
    Closed (fun _ => none) "!c" "!d" "@ann:h" accessWorld ∧
    accessWorld.AccessFollows "!c" "!d" "@bob:h" ∧
    ∃ s, Exec (system "h").step (Moves "h" (fun _ => none) "!c" "!d") (start accessWorld)
        kickedThenInvited s ∧ System.Idle s ∧ ¬s.world.AccessFollows "!c" "!d" "@bob:h" ∧
      s.world.rooms.membership "!c" "@bob:h" = some .leave ∧
      s.world.rooms.membership "!d" "@bob:h" = some .invite :=
  ⟨accessWorld_closed, by decide, exists_exec_of_runs (by decide +kernel)⟩

end ChannelSync
end Liza
