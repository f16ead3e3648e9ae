/-
# The audience of a channel's stories follows the membership of the channel, in the end

A join in the channel starts `_add_member`, a leave or a ban `_remove_member`; the creation of the
stories room starts `_on_room_create`, which writes the mapping and then invites who is in the list
of the members it reads.  Each of these jobs reads the mapping by itself, and nothing orders them:
an invite of the pass over the list may land after the kick of a user who has left meanwhile
(`late_invite_of_backfill`).

A run is in turn if no call puts a user at odds with their membership in the channel unless the
opposite call for that user is still to come, and if no job that is to remove a user finds the
mapping missing while that user is in the room, as only its creator can be (`InTurn`).  In such a
run, with membership calls that fail only where they would change nothing, the members of the
channel are in the stories room or invited to it when all jobs have ended, and nobody is who has
left the channel or was banned (`stories_follow`).
-/

import Liza.ChannelStories.Mapping
import Liza.ChannelSync.Access

set_option autoImplicit false

namespace Liza
namespace ChannelStories

open Lib Synapse
open Lib.Task (Obeys Bound forEach)
open Lib.System (Due)
open ChannelSync (askOf memberEvent accessAction)

/-! ### The runs in question -/

/-- The user has left the channel, or was banned from it. -/
def World.hasLeft (w : World) (C : RoomId) (user : UserId) : Bool :=
  w.rooms.membership C user = some .leave || w.rooms.membership C user = some .ban

/-- The creation of `R` as the stories room of the channel `C`. -/
def creation (frozen : Freezes) (C R : RoomId) (e : Event) : Bool :=
  e.type = createState && e.roomId = R && e.stateKey = some [] &&
    claimedChannel (frozen e.eventId) e.content = some (.str C) &&
        e.content.get chatTypeKey ≠ .str channelTypeName

/-- Such a creation arrives. -/
def creates (frozen : Freezes) (C R : RoomId) : Ev → Bool
  | .newEvent e => creation frozen C R e
  | _ => false

/-- The creator joins the new stories room, or a user who is in it or invited to it joins it. -/
def comesIn (w : World) (R : RoomId) (e : Event) : Bool :=
  e.roomId = R && e.type = py "m.room.member" && e.content.get "membership" = .str "join" &&
    match e.stateKey with
    | some user => w.rooms.isIn R user ||
        (w.creator R = some user && w.rooms.membership R user = none)
    | none => false

/-- The reads of the state and of the tables. -/
def reads : Op → Bool
  | .stateEvent _ _ => true
  | .usersInRoom _ _ => true
  | .own _ => true
  | _ => false

/-- The moves of the runs in question: human members come and go in the channel, the stories room
is created once, who is invited to it joins it, reads succeed, and a membership call fails only
where the target is in the room already, respectively not in it. -/
def Moves (frozen : Freezes) (host : PyStr) (roles : UserId → Option Dict) (C R : RoomId)
    (s : State) : Act → Prop
  | .event (.newEvent e) => memberEvent host roles C e = true ∨ comesIn s.world R e = true ∨
      creation frozen C R e = true ∧ s.world.creator R = none
  | .event _ => False
  | .step i raises =>
      match s.threads[i]? with
      | some ⟨_, _, .await (.updateRoomMembership sender target room action hosts) _⟩ =>
          (perform (channelStories frozen) host s.world
              (.updateRoomMembership sender target room action hosts) raises).2.1 = none →
            s.world.rooms.isIn R target = decide (action = .invite)
      | some ⟨_, _, .await op _⟩ =>
          reads op = true →
            (perform (channelStories frozen) host s.world op raises).2.1.isSome = true
      | _ => True

/-- The job that a join (`true`), or a leave or ban, of a user starts. -/
def memberJob (C : RoomId) (user : UserId) (b : Bool) : Job :=
  if b then .addMember C user else .removeMember C user

/-- What is known of the channel. -/
structure Known (roles : UserId → Option Dict) (C : RoomId) (w : World) : Prop where
  roles : w.roles = roles
  channel : w.chatType C = .str channelTypeName

/-- The answers once the mapping is there, as long as the reads succeed and `user` is in the
channel. -/
def Found (roles : UserId → Option Dict) (C R : RoomId) (user : UserId) :
    (op : Op) → Option (Res op) → Prop
  | .own (.getStoriesRoom _), r => r = some (some R)
  | .own _, r => r.isSome = true
  | .usersInRoom _ _, r => ∃ members, r = some members ∧ user ∈ members ∧
      ∀ member ∈ members, (split1 (codePoint ':') member).2.isSome = true
  | .stateEvent room type, r => answers (Known roles C) (.stateEvent room type : Op) r ∧
      (room = .str R → type = createState → r ≠ some none)
  | op, r => answers (Known roles C) op r

/-- The call that brings a user into the stories room, or takes them out of it, or the start of the
job that makes it. -/
def serves (C R : RoomId) (user : UserId) (b : Bool) (op : Op) : Prop :=
  op = .background (memberJob C user b) ∨
    ∃ sender hosts, op = .updateRoomMembership sender user (.str R) (accessAction b) hosts

/-- The jobs that take a user out of the stories room. -/
def removes (C : RoomId) (user : UserId) (job : Job) : Prop :=
  job = .removeMember C user ∨
    ∃ e, job = .onNewEvent e ∧ askOf C user (.newEvent e) = some false

/-- An invite of the user, or a kick, is still to come. -/
def StillTo (roles : UserId → Option Dict) (C R : RoomId) (user : UserId) (b : Bool) (s : State) :
    Prop :=
  Due (fun job => b = false → removes C user job) (Found roles C R user) (serves C R user b) s

/-- The user whom a move puts at odds with their membership in the channel, and the call that would
set it right: one who has left comes into the stories room or is invited to it, or a member is taken
out of it. -/
def against (C R : RoomId) (s : State) : Act → Option (UserId × Bool)
  | .event (.newEvent e) =>
      if e.roomId = R ∧ e.type = py "m.room.member" then
        e.stateKey.bind fun user =>
          if s.world.hasLeft C user ∧ s.world.rooms.isIn R user = false then some (user, false)
          else none
      else none
  | .event _ => none
  | .step i _ =>
      match s.threads[i]? with
      | some ⟨_, _, .await (.updateRoomMembership _ user _ action _) _⟩ =>
          if action = .invite then
            if s.world.hasLeft C user then some (user, false) else none
          else if s.world.rooms.membership C user = some .join then some (user, true) else none
      | _ => none

/-- The user whom a job is to remove that looks up the mapping in this move. -/
def looksUp (s : State) : Act → Option UserId
  | .event _ => none
  | .step i _ =>
      match s.threads[i]? with
      | some ⟨_, .removeMember _ user, .await (.own (.getStoriesRoom _)) _⟩ => some user
      | _ => none

/-- A move puts a user at odds with their membership only while the opposite call is still to come,
and `_remove_member` finds no mapping only where there is nothing to remove. -/
structure InTurn (roles : UserId → Option Dict) (C R : RoomId) (s : State) (a : Act) : Prop where
  calls : ∀ user b, against C R s a = some (user, b) → StillTo roles C R user b s
  lookups : ∀ user, looksUp s a = some user → s.world.store.room C = none →
    s.world.rooms.isIn R user = false

/-- Who is in the channel is in the stories room or invited to it, and who has left the channel or
was banned is not. -/
def World.StoriesFollow (w : World) (C R : RoomId) (user : UserId) : Prop :=
  (w.rooms.membership C user = some .join → w.rooms.isIn R user = true) ∧
    (w.hasLeft C user = true → w.rooms.isIn R user = false)

instance decidableMoves (frozen : Freezes) (host : PyStr) (roles : UserId → Option Dict)
    (C R : RoomId) (s : State)
    (a : Act) : Decidable (Moves frozen host roles C R s a) := by
  unfold Moves
  split
  · infer_instance
  · infer_instance
  · split <;> infer_instance

instance decidableStoriesFollow (w : World) (C R : RoomId) (user : UserId) :
    Decidable (w.StoriesFollow C R user) := by
  unfold World.StoriesFollow
  infer_instance

/-! ### What the jobs are bound to do -/

section Bound

variable {frozen : Freezes} {host : PyStr} {roles : UserId → Option Dict} {C R : RoomId}
  {user member : UserId}
  {h : List (Done Op Res)}

theorem answers_of_found {op : Op} {r : Option (Res op)} (h : Found roles C R user op r) :
    answers (Known roles C) op r := by
  cases op with
  | stateEvent room type => exact h.1
  | userRole user => exact h
  | _ => exact trivial

/-- With such answers the task returns a value with the property `V`. -/
def Reads {α : Type} (roles : UserId → Option Dict) (C R : RoomId) (user : UserId) (V : α → Prop)
    (t : Code α) : Prop :=
  ∀ h, Obeys (Found roles C R user) (fun _ _ => True) (fun _ r => ∃ a, r = some a ∧ V a) h t

theorem Reads.of_returns {α : Type} {V : α → Prop} {t : Code α}
    (ht : Returns (Known roles C) V t) : Reads roles C R user V t :=
  fun h => ((ht h).weaken fun _ _ => answers_of_found).imp fun _ _ _ => trivial

/-- A read followed by the rest, which is bound to act. -/
theorem Reads.bound {α β : Type} {V : α → Prop} {t : Code α} {f : α → Code β} {G : Op → Prop}
    (ht : Reads roles C R user V t) (hf : ∀ a, V a → Bound (Found roles C R user) G (f a)) :
    Bound (Found roles C R user) G (t >>= f) :=
  Bound.bind_right (ht []) hf

/-- A read followed by the rest, which returns. -/
theorem Reads.bind {α β : Type} {V : α → Prop} {V' : β → Prop} {t : Code α} {f : α → Code β}
    (ht : Reads roles C R user V t) (hf : ∀ a, V a → Reads roles C R user V' (f a)) :
    Reads roles C R user V' (t >>= f) := by
  refine fun h => (ht h).bind ?_ ?_
  · rintro h a ⟨b, hb, hv⟩
    obtain rfl := Option.some.inj hb
    exact hf a hv h
  · rintro h ⟨b, hb, -⟩
    cases hb

/-- An operation followed by the rest. -/
theorem bound_call {β : Type} {op : Op} {f : Res op → Code β} {G : Op → Prop}
    (hf : ∀ r, Found roles C R user op r → ∃ a, r = some a ∧ Bound (Found roles C R user) G (f a)) :
    Bound (Found roles C R user) G (call op >>= f) := by
  refine .inr fun r hr => ?_
  obtain ⟨a, rfl, ha⟩ := hf r hr
  exact ha

theorem reads_attempt {α : Type} (t : Code α) :
    Reads roles C R user (fun _ => True) (attempt t : Code Unit) :=
  fun _ => Obeys.orElse (Q := fun _ _ => True) (Obeys.any _ _) (fun _ a _ => ⟨a, rfl, trivial⟩)
    fun _ _ => ⟨(), rfl, trivial⟩

/-- The creator of the stories room is found. -/
theorem reads_creator :
    Reads roles C R user (fun owner => owner.isSome = true) (roomCreator (.str R)) := by
  refine fun h => ⟨trivial, fun r hr => ?_⟩
  obtain ⟨⟨w, -, rfl⟩, hsome⟩ := hr
  refine ⟨_, rfl, ?_⟩
  show (Option.map _ _).isSome = true
  rw [Option.isSome_map]
  exact Option.ne_none_iff_isSome.1 fun hnone => hsome rfl rfl (congrArg some hnone)

/-- `_add_member` invites. -/
theorem addMember_bound (hhuman : human host roles user = true)
    (hserver : (split1 (codePoint ':') user).2.isSome = true) :
    Bound (Found roles C R user) (serves C R user true) (addMember host (.str C) user) := by
  obtain ⟨hosts, hhosts⟩ := @remoteHosts_eq Job StoreOp StoreRes host _ hserver
  refine (Reads.of_returns (isAi_returns (fun w hw => hw.roles) hhuman)).bound ?_
  rintro _ rfl
  refine bound_call fun r hr => ⟨some R, hr, ?_⟩
  refine reads_creator.bound fun owner howner => ?_
  obtain ⟨owner, rfl⟩ := Option.isSome_iff_exists.1 howner
  refine (Reads.of_returns muteIfLocal_returns).bound fun _ _ => ?_
  rw [hhosts]
  exact (Bound.bind_left (Bound.call (.inr ⟨owner, hosts, rfl⟩))).orElse

/-- `_remove_member` kicks. -/
theorem removeMember_bound :
    Bound (Found roles C R user) (serves C R user false) (removeMember (.str C) user) := by
  refine bound_call fun r hr => ⟨some R, hr, ?_⟩
  refine reads_creator.bound fun owner howner => ?_
  obtain ⟨owner, rfl⟩ := Option.isSome_iff_exists.1 howner
  exact (Bound.bind_left (Bound.call (.inr ⟨owner, none, rfl⟩))).orElse

/-- `_add_member` returns, whoever the member is. -/
theorem reads_addMember (hserver : (split1 (codePoint ':') member).2.isSome = true) :
    Reads roles C R user (fun _ => True) (addMember host (.str C) member) := by
  obtain ⟨hosts, hhosts⟩ := @remoteHosts_eq Job StoreOp StoreRes host _ hserver
  refine (Reads.of_returns isAi_returns_some).bind fun ai _ => ?_
  split
  · exact fun _ => ⟨(), rfl, trivial⟩
  · refine fun h => Obeys.call_bind trivial (fun room hroom => ?_) fun hroom => by cases hroom
    obtain rfl : room = some R := Option.some.inj hroom
    refine reads_creator.bind (fun owner howner => ?_) _
    obtain ⟨owner, rfl⟩ := Option.isSome_iff_exists.1 howner
    refine (Reads.of_returns muteIfLocal_returns).bind fun _ _ => ?_
    rw [hhosts]
    exact reads_attempt _

/-- The pass over the list of the members invites everybody in it. -/
theorem forEach_bound {members : List UserId} (hmem : user ∈ members)
    (hhuman : human host roles user = true)
    (hservers : ∀ member ∈ members, (split1 (codePoint ':') member).2.isSome = true) :
    Bound (Found roles C R user) (serves C R user true)
      (forEach (addMember host (.str C)) members) := by
  induction members with
  | nil => cases hmem
  | cons member members ih =>
      by_cases huser : user = member
      · subst huser
        exact Bound.bind_left (addMember_bound hhuman (hservers user List.mem_cons_self))
      · refine (reads_addMember (hservers member List.mem_cons_self)).bound fun _ _ => ?_
        exact ih (List.mem_of_ne_of_mem huser hmem)
          fun v hv => hservers v (List.mem_cons_of_mem _ hv)

/-- The callback of a member's event. -/
theorem onNewEvent_member {e : Event} {b : Bool} (hask : askOf C user (.newEvent e) = some b) :
    onNewEvent frozen e = chatType (.str C) >>= fun chatType =>
      if chatType = .str channelTypeName then call (.background (memberJob C user b))
      else .ret () := by
  obtain ⟨hroom, ht, hkey, hb⟩ := ChannelSync.askOf_newEvent hask
  have htype : e.type ≠ createState := by
    rw [ht]
    decide
  -- the kind of the event
  have hkind : (isChannelJoin e.type e.content || isChannelLeave e.type e.content) = true ∧
      isChannelJoin e.type e.content = b := by
    rw [isChannelJoin, isChannelLeave, ht]
    rcases hb with ⟨rfl, hm⟩ | ⟨rfl, hm | hm⟩ <;> rw [ChannelSync.get_membership hm] <;> decide
  unfold onNewEvent
  rw [if_neg htype, if_pos hkind.1, hroom, hkey, hkind.2]
  cases b <;> rfl

/-- The callback of a member's event starts its job. -/
theorem onNewEvent_bound {e : Event} {b : Bool} (hask : askOf C user (.newEvent e) = some b) :
    Bound (Found roles C R user) (serves C R user b) (onNewEvent frozen e) := by
  rw [onNewEvent_member hask]
  refine (Reads.of_returns (chatType_returns (V := fun v => v = .str channelTypeName)
    fun w hw => hw.channel)).bound ?_
  rintro _ rfl
  rw [if_pos rfl]
  exact Bound.call (.inl rfl)

/-- The job of a member's event makes its call. -/
theorem memberJob_bound {b : Bool} (hjoin : b = true → human host roles user = true ∧
      (split1 (codePoint ':') user).2.isSome = true) :
    Bound (Found roles C R user) (serves C R user b) (code frozen host (memberJob C user b)) := by
  cases b with
  | true => exact addMember_bound (hjoin rfl).1 (hjoin rfl).2
  | false => exact removeMember_bound

end Bound

/-! ### The law of the runs -/

section Law

variable (frozen : Freezes) (host : PyStr) (roles : UserId → Option Dict) (C R : RoomId)

/-- A channel and its stories room, whose mapping may be there or not; the roles of the users are
fixed. -/
structure Ready (w : World) : Prop where
  ne : R ≠ C
  channel : w.chatType C = .str channelTypeName
  other : w.chatType R ≠ .str channelTypeName
  roles : w.roles = roles
  servers : ∀ p ∈ w.rooms.members C, (split1 (codePoint ':') p.1).2.isSome = true
  room : w.store.room C = none ∨ w.store.room C = some R

/-- The jobs of such a run. -/
def storiesJobs (es : List Ev) : Job → Prop
  | .onNewEvent e => e.roomId = R ∧ e.type = py "m.room.member" ∨
      memberEvent host roles C e = true ∨ .newEvent e ∈ es ∧ creation frozen C R e = true
  | .onRoomCreate room content fr => room = R ∧ claimedChannel fr content = some (.str C) ∧
      ∃ e, .newEvent e ∈ es ∧ creation frozen C R e = true
  | .addMember c user => c = C ∧ human host roles user = true ∧
      (split1 (codePoint ':') user).2.isSome = true
  | .removeMember c _ => c = C
  | .ensureSchema => False

/-- The reads of a job about the channel. -/
def looks : Op → Prop
  | .own (.getStoriesRoom c) => c = .str C
  | .own _ => False
  | .usersInRoom _ _ => False
  | op => op.quiet = true

/-- What the jobs do: they read and mute, the callback starts the job of its event, the job of a new
room writes the mapping and invites, and the other two make the call for their user. -/
def storiesOps : Job → Op → Prop
  | .onNewEvent e, op => (∃ type, op = .stateEvent (.str e.roomId) type) ∨
      (∃ user b, askOf C user (.newEvent e) = some b ∧ op = .background (memberJob C user b)) ∨
      creation frozen C R e = true ∧ op = .background (.onRoomCreate R e.content (frozen e.eventId))
  | .onRoomCreate _ _ _, op => looks C op ∨ op = .usersInRoom (.str C) .join ∨
      op = .own (.putStoriesRoom (.str C) R) ∨
      ∃ sender user hosts, op = .updateRoomMembership sender user (.str R) .invite hosts
  | .addMember _ user, op => looks C op ∨
      ∃ sender hosts, op = .updateRoomMembership sender user (.str R) .invite hosts
  | .removeMember _ user, op => looks C op ∨
      ∃ sender hosts, op = .updateRoomMembership sender user (.str R) .leave hosts
  | .ensureSchema, _ => False

/-- The answers in such a run. -/
def storiesAnswers : (op : Op) → Option (Res op) → Prop
  | .own (.getStoriesRoom _), r => ∀ room, r = some (some room) → room = R
  | op, r => answers (Ready roles C R) op r

/-- The law of the runs in question. -/
def stories : System.Law World Ev Job Op Res where
  I := Ready roles C R
  J := fun es _ job => storiesJobs frozen host roles C R es job
  A := storiesAnswers roles C R
  P := fun job _ op => storiesOps frozen C R job op

variable {frozen host roles C R}

section Code

variable {α : Type} {P : Op → Prop} {t : Code Unit} {user member : UserId}

/-- What a task does under the law, whatever it has done before. -/
abbrev Within (roles : UserId → Option Dict) (C R : RoomId) (P : Op → Prop) (t : Code α) : Prop :=
  Task.Only (storiesAnswers roles C R) P t

theorem within_isAi (hP : ∀ op, looks C op → P op) :
    Within roles C R P (isAi host member : Code Bool) := by
  unfold isAi
  split
  · exact .ret _
  · split
    · exact .ret _
    · exact ((Task.Only.call (hP (.userRole member) rfl)).bind fun _ => .ret _).orElse (.ret _)

theorem within_creator (hP : ∀ op, looks C op → P op) (room : Json) :
    Within roles C R P (roomCreator room : Code (Option UserId)) :=
  (Task.Only.call (hP (.stateEvent room createState) rfl)).bind fun _ => .ret _

theorem within_muteIfLocal (hP : ∀ op, looks C op → P op) (room : Json) :
    Within roles C R P (muteIfLocal host member room : Code Unit) := by
  unfold muteIfLocal
  split
  · refine Task.Only.orElse (Task.Only.bind ?_ fun _ => .ret _) (.ret _)
    refine (Task.Only.call (hP (.hasMuteRule member room) rfl)).bind fun existing => ?_
    split
    · exact .ret _
    · exact .call (hP (.addMuteRule member room) rfl)
  · exact .ret _

theorem within_remoteHosts :
    Within roles C R P (remoteHosts host member : Code (Option (List PyStr))) := by
  unfold remoteHosts
  split
  · exact .ret _
  · split
    · exact .ret _
    · exact .raised

/-- `_add_member` reads and mutes, and then invites. -/
theorem within_addMember (hP : ∀ op, looks C op → P op)
    (hinvite : ∀ sender hosts, P (.updateRoomMembership sender member (.str R) .invite hosts)) :
    Within roles C R P (addMember host (.str C) member) := by
  refine (within_isAi hP).bind fun ai => ?_
  split
  · exact .ret _
  · refine Task.Only.call_bind (hP _ rfl) fun room hroom => ?_
    cases room with
    | none => exact .ret _
    | some room =>
        obtain rfl : room = R := hroom room rfl
        refine (within_creator hP _).bind fun owner => ?_
        cases owner with
        | none => exact .ret _
        | some owner =>
            refine (within_muteIfLocal hP _).bind fun _ => within_remoteHosts.bind fun hosts => ?_
            exact Task.Only.orElse ((Task.Only.call (hinvite owner hosts)).bind fun _ => .ret _)
              (.ret _)

/-- `_remove_member` reads, and then kicks. -/
theorem within_removeMember (hP : ∀ op, looks C op → P op)
    (hkick : ∀ sender hosts, P (.updateRoomMembership sender member (.str R) .leave hosts)) :
    Within roles C R P (removeMember (.str C) member) := by
  refine Task.Only.call_bind (hP _ rfl) fun room hroom => ?_
  cases room with
  | none => exact .ret _
  | some room =>
      obtain rfl : room = R := hroom room rfl
      refine (within_creator hP _).bind fun owner => ?_
      cases owner with
      | none => exact .ret _
      | some owner =>
          exact Task.Only.orElse ((Task.Only.call (hkick owner none)).bind fun _ => .ret _) (.ret _)

theorem within_onRoomCreate {content : Dict} {fr : Bool}
    (hclaim : claimedChannel fr content = some (.str C)) :
    Within roles C R (storiesOps frozen C R (.onRoomCreate R content fr))
      (onRoomCreate host R content fr) := by
  have hP : ∀ op, looks C op → storiesOps frozen C R (.onRoomCreate R content fr) op :=
    fun _ h => .inl h
  unfold onRoomCreate
  rw [hclaim]
  refine (Task.Only.call (.inr (.inr (.inl rfl)))).bind fun _ => ?_
  refine (Task.Only.call (.inr (.inl rfl))).bind fun members => .forEach (fun member => ?_) members
  exact within_addMember hP fun sender hosts => .inr (.inr (.inr ⟨sender, member, hosts, rfl⟩))

theorem creation_cases {e : Event} (h : creation frozen C R e = true) :
    e.type = createState ∧ e.roomId = R ∧ e.stateKey = some [] ∧
      claimedChannel (frozen e.eventId) e.content = some (.str C) ∧
      e.content.get chatTypeKey ≠ .str channelTypeName := by
  simpa only [creation, Bool.and_eq_true, decide_eq_true_eq, and_assoc] using h

/-- The callback starts the job of its event. -/
theorem within_onNewEvent {es : List Ev} {e : Event}
    (hj : storiesJobs frozen host roles C R es (.onNewEvent e)) :
    Within roles C R (storiesOps frozen C R (.onNewEvent e)) (onNewEvent frozen e) := by
  have hread : ∀ type, storiesOps frozen C R (.onNewEvent e) (.stateEvent (.str e.roomId) type) :=
    fun type => .inl ⟨type, rfl⟩
  rcases hj with ⟨hroom, ht⟩ | hmember | ⟨-, hcreation⟩
  · have htype : e.type ≠ createState := by
      rw [ht]
      decide
    unfold onNewEvent
    rw [if_neg htype]
    split
    · simp only [chatType, stateContent, Task.bind_assoc, Task.pure_eq_ret, Task.ret_bind]
      refine Task.Only.call_bind (hread createState) fun ev hev => ?_
      obtain ⟨w, hw, hev⟩ := hev
      rw [if_neg]
      · exact .ret _
      · rw [Option.some.inj hev, hroom]
        exact hw.other
    · exact .ret _
  · obtain ⟨user, b, hroom, -, -, -, -, hask⟩ := ChannelSync.memberEvent_cases hmember
    rw [onNewEvent_member hask]
    refine Task.Only.bind ?_ fun v => ?_
    · exact ((Task.Only.call (hroom ▸ hread createState)).bind fun _ => .ret _).bind fun _ => .ret _
    · split
      · exact .call (.inr (.inl ⟨user, b, hask, rfl⟩))
      · exact .ret _
  · obtain ⟨ht, hroom, -⟩ := creation_cases hcreation
    unfold onNewEvent
    rw [if_pos ht, hroom]
    exact .call (.inr (.inr ⟨hcreation, rfl⟩))

end Code

/-- The members of a room after an event. -/
theorem mem_members_persist {r : Rooms} {e : Event} {room : RoomId} {p : UserId × Membership}
    (h : p ∈ (r.persist e).members room) : p ∈ r.members room ∨
      e.roomId = room ∧ e.type = py "m.room.member" ∧ e.stateKey = some p.1 := by
  unfold Rooms.persist at h
  split at h
  · exact .inl h
  · rename_i key hkey
    split at h
    · rename_i ht
      split at h
      · simp only [Rooms.setMember] at h
        split at h
        · rename_i hroom
          rcases List.mem_cons.1 h with rfl | h
          · exact .inr ⟨hroom.symm, ht, hkey⟩
          · exact .inl (List.mem_filter.1 h).1
        · exact .inl h
      · exact .inl h
    · exact .inl h

/-- The type and the creator of a room stay, where no creation of it is persisted. -/
theorem create_persist {w w' : World} {e : Event} {room : RoomId}
    (hr : w'.rooms = w.rooms.persist e) (he : e.type = py "m.room.member" ∨ e.roomId ≠ room) :
    w'.chatType room = w.chatType room ∧ w'.creator room = w.creator room := by
  have hstate : w'.rooms.state room createState [] = w.rooms.state room createState [] := by
    rw [hr]
    refine Rooms.persist_state_of_ne _ _ _ _ _ ?_
    rintro ⟨hroom, ht, -⟩
    rcases he with he | he
    · rw [he] at ht
      revert ht
      decide
    · exact he hroom
  unfold World.chatType World.creator
  rw [hstate]
  exact ⟨rfl, rfl⟩

/-- A membership event leaves the channel and its stories room as they are. -/
theorem Ready.member {w w' : World} (hw : Ready roles C R w) {e : Event}
    (hr : w'.rooms = w.rooms.persist e) (hroles : w'.roles = w.roles)
    (hstore : w'.store.room C = none ∨ w'.store.room C = some R)
    (ht : e.type = py "m.room.member")
    (hserver : e.roomId = C → ∀ user, e.stateKey = some user →
      (split1 (codePoint ':') user).2.isSome = true) : Ready roles C R w' where
  ne := hw.ne
  channel := (create_persist hr (.inl ht)).1.trans hw.channel
  other := by
    rw [(create_persist hr (.inl ht)).1]
    exact hw.other
  roles := hroles.trans hw.roles
  servers := by
    intro p hp
    rw [hr] at hp
    rcases mem_members_persist hp with hp | ⟨hroom, -, hkey⟩
    · exact hw.servers p hp
    · exact hserver hroom p.1 hkey
  room := hstore

/-- The stories room is created. -/
theorem Ready.creation {w : World} (hw : Ready roles C R w) (w' : World) {e : Event}
    (hr : w'.rooms = w.rooms.persist e) (hroles : w'.roles = w.roles)
    (hstore : w'.store = w.store) (he : creation frozen C R e = true) :
    Ready roles C R w' ∧ (w'.creator R).isSome = true := by
  obtain ⟨ht, hroom, hkey, -, htype⟩ := creation_cases he
  have hstate : w'.rooms.state R createState [] = some ⟨e.sender, e.content⟩ := by
    rw [hr, ← hroom, ← ht]
    refine Rooms.persist_state_self _ _ _ hkey ?_
    rw [ht]
    decide
  refine ⟨⟨hw.ne, ?_, ?_, hroles.trans hw.roles, fun p hp => ?_, ?_⟩, ?_⟩
  · refine (create_persist hr (.inr ?_)).1.trans hw.channel
    rw [hroom]
    exact hw.ne
  · unfold World.chatType
    rw [hstate]
    exact htype
  · rw [hr] at hp
    rcases mem_members_persist hp with hp | ⟨hroom', -, -⟩
    · exact hw.servers p hp
    · exact absurd (hroom.symm.trans hroom') hw.ne
  · rw [hstore]
    exact hw.room
  · unfold World.creator
    rw [hstate]
    rfl

theorem Ready.of_rooms_eq {w w' : World} (hw : Ready roles C R w) (hr : w'.rooms = w.rooms)
    (hroles : w'.roles = w.roles)
    (hstore : w'.store.room C = none ∨ w'.store.room C = some R) : Ready roles C R w' where
  ne := hw.ne
  channel := by
    have := hw.channel
    unfold World.chatType at this ⊢
    rwa [hr]
  other := by
    have := hw.other
    unfold World.chatType at this ⊢
    rwa [hr]
  roles := hroles.trans hw.roles
  servers := by
    rw [hr]
    exact hw.servers
  room := hstore

section Ops

variable {w : World} {job : Job} {op : Op} {raises : Bool}

theorem quiet_of_looks (h : looks C op) : op.quiet = true := by
  cases op with
  | own op => rfl
  | usersInRoom room m => exact h.elim
  | _ => exact h

/-- An operation of a run in question is quiet, or it starts a job, or it is a call. -/
theorem storiesOps_cases (hp : storiesOps frozen C R job op) : op.quiet = true ∨
    (∃ job', op = .background job') ∨ ∃ sender user b hosts,
      op = .updateRoomMembership sender user (.str R) (accessAction b) hosts := by
  cases job with
  | onNewEvent e =>
      rcases hp with ⟨type, rfl⟩ | ⟨user, b, -, rfl⟩ | ⟨-, rfl⟩
      · exact .inl rfl
      · exact .inr (.inl ⟨_, rfl⟩)
      · exact .inr (.inl ⟨_, rfl⟩)
  | onRoomCreate room content fr =>
      rcases hp with hp | rfl | rfl | ⟨sender, user, hosts, rfl⟩
      · exact .inl (quiet_of_looks hp)
      · exact .inl rfl
      · exact .inl rfl
      · exact .inr (.inr ⟨sender, user, true, hosts, rfl⟩)
  | addMember c user =>
      rcases hp with hp | ⟨sender, hosts, rfl⟩
      · exact .inl (quiet_of_looks hp)
      · exact .inr (.inr ⟨sender, user, true, hosts, rfl⟩)
  | removeMember c user =>
      rcases hp with hp | ⟨sender, hosts, rfl⟩
      · exact .inl (quiet_of_looks hp)
      · exact .inr (.inr ⟨sender, user, false, hosts, rfl⟩)
  | ensureSchema => exact hp.elim

/-- **What the completion of an await does to the rooms:** nothing, or it is the call for a user. -/
theorem rooms_op (host : PyStr) (w : World) (raises : Bool) (hp : storiesOps frozen C R job op) :
    (perform (channelStories frozen) host w op raises).1.rooms = w.rooms ∨
    ∃ (sender user : UserId) (b : Bool) (hosts : Option (List PyStr)) (e : Event),
      op = .updateRoomMembership sender user (.str R) (accessAction b) hosts ∧
      (perform (channelStories frozen) host w op raises).1.rooms = w.rooms.persist e ∧
      e.roomId = R ∧ e.type = py "m.room.member" ∧ e.stateKey = some user ∧
      Rooms.membershipOf e.content = some (accessAction b) := by
  rcases storiesOps_cases hp with hq | ⟨job', rfl⟩ | ⟨sender, user, b, hosts, rfl⟩
  · exact .inl (perform_quiet hq).1
  · rw [perform_background]
    exact .inl rfl
  · rcases perform_cases (channelStories frozen) host w
      (.updateRoomMembership sender user (.str R) (accessAction b) hosts) raises
      with ⟨hr, -⟩ | ⟨e, he, hr, -⟩
    · exact .inl hr
    · obtain ⟨hroom, ht, hk, hm, -⟩ := createdEvent_membership he
      exact .inr ⟨sender, user, b, hosts, e, rfl, hr, (Json.str.inj hroom).symm, ht, hk, hm⟩

theorem op_of_insertedBy {channel room : RoomId} {e : LogEntry}
    (h : insertedBy channel e = some room) :
    e.done.op = .own (.putStoriesRoom (.str channel) room) := by
  unfold insertedBy at h
  split at h
  · rename_i c room' _ hdone
    split at h
    · rename_i hc
      rw [hdone, hc, Option.some.inj h]
    · cases h
  · cases h

/-- What it does to the mapping: nothing, or it inserts the room. -/
theorem store_op (host : PyStr) (hw : w.store.room C = none ∨ w.store.room C = some R)
    (hp : storiesOps frozen C R job op) (raises : Bool) :
    (perform (channelStories frozen) host w op raises).1.store.room C = w.store.room C ∨
      (∃ room content fr, job = .onRoomCreate room content fr) ∧
        (perform (channelStories frozen) host w op raises).1.store.room C = some R := by
  rw [room_perform w op raises 0 0 job]
  cases hins : insertedBy C
      ⟨0, 0, job, w, ⟨op, (perform (channelStories frozen) host w op raises).2.1⟩⟩ with
  | none => exact .inl (Option.or_none ..)
  | some room =>
      have hop : op = .own (.putStoriesRoom (.str C) room) := op_of_insertedBy hins
      subst hop
      cases job with
      | onRoomCreate room' content fr =>
          have hroom : room = R := by
            rcases hp with hp | hp | hp | ⟨sender, user, hosts, hp⟩
            · exact hp.elim
            · cases hp
            · cases hp
              rfl
            · cases hp
          refine .inr ⟨⟨room', content, fr, rfl⟩, ?_⟩
          rcases hw with hw | hw <;> rw [hw, hroom] <;> rfl
      | onNewEvent e =>
          rcases hp with ⟨type, hp⟩ | ⟨user, b, -, hp⟩ | ⟨-, hp⟩ <;> cases hp
      | addMember c user => rcases hp with hp | ⟨sender, hosts, hp⟩ <;> cases hp
      | removeMember c user => rcases hp with hp | ⟨sender, hosts, hp⟩ <;> cases hp
      | ensureSchema => exact hp.elim

theorem store_op_room (host : PyStr) (hw : w.store.room C = none ∨ w.store.room C = some R)
    (hp : storiesOps frozen C R job op) (raises : Bool) :
    (perform (channelStories frozen) host w op raises).1.store.room C = none ∨
      (perform (channelStories frozen) host w op raises).1.store.room C = some R := by
  rcases store_op host hw hp raises with h | ⟨-, h⟩
  · rw [h]
    exact hw
  · exact .inr h

/-- The jobs that an await of such a run starts. -/
theorem jobs_op {es : List Ev} (hw : R ≠ C) (hj : storiesJobs frozen host roles C R es job)
    (hp : storiesOps frozen C R job op) {job' : Job}
    (hj' : job' ∈ (perform (channelStories frozen) host w op raises).2.2) :
    storiesJobs frozen host roles C R es job' := by
  rcases storiesOps_cases hp with hq | ⟨job'', rfl⟩ | ⟨sender, user, b, hosts, rfl⟩
  · rw [(perform_quiet hq).2] at hj'
    cases hj'
  · rw [perform_background] at hj'
    obtain rfl := List.mem_singleton.1 hj'
    cases job with
    | onNewEvent e =>
        rcases hp with ⟨type, hp⟩ | ⟨user, b, hask, hp⟩ | ⟨hcreation, hp⟩
        · cases hp
        · cases hp
          rcases hj with ⟨hroom, -⟩ | hmember | ⟨-, hcreation⟩
          · exact absurd (hroom.symm.trans (ChannelSync.askOf_newEvent hask).1) hw
          · obtain ⟨user', b', -, -, hkey, hserver, hhuman, -⟩ :=
              ChannelSync.memberEvent_cases hmember
            obtain rfl := Option.some.inj
              ((ChannelSync.askOf_newEvent hask).2.2.1.symm.trans hkey)
            cases b with
            | true => exact ⟨rfl, hhuman, hserver⟩
            | false => exact rfl
          · exact absurd ((creation_cases hcreation).2.1.symm.trans
              (ChannelSync.askOf_newEvent hask).1) hw
        · cases hp
          obtain ⟨-, hroom, -, hclaim, -⟩ := creation_cases hcreation
          rcases hj with ⟨-, ht⟩ | hmember | ⟨hmem, -⟩
          · rw [(creation_cases hcreation).1] at ht
            exact absurd ht (by decide)
          · obtain ⟨_, _, hC, -⟩ := ChannelSync.memberEvent_cases hmember
            exact absurd (hroom.symm.trans hC) hw
          · exact ⟨rfl, hclaim, e, hmem, hcreation⟩
    | onRoomCreate room content fr =>
        rcases hp with hp | hp | hp | ⟨sender, user, hosts, hp⟩
        · cases hp
        · cases hp
        · cases hp
        · cases hp
    | addMember c user => rcases hp with hp | ⟨sender, hosts, hp⟩ <;> cases hp
    | removeMember c user => rcases hp with hp | ⟨sender, hosts, hp⟩ <;> cases hp
    | ensureSchema => exact hp.elim
  · rcases perform_cases (channelStories frozen) host w
      (.updateRoomMembership sender user (.str R) (accessAction b) hosts) raises
      with ⟨-, hb⟩ | ⟨e, he, -, hjobs⟩
    · cases hb job' hj'
    · rw [hjobs] at hj'
      obtain rfl := List.mem_singleton.1 hj'
      obtain ⟨hroom, ht, -⟩ := createdEvent_membership he
      exact .inl ⟨(Json.str.inj hroom).symm, ht⟩

end Ops

section Keeps

variable {s : State} {i : ℕ} {raises : Bool} {o : ℕ} {job : Job} {op : Op}
  {k : Option (Res op) → Code Unit}

/-- A look-up of the mapping is one for the channel, by a job that makes calls. -/
theorem looksUp_channel {c : Json} (hp : storiesOps frozen C R job (.own (.getStoriesRoom c))) :
    c = .str C := by
  cases job with
  | onNewEvent e => rcases hp with ⟨type, hp⟩ | ⟨user, b, -, hp⟩ | ⟨-, hp⟩ <;> cases hp
  | onRoomCreate room content fr =>
      rcases hp with hp | hp | hp | ⟨sender, user, hosts, hp⟩
      · exact hp
      · cases hp
      · cases hp
      · cases hp
  | addMember c user =>
      rcases hp with hp | ⟨sender, hosts, hp⟩
      · exact hp
      · cases hp
  | removeMember c user =>
      rcases hp with hp | ⟨sender, hosts, hp⟩
      · exact hp
      · cases hp
  | ensureSchema => exact hp.elim

/-- The reads of such a run succeed. -/
theorem Moves.read (hm : Moves frozen host roles C R s (.step i raises))
    (hi : s.threads[i]? = some ⟨o, job, .await op k⟩) (hread : reads op = true) :
    (perform (channelStories frozen) host s.world op raises).2.1.isSome = true := by
  cases op with
  | updateRoomMembership sender target room action hosts => cases hread
  | stateEvent room type =>
      simp only [Moves, hi] at hm
      exact hm hread
  | usersInRoom room m =>
      simp only [Moves, hi] at hm
      exact hm hread
  | own op =>
      simp only [Moves, hi] at hm
      exact hm hread
  | _ => cases hread

theorem answers_op (hw : Ready roles C R s.world) (hp : storiesOps frozen C R job op)
    (hm : Moves frozen host roles C R s (.step i raises))
    (hi : s.threads[i]? = some ⟨o, job, .await op k⟩) :
    storiesAnswers roles C R op (perform (channelStories frozen) host s.world op raises).2.1 := by
  have hanswers : answers (Ready roles C R) op
      (perform (channelStories frozen) host s.world op raises).2.1 :=
    answers_perform hw fun room type hop => hm.read hi (hop ▸ rfl)
  cases op with
  | own op =>
      cases op with
      | getStoriesRoom c =>
          obtain rfl := looksUp_channel hp
          intro room hroom
          cases raises with
          | true => cases hroom
          | false =>
              have hroom : s.world.store.room C = some room := Option.some.inj hroom
              rcases hw.room with h | h
              · rw [h] at hroom
                cases hroom
              · exact (Option.some.inj (h.symm.trans hroom)).symm
      | _ => exact hanswers
  | _ => exact hanswers

theorem comesIn_cases {w : World} {e : Event} (h : comesIn w R e = true) :
    ∃ user, e.roomId = R ∧ e.type = py "m.room.member" ∧ e.stateKey = some user ∧
      Rooms.membershipOf e.content = some .join := by
  simp only [comesIn, Bool.and_eq_true, decide_eq_true_eq] at h
  obtain ⟨⟨⟨hr, ht⟩, hm⟩, hk⟩ := h
  split at hk
  · rename_i user hkey
    refine ⟨user, hr, ht, hkey, ?_⟩
    rw [Rooms.membershipOf, hm]
    rfl
  · cases hk

/-- **The law holds of every run in question.** -/
theorem stories_keeps :
    (system frozen host).Keeps (Moves frozen host roles C R) (stories frozen host roles C R) where
  code := by
    intro es o job hj
    cases job with
    | onNewEvent e => exact within_onNewEvent hj []
    | onRoomCreate room content fr =>
        obtain ⟨rfl, hclaim, -⟩ := hj
        exact (within_onRoomCreate hclaim : Within _ _ _ (storiesOps frozen _ _ _) _) []
    | addMember c user =>
        obtain ⟨rfl, -⟩ := hj
        exact within_addMember (fun _ h => .inl h) (fun _ _ => .inr ⟨_, _, rfl⟩) []
    | removeMember c user =>
        obtain rfl : c = C := hj
        exact within_removeMember (fun _ h => .inl h) (fun _ _ => .inr ⟨_, _, rfl⟩) []
    | ensureSchema => exact hj.elim
  later := by
    intro es o job e hj _
    cases job with
    | onNewEvent e' =>
        exact hj.imp id (Or.imp id (And.imp (fun hmem => List.mem_append.2 (.inl hmem)) id))
    | onRoomCreate room content fr =>
        obtain ⟨hroom, hclaim, e', hmem, hcreation⟩ := hj
        exact ⟨hroom, hclaim, e', List.mem_append.2 (.inl hmem), hcreation⟩
    | addMember c user => exact hj
    | removeMember c user => exact hj
    | ensureSchema => exact hj
  event := by
    intro s e hw hc
    cases e with
    | newEvent e =>
        have hroom : s.world.store.room C = none ∨ s.world.store.room C = some R := hw.room
        rcases hc with hc | hc | ⟨hc, -⟩
        · obtain ⟨user, _, _, ht, hkey, hserver, _⟩ := ChannelSync.memberEvent_cases hc
          refine ⟨Ready.member hw rfl rfl hroom ht fun _ user' hkey' => ?_, fun j hj => ?_⟩
          · obtain rfl := Option.some.inj (hkey.symm.trans hkey')
            exact hserver
          · obtain rfl := List.mem_singleton.1 hj
            exact .inr (.inl hc)
        · obtain ⟨user, hr, ht, -⟩ := comesIn_cases hc
          refine ⟨Ready.member hw rfl rfl hroom ht fun hC => ?_, fun j hj => ?_⟩
          · exact absurd (hr.symm.trans hC) hw.ne
          · obtain rfl := List.mem_singleton.1 hj
            exact .inl ⟨hr, ht⟩
        · have hready : Ready roles C R (s.world.persist e) :=
            (hw.creation (s.world.persist e) rfl rfl rfl hc).1
          refine ⟨hready, fun j hj => ?_⟩
          obtain rfl := List.mem_singleton.1 hj
          exact .inr (.inr ⟨by simp, hc⟩)
    | emptied room => exact hc.elim
    | setRole user data => exact hc.elim
    | restart => exact hc.elim
  op := by
    intro s i raises o job op k hs hc hi hp
    have hw : Ready roles C R s.world := hs.world
    have hp : storiesOps frozen C R job op := hp
    have hroles := perform_roles (channelStories frozen) host s.world op raises
    have hstore := store_op_room host hw.room hp raises
    have hj : storiesJobs frozen host roles C R s.events job :=
      (hs.jobs _ (List.mem_of_getElem? hi)).2
    refine ⟨?_, answers_op hw hp hc hi, fun j' hj' => jobs_op hw.ne hj hp hj'⟩
    rcases rooms_op host s.world raises hp with hr | ⟨_, user, _, _, e, -, hr, hroom, ht, -, -⟩
    · exact hw.of_rooms_eq hr hroles hstore
    · refine hw.member hr hroles hstore ht fun hC => ?_
      exact absurd (hroom.symm.trans hC) hw.ne

end Keeps

end Law

/-! ### The invariant -/

section Invariant

/-- The list of the members has still to be read. -/
def Filling (host : PyStr) (C R : RoomId) (s : State) : Prop :=
  ∃ t ∈ s.threads, (∃ content fr, claimedChannel fr content = some (.str C) ∧
      (t.rest = call (.background (.onRoomCreate R content fr)) ∨
        t.rest = onRoomCreate host R content fr)) ∨
    t.rest = backfillChannelMembers host (.str C) ∧ s.world.store.room C = some R

/-- Everybody in the channel is in the stories room or invited to it, or will be. -/
def Filled (host : PyStr) (roles : UserId → Option Dict) (C R : RoomId) (s : State) : Prop :=
  s.world.store.room C = some R ∧ ∀ user, human host roles user = true →
    (split1 (codePoint ':') user).2.isSome = true →
    s.world.rooms.membership C user = some .join →
    s.world.rooms.isIn R user = true ∨ StillTo roles C R user true s

/-- What holds in every state of a run in turn. -/
structure Inv (frozen : Freezes) (host : PyStr) (roles : UserId → Option Dict) (C R : RoomId)
    (s : State) : Prop where
  created : ∀ e, .newEvent e ∈ s.events → creation frozen C R e = true →
    (s.world.creator R).isSome = true
  mapped : s.world.store.room C = some R →
    ∃ e, .newEvent e ∈ s.events ∧ creation frozen C R e = true
  lookup : ∀ t ∈ s.threads, ∀ user, t.job = .removeMember C user →
    t.rest = removeMember (.str C) user ∨ s.world.store.room C = some R ∨ t.rest.Ended
  filled : (∃ e, .newEvent e ∈ s.events ∧ creation frozen C R e = true) →
    Filling host C R s ∨ Filled host roles C R s
  left : ∀ user, s.world.hasLeft C user = true →
    s.world.rooms.isIn R user = false ∨ StillTo roles C R user false s

variable {frozen : Freezes} {host : PyStr} {roles : UserId → Option Dict} {C R : RoomId}
    {s t : State}
  {user : UserId}

theorem Filling.event {e : Event} (hs : Filling host C R s)
    (h : (system frozen host).step s (.event (.newEvent e)) = some t) : Filling host C R t := by
  obtain rfl := Option.some.inj h
  obtain ⟨u, hu, hrest⟩ := hs
  exact ⟨u, List.mem_append.2 (.inl hu), hrest⟩

theorem StillTo.event {e : Event} {b : Bool} (hs : StillTo roles C R user b s)
    (h : (system frozen host).step s (.event (.newEvent e)) = some t) :
    StillTo roles C R user b t :=
  Due.event rfl hs h

/-- The stories room is created: its callback is to start the job of the new room. -/
theorem filling_of_creation {e : Event} (he : creation frozen C R e = true)
    (h : (system frozen host).step s (.event (.newEvent e)) = some t) : Filling host C R t := by
  obtain ⟨ht, hroom, -, hclaim, -⟩ := creation_cases he
  obtain rfl := Option.some.inj h
  refine ⟨⟨s.events.length, .onNewEvent e, onNewEvent frozen e⟩, List.mem_append.2 (.inr ?_),
    .inl ⟨e.content, frozen e.eventId, hclaim, .inl ?_⟩⟩
  · exact List.mem_singleton_self _
  · show onNewEvent frozen e = _
    unfold onNewEvent
    rw [if_pos ht, hroom]

/-- An outside event keeps the invariant, where it keeps the two parts of it about the users. -/
theorem Inv.event {e : Event} (hs : Inv frozen host roles C R s)
    (h : (system frozen host).step s (.event (.newEvent e)) = some t)
    (hcreator : creation frozen C R e = true ∨ (s.world.creator R).isSome = true →
      (t.world.creator R).isSome = true)
    (hfilled : Filled host roles C R s → Filled host roles C R t)
    (hleft : ∀ user, t.world.hasLeft C user = true →
      t.world.rooms.isIn R user = false ∨ StillTo roles C R user false t) :
    Inv frozen host roles C R t := by
  have ht := (Option.some.inj h).symm
  have hevents : t.events = s.events ++ [.newEvent e] := by rw [ht]
  have hstore : t.world.store = s.world.store := by
    rw [ht]
    rfl
  have hthreads : t.threads =
      s.threads ++ [⟨s.events.length, .onNewEvent e, onNewEvent frozen e⟩] := by
    rw [ht]
    rfl
  have hnew : ∀ e', Ev.newEvent e' ∈ t.events → Ev.newEvent e' ∈ s.events ∨ e' = e := by
    intro e' he'
    rw [hevents] at he'
    refine (List.mem_append.1 he').imp id fun he' => ?_
    exact Ev.newEvent.inj (List.mem_singleton.1 he')
  refine ⟨fun e' he' hc => ?_, fun hmap => ?_, fun u hu user hjob => ?_, ?_, hleft⟩
  · refine hcreator ?_
    rcases hnew e' he' with he' | rfl
    · exact .inr (hs.created e' he' hc)
    · exact .inl hc
  · rw [hstore] at hmap
    obtain ⟨e', he', hc⟩ := hs.mapped hmap
    rw [hevents]
    exact ⟨e', List.mem_append.2 (.inl he'), hc⟩
  · rw [hstore]
    rw [hthreads] at hu
    rcases List.mem_append.1 hu with hu | hu
    · exact hs.lookup u hu user hjob
    · obtain rfl := List.mem_singleton.1 hu
      cases hjob
  · rintro ⟨e', he', hc⟩
    rcases hnew e' he' with he' | rfl
    · exact (hs.filled ⟨e', he', hc⟩).imp (fun hf => hf.event h) hfilled
    · exact .inl (filling_of_creation hc h)

/-- A member comes or goes. -/
theorem Inv.member {e : Event} (hs : Inv frozen host roles C R s) (hne : R ≠ C)
    (he : memberEvent host roles C e = true)
    (h : (system frozen host).step s (.event (.newEvent e)) = some t) :
    Inv frozen host roles C R t := by
  obtain ⟨user, b, hroom, ht, hkey, hserver, hhuman, hask⟩ := ChannelSync.memberEvent_cases he
  have hrooms : t.world.rooms = s.world.rooms.persist e := by
    obtain rfl := Option.some.inj h
    rfl
  have hin : ∀ u, t.world.rooms.isIn R u = s.world.rooms.isIn R u := by
    intro u
    rw [hrooms]
    exact Rooms.persist_isIn_of_ne _ _ _ _ (hroom ▸ hne.symm)
  have hother : ∀ u, u ≠ user →
      t.world.rooms.membership C u = s.world.rooms.membership C u := by
    intro u hu
    rw [hrooms]
    refine Rooms.persist_membership_of_ne _ _ _ _ ?_
    rintro ⟨-, -, hkey'⟩
    exact hu (Option.some.inj (hkey'.symm.trans hkey))
  -- the callback of the event will set it right
  have hdue : ∀ b', askOf C user (.newEvent e) = some b' → StillTo roles C R user b' t := by
    intro b' hask'
    refine Due.arrived h (List.mem_singleton_self _) ?_ (onNewEvent_bound hask')
    rintro rfl
    exact .inr ⟨e, rfl, hask'⟩
  have hmember : ∀ m, Rooms.membershipOf e.content = some m →
      t.world.rooms.membership C user = some m := by
    intro m hm
    rw [hrooms, ← hroom]
    exact Rooms.persist_membership_self _ _ _ hkey ht hm
  have hb := (ChannelSync.askOf_newEvent hask).2.2.2
  refine hs.event h (fun hc => ?_) (fun ⟨hmap, hf⟩ => ⟨?_, fun u hu hsu hj => ?_⟩)
    fun u hl => ?_
  · rw [(create_persist hrooms (.inl ht)).2]
    refine hc.resolve_left fun hc => ?_
    rw [(creation_cases hc).1] at ht
    exact absurd ht (by decide)
  · obtain rfl := Option.some.inj h
    exact hmap
  · by_cases huser : u = user
    · subst huser
      rcases hb with ⟨rfl, -⟩ | ⟨-, hm⟩
      · exact .inr (hdue true hask)
      · rcases hm with hm | hm <;> rw [hmember _ hm] at hj <;> cases hj
    · rw [hother u huser] at hj
      rw [hin]
      exact (hf u hu hsu hj).imp id fun hd => hd.event h
  · by_cases huser : u = user
    · subst huser
      rcases hb with ⟨-, hm⟩ | ⟨rfl, -⟩
      · rw [World.hasLeft, hmember _ hm] at hl
        exact absurd hl (by decide)
      · exact .inr (hdue false hask)
    · rw [World.hasLeft, hother u huser] at hl
      rw [hin]
      exact (hs.left u hl).imp id fun hd => hd.event h

/-- The creator, or an invited user, comes into the stories room. -/
theorem Inv.comesIn {e : Event} (hs : Inv frozen host roles C R s) (hne : R ≠ C)
    (he : comesIn s.world R e = true) (hturn : InTurn roles C R s (.event (.newEvent e)))
    (h : (system frozen host).step s (.event (.newEvent e)) = some t) :
    Inv frozen host roles C R t := by
  obtain ⟨user, hroom, ht, hkey, hm⟩ := comesIn_cases he
  have hrooms : t.world.rooms = s.world.rooms.persist e := by
    obtain rfl := Option.some.inj h
    rfl
  have hmember : ∀ u, t.world.rooms.membership C u = s.world.rooms.membership C u := by
    intro u
    rw [hrooms]
    refine Rooms.persist_membership_of_ne _ _ _ _ ?_
    rintro ⟨hC, -⟩
    exact hne (hroom.symm.trans hC)
  have hin : ∀ u, t.world.rooms.isIn R u = if u = user then true else s.world.rooms.isIn R u := by
    intro u
    rw [hrooms, ← hroom, Rooms.persist_isIn _ _ _ _ hkey ht hm]
    rfl
  refine hs.event h (fun hc => ?_) (fun ⟨hmap, hf⟩ => ⟨?_, fun u hu hsu hj => ?_⟩)
    fun u hl => ?_
  · rw [(create_persist hrooms (.inl ht)).2]
    refine hc.resolve_left fun hc => ?_
    rw [(creation_cases hc).1] at ht
    exact absurd ht (by decide)
  · obtain rfl := Option.some.inj h
    exact hmap
  · rw [hmember] at hj
    rw [hin]
    split
    · exact .inl rfl
    · exact (hf u hu hsu hj).imp id fun hd => hd.event h
  · rw [World.hasLeft, hmember] at hl
    rw [hin]
    split
    · rename_i huser
      subst huser
      refine .inr ?_
      rcases hs.left u hl with hout | hd
      · refine (hturn.calls u false ?_).event h
        simp only [against, hroom, ht, hkey, and_self, if_true, Option.bind_some]
        exact if_pos ⟨hl, hout⟩
      · exact hd.event h
    · exact (hs.left u hl).imp id fun hd => hd.event h

/-- The stories room is created. -/
theorem Inv.creation {e : Event} (hs : Inv frozen host roles C R s) (hw : Ready roles C R s.world)
    (he : creation frozen C R e = true)
    (h : (system frozen host).step s (.event (.newEvent e)) = some t) :
    Inv frozen host roles C R t := by
  have ht := (creation_cases he).1
  have hrooms : t.world.rooms = s.world.rooms.persist e := by
    obtain rfl := Option.some.inj h
    rfl
  have hmember : ∀ room u, t.world.rooms.membership room u = s.world.rooms.membership room u := by
    intro room u
    rw [hrooms]
    refine Rooms.persist_membership_of_ne _ _ _ _ ?_
    rintro ⟨-, htype, -⟩
    rw [ht] at htype
    exact absurd htype (by decide)
  have hin : ∀ u, t.world.rooms.isIn R u = s.world.rooms.isIn R u := by
    intro u
    rw [Rooms.isIn, hmember]
    rfl
  refine hs.event h (fun _ => ?_) (fun ⟨hmap, hf⟩ => ⟨?_, fun u hu hsu hj => ?_⟩) fun u hl => ?_
  · obtain rfl := Option.some.inj h
    exact (hw.creation (s.world.persist e) rfl rfl rfl he).2
  · obtain rfl := Option.some.inj h
    exact hmap
  · rw [hmember] at hj
    rw [hin]
    exact (hf u hu hsu hj).imp id fun hd => hd.event h
  · rw [World.hasLeft, hmember] at hl
    rw [hin]
    exact (hs.left u hl).imp id fun hd => hd.event h

/-! ### What an await keeps -/

section Step

variable {i : ℕ} {raises : Bool} {o : ℕ} {job : Job} {op : Op} {k : Option (Res op) → Code Unit}
  {w : World}

theorem membership_op (host : PyStr) (w : World) (hne : R ≠ C) (hp : storiesOps frozen C R job op)
    (raises : Bool) (u : UserId) :
    (perform (channelStories frozen) host w op raises).1.rooms.membership C u =
      w.rooms.membership C u := by
  rcases rooms_op host w raises hp with hr | ⟨_, user, _, _, e, -, hr, hroom, -⟩
  · rw [hr]
  · rw [hr]
    refine Rooms.persist_membership_of_ne _ _ _ _ ?_
    rintro ⟨hC, -⟩
    exact hne (hroom.symm.trans hC)

theorem creator_op (host : PyStr) (w : World) (hp : storiesOps frozen C R job op) (raises : Bool) :
    (perform (channelStories frozen) host w op raises).1.creator R = w.creator R := by
  rcases rooms_op host w raises hp with hr | ⟨_, user, _, _, e, -, hr, -, ht, -⟩
  · unfold World.creator
    rw [hr]
  · exact (create_persist hr (.inl ht)).2

/-- Who is in the stories room after an await: the same, or it was the call for a user. -/
theorem isIn_op (hp : storiesOps frozen C R job op)
    (hm : Moves frozen host roles C R s (.step i raises))
    (hi : s.threads[i]? = some ⟨o, job, .await op k⟩) :
    (∀ u, (perform (channelStories frozen) host s.world op raises).1.rooms.isIn R u =
      s.world.rooms.isIn R u) ∧
        (∀ sender user room action hosts,
          op ≠ .updateRoomMembership sender user room action hosts) ∨
    ∃ sender user b hosts,
      op = .updateRoomMembership sender user (.str R) (accessAction b) hosts ∧
      ∀ u, (perform (channelStories frozen) host s.world op raises).1.rooms.isIn R u =
        if u = user then b else s.world.rooms.isIn R u := by
  rcases storiesOps_cases hp with hq | ⟨job', rfl⟩ | ⟨sender, user, b, hosts, rfl⟩
  · refine .inl ⟨fun u => by rw [(perform_quiet hq).1], ?_⟩
    rintro sender user room action hosts rfl
    cases hq
  · refine .inl ⟨fun u => by rw [perform_background], ?_⟩
    rintro sender user room action hosts hop
    cases hop
  · refine .inr ⟨sender, user, b, hosts, rfl, fun u => ?_⟩
    cases hans : (perform (channelStories frozen) host s.world
        (.updateRoomMembership sender user (.str R) (accessAction b) hosts) raises).2.1 with
    | none =>
        -- it has failed, and would have changed nothing
        simp only [Moves, hi] at hm
        rw [perform_rooms_of_none hans]
        split
        · rename_i huser
          rw [huser, hm hans]
          cases b <;> rfl
        · rfl
    | some a =>
        have hsome : (perform (channelStories frozen) host s.world
            (.updateRoomMembership sender user (.str R) (accessAction b) hosts)
            raises).2.1.isSome = true := by rw [hans]; rfl
        obtain ⟨e, he⟩ := created_of_isSome (.inr ⟨_, _, _, _, _, rfl⟩) hsome
        obtain ⟨hroom, ht, hk, hm, -⟩ := createdEvent_membership he
        rw [(perform_of_created he hsome).1, Json.str.inj hroom,
          Rooms.persist_isIn _ _ _ _ hk ht hm, ChannelSync.accessAction_isIn]

/-- The list of the members is read for the channel. -/
theorem usersInRoom_channel {room : Json} {m : Membership}
    (hp : storiesOps frozen C R job (.usersInRoom room m)) :
    room = .str C ∧ m = .join ∧ ∃ room content fr, job = .onRoomCreate room content fr := by
  cases job with
  | onNewEvent e => rcases hp with ⟨type, hp⟩ | ⟨user, b, -, hp⟩ | ⟨-, hp⟩ <;> cases hp
  | onRoomCreate room content fr =>
      rcases hp with hp | hp | hp | ⟨sender, user, hosts, hp⟩
      · exact hp.elim
      · cases hp
        exact ⟨rfl, rfl, room, content, fr, rfl⟩
      · cases hp
      · cases hp
  | addMember c user => rcases hp with hp | ⟨sender, hosts, hp⟩ <;> cases hp
  | removeMember c user => rcases hp with hp | ⟨sender, hosts, hp⟩ <;> cases hp
  | ensureSchema => exact hp.elim

theorem servers_usersIn (hw : Ready roles C R w) {member : UserId}
    (h : member ∈ w.usersIn (.str C) .join) :
    (split1 (codePoint ':') member).2.isSome = true := by
  obtain ⟨p, hp, rfl⟩ := List.mem_map.1 h
  exact hw.servers p (List.mem_filter.1 hp).1

/-- The answers are those that are looked for, if the mapping, the creator and the user are there
where the operation reads them. -/
theorem found_op (hw : Ready roles C R s.world) (hp : storiesOps frozen C R job op)
    (hm : Moves frozen host roles C R s (.step i raises))
    (hi : s.threads[i]? = some ⟨o, job, .await op k⟩)
    (hmap : op = .own (.getStoriesRoom (.str C)) → s.world.store.room C = some R)
    (hcreator : op = .stateEvent (.str R) createState → (s.world.creator R).isSome = true)
    (huser : op = .usersInRoom (.str C) .join → s.world.rooms.membership C user = some .join) :
    Found roles C R user op (perform (channelStories frozen) host s.world op raises).2.1 := by
  have hanswers : answers (Known roles C) op
      (perform (channelStories frozen) host s.world op raises).2.1 :=
    answers_perform ⟨hw.roles, hw.channel⟩ fun room type hop => hm.read hi (hop ▸ rfl)
  have hans : reads op = true →
      (perform (channelStories frozen) host s.world op raises).2.1.isSome = true :=
    fun hread => hm.read hi hread
  cases op with
  | stateEvent room type =>
      refine ⟨hanswers, ?_⟩
      rintro rfl rfl hnone
      have hsome := hcreator rfl
      rw [perform_stateEvent] at hnone
      split at hnone
      · cases hnone
      · have hnone : s.world.rooms.state R createState [] = none := Option.some.inj hnone
        rw [World.creator, hnone] at hsome
        cases hsome
  | usersInRoom room m =>
      obtain ⟨rfl, rfl, -⟩ := usersInRoom_channel hp
      have hans := hans rfl
      cases raises with
      | true => cases hans
      | false =>
          exact ⟨s.world.usersIn (.str C) .join, rfl,
            Rooms.mem_usersWith _ _ _ (huser rfl), fun _ h => servers_usersIn hw h⟩
  | own op =>
      have hans := hans rfl
      cases op with
      | getStoriesRoom c =>
          obtain rfl := looksUp_channel hp
          cases raises with
          | true => cases hans
          | false => exact congrArg some (hmap rfl)
      | _ => exact hans
  | _ => exact hanswers

/-- The state after an await. -/
theorem after_await (hi : s.threads[i]? = some ⟨o, job, .await op k⟩)
    (h : (system frozen host).step s (.step i raises) = some t) :
    t.world = (perform (channelStories frozen) host s.world op raises).1 ∧ t.events = s.events ∧
      t.threads = s.threads.set i
          ⟨o, job, k (perform (channelStories frozen) host s.world op raises).2.1⟩ ++
        (system frozen host).fork o (perform (channelStories frozen) host s.world op raises).2.2 :=
  System.stepped hi h

/-- What is still to come is still to come after an await, or it was this call, or the await was of
the job that is to make it and has not found what it looked for. -/
theorem StillTo.kept {b : Bool} (hs : System.Lawful (stories frozen host roles C R) s)
    (hp : storiesOps frozen C R job op) (hstill : StillTo roles C R user b s)
    (hi : s.threads[i]? = some ⟨o, job, .await op k⟩)
    (h : (system frozen host).step s (.step i raises) = some t) :
    StillTo roles C R user b t ∨
      (∃ sender hosts, op = .updateRoomMembership sender user (.str R) (accessAction b) hosts) ∨
      (b = false → removes C user job) ∧
        ¬Found roles C R user op (perform (channelStories frozen) host s.world op raises).2.1 := by
  have hw : Ready roles C R s.world := hs.world
  have hj : storiesJobs frozen host roles C R s.events job :=
    (hs.jobs _ (List.mem_of_getElem? hi)).2
  rcases Due.op hstill hi h with hd | ⟨hJ, (rfl | hcall) | hfound⟩
  · exact .inl hd
  · -- the callback has started the job
    have hmem : memberJob C user b ∈
        (perform (channelStories frozen) host s.world
          (.background (memberJob C user b)) raises).2.2 := by
      rw [perform_background]
      exact List.mem_singleton_self _
    have hjob := jobs_op hw.ne hj hp hmem
    refine .inl (Due.started hi h hmem ?_ ?_)
    · rintro rfl
      exact .inl rfl
    · refine memberJob_bound fun hb => ?_
      subst hb
      exact ⟨hjob.2.1, hjob.2.2⟩
  · exact .inr (.inl hcall)
  · exact .inr (.inr ⟨hJ, hfound⟩)

/-- The mapping is written, or stays. -/
theorem mapped_op (host : PyStr) (hw : Ready roles C R w) (hmap : w.store.room C = some R)
    (hp : storiesOps frozen C R job op) (raises : Bool) :
    (perform (channelStories frozen) host w op raises).1.store.room C = some R := by
  rcases store_op host hw.room hp raises with h | ⟨-, h⟩
  · rw [h, hmap]
  · exact h

/-- `_on_room_create` writes the mapping first. -/
theorem onRoomCreate_eq (host : PyStr) (R : RoomId) {content : Dict} {fr : Bool}
    (hclaim : claimedChannel fr content = some (.str C)) :
    ∃ kont, onRoomCreate host R content fr = .await (.own (.putStoriesRoom (.str C) R)) kont ∧
      kont (some ()) = backfillChannelMembers host (.str C) := by
  unfold onRoomCreate
  rw [hclaim]
  exact ⟨_, rfl, rfl⟩

/-- `_backfill_channel_members` reads the list first. -/
theorem backfillChannelMembers_eq (host : PyStr) (C : RoomId) :
    ∃ kont, backfillChannelMembers host (.str C) = .await (.usersInRoom (.str C) .join) kont ∧
      ∀ members, kont (some members) = forEach (addMember host (.str C)) members :=
  ⟨_, rfl, fun _ => rfl⟩

/-- An insert that does not fail writes the mapping. -/
theorem mapped_put (hw : Ready roles C R w)
    (hans : (perform (channelStories frozen) host w
        (.own (.putStoriesRoom (.str C) R)) raises).2.1.isSome =
      true) :
    (perform (channelStories frozen) host w
        (.own (.putStoriesRoom (.str C) R)) raises).1.store.room C =
      some R := by
  cases raises with
  | true => cases hans
  | false =>
      refine (room_putStoriesRoom w.rooms w.store C R C).trans ?_
      rw [if_pos rfl]
      rcases hw.room with hroom | hroom <;> rw [hroom] <;> rfl

/-- The pass over the list begins: everybody in the channel will be invited. -/
theorem filled_of_list {members : List UserId}
    (hw : Ready roles C R s.world) (hmap : t.world.store.room C = some R)
    (hmembers : members = s.world.usersIn (.str C) .join)
    (hsame : ∀ u, t.world.rooms.membership C u = s.world.rooms.membership C u)
    (hthread : ∃ u ∈ t.threads, u.rest = forEach (addMember host (.str C)) members) :
    Filled host roles C R t := by
  refine ⟨hmap, fun user hhuman _ hj => .inr ?_⟩
  obtain ⟨u, hu, hrest⟩ := hthread
  rw [hsame] at hj
  have hmem : user ∈ members := by
    rw [hmembers]
    exact Rooms.mem_usersWith _ _ _ hj
  refine ⟨u, hu, fun hb => (by cases hb), ?_⟩
  rw [hrest]
  exact forEach_bound hmem hhuman fun member h => servers_usersIn hw (hmembers ▸ h)

/-- The thread that is to read the list moves on, or another one does. -/
theorem Filling.kept (hs : System.Lawful (stories frozen host roles C R) s)
    (hp : storiesOps frozen C R job op)
    (hm : Moves frozen host roles C R s (.step i raises)) (hfilling : Filling host C R s)
    (hi : s.threads[i]? = some ⟨o, job, .await op k⟩)
    (h : (system frozen host).step s (.step i raises) = some t) :
    Filling host C R t ∨ Filled host roles C R t := by
  have hw : Ready roles C R s.world := hs.world
  obtain ⟨htworld, -, htthreads⟩ := after_await hi h
  obtain ⟨u, hu, hrest⟩ := hfilling
  obtain ⟨l, hl⟩ := List.mem_iff_getElem?.1 hu
  have hself : (⟨o, job, k (perform (channelStories frozen) host s.world op raises).2.1⟩ :
      Thread Job Op Res) ∈ t.threads := by
    rw [htthreads]
    exact List.mem_append.2 (.inl (List.mem_set (List.getElem?_eq_some_iff.1 hi).1 _))
  by_cases hli : l = i
  · subst hli
    obtain rfl := Option.some.inj (hl.symm.trans hi)
    rcases hrest with ⟨content, fr, hclaim, hrest | hrest⟩ | ⟨hrest, hmap⟩
    · -- the callback starts the job of the new room
      obtain ⟨rfl, -⟩ := Task.await.inj hrest
      refine .inl ⟨⟨o, .onRoomCreate R content fr, onRoomCreate host R content fr⟩, ?_,
        .inl ⟨content, fr, hclaim, .inr rfl⟩⟩
      rw [htthreads, perform_background]
      exact List.mem_append.2 (.inr (List.mem_singleton_self _))
    · -- the job writes the mapping
      obtain ⟨kont, hkont, hnext⟩ := onRoomCreate_eq host R hclaim
      obtain ⟨rfl, hk⟩ := Task.await.inj (hrest.trans hkont)
      obtain rfl := eq_of_heq hk
      have hans := hm.read hi rfl
      obtain ⟨a, ha⟩ := Option.isSome_iff_exists.1 hans
      rw [ha] at hself
      refine .inl ⟨_, hself, .inr ⟨hnext, ?_⟩⟩
      rw [htworld]
      exact mapped_put hw hans
    · -- the job reads the list
      obtain ⟨kont, hkont, hnext⟩ := backfillChannelMembers_eq host C
      obtain ⟨rfl, hk⟩ := Task.await.inj (hrest.trans hkont)
      obtain rfl := eq_of_heq hk
      have hans := hm.read hi rfl
      cases raises with
      | true => cases hans
      | false =>
          refine .inr (filled_of_list hw ?_ rfl (fun u => ?_) ⟨_, hself, hnext _⟩)
          · rw [htworld]
            exact hmap
          · rw [htworld]
            rfl
  · have hmem : u ∈ t.threads := by
      rw [htthreads]
      exact List.mem_append.2 (.inl
        (List.mem_of_getElem? ((List.getElem?_set_ne (Ne.symm hli)).trans hl)))
    refine .inl ⟨u, hmem, hrest.imp id (And.imp id fun hmap => ?_)⟩
    rw [htworld]
    exact mapped_op host hw hmap hp raises

/-- The mapping is there only once the room is created. -/
theorem Inv.creator (hinv : Inv frozen host roles C R s) (hmap : s.world.store.room C = some R) :
    (s.world.creator R).isSome = true := by
  obtain ⟨e, he, hc⟩ := hinv.mapped hmap
  exact hinv.created e he hc

/-- In turn everybody in the channel stays in the stories room, or will be again. -/
theorem Filled.kept (hs : System.Lawful (stories frozen host roles C R) s)
    (hinv : Inv frozen host roles C R s)
    (hp : storiesOps frozen C R job op) (hm : Moves frozen host roles C R s (.step i raises))
    (hturn : InTurn roles C R s (.step i raises)) (hf : Filled host roles C R s)
    (hi : s.threads[i]? = some ⟨o, job, .await op k⟩)
    (h : (system frozen host).step s (.step i raises) = some t) : Filled host roles C R t := by
  have hw : Ready roles C R s.world := hs.world
  obtain ⟨htworld, -, -⟩ := after_await hi h
  obtain ⟨hmap, hf⟩ := hf
  refine ⟨by rw [htworld]; exact mapped_op host hw hmap hp raises, fun u hhu hsu hj => ?_⟩
  rw [htworld, membership_op host s.world hw.ne hp] at hj
  rw [htworld]
  have hfound : Found roles C R u op (perform (channelStories frozen) host s.world op raises).2.1 :=
    found_op hw hp hm hi (fun _ => hmap) (fun _ => hinv.creator hmap) fun _ => hj
  -- an invite that is still to come is still to come, or has come
  have hkept : StillTo roles C R u true s → StillTo roles C R u true t ∨
      ∃ sender hosts, op = .updateRoomMembership sender u (.str R) (accessAction true) hosts := by
    intro hd
    rcases hd.kept hs hp hi h with hd | hcall | ⟨-, hnot⟩
    · exact .inl hd
    · exact .inr hcall
    · exact absurd hfound hnot
  rcases isIn_op hp hm hi with ⟨hsame, hcalls⟩ | ⟨sender, user, b, hosts, rfl, hin⟩
  · rw [hsame]
    rcases hf u hhu hsu hj with hin | hd
    · exact .inl hin
    · rcases hkept hd with hd | ⟨sender, hosts, hop⟩
      · exact .inr hd
      · exact absurd hop (hcalls _ _ _ _ _)
  · rw [hin]
    by_cases huser : u = user
    · subst huser
      rw [if_pos rfl]
      cases b with
      | true => exact .inl rfl
      | false =>
          -- a member is taken out of the room
          have hagainst : against C R s (.step i raises) = some (u, true) := by
            simp [against, hi, accessAction, hj]
          rcases hkept (hturn.calls u true hagainst) with hd | ⟨sender, hosts, hop⟩
          · exact .inr hd
          · simp [accessAction] at hop
    · rw [if_neg huser]
      rcases hf u hhu hsu hj with hin | hd
      · exact .inl hin
      · rcases hkept hd with hd | ⟨sender, hosts, hop⟩
        · exact .inr hd
        · obtain ⟨-, rfl, -⟩ := Synapse.Op.updateRoomMembership.inj hop
          exact absurd rfl huser

/-- A job that is to remove a user ends without a call only where there is nothing to remove. -/
theorem isIn_of_not_found (hs : System.Lawful (stories frozen host roles C R) s)
    (hinv : Inv frozen host roles C R s) (hp : storiesOps frozen C R job op)
    (hm : Moves frozen host roles C R s (.step i raises))
    (hturn : InTurn roles C R s (.step i raises))
    (hi : s.threads[i]? = some ⟨o, job, .await op k⟩) (hjob : removes C user job)
    (hnot : ¬Found roles C R user op (perform (channelStories frozen) host s.world op raises).2.1) :
    s.world.rooms.isIn R user = false := by
  have hw : Ready roles C R s.world := hs.world
  have hlist : op ≠ .usersInRoom (.str C) .join := by
    rintro rfl
    obtain ⟨-, -, room, content, fr, rfl⟩ := usersInRoom_channel hp
    rcases hjob with hjob | ⟨e, hjob, -⟩ <;> cases hjob
  rcases hw.room with hmap | hmap
  · by_cases hop : op = .own (.getStoriesRoom (.str C))
    · subst hop
      rcases hjob with rfl | ⟨e, rfl, -⟩
      · refine hturn.lookups user ?_ hmap
        simp only [looksUp, hi]
      · rcases hp with ⟨type, hp⟩ | ⟨u, b, -, hp⟩ | ⟨-, hp⟩ <;> cases hp
    · -- nothing is read of the stories room before the mapping is
      refine absurd ?_ hnot
      refine found_op hw hp hm hi (fun h => absurd h hop) ?_ fun h => absurd h hlist
      rintro rfl
      rcases hjob with rfl | ⟨e, rfl, hask⟩
      · rcases hinv.lookup _ (List.mem_of_getElem? hi) user rfl with hrest | h | h
        · cases hrest
        · rw [hmap] at h
          cases h
        · exact h.elim
      · rcases hp with ⟨type, hp⟩ | ⟨u, b, -, hp⟩ | ⟨-, hp⟩
        · cases hp
          exact absurd (ChannelSync.askOf_newEvent hask).1 hw.ne
        · cases hp
        · cases hp
  · refine absurd ?_ hnot
    exact found_op hw hp hm hi (fun _ => hmap) (fun _ => hinv.creator hmap) fun h => absurd h hlist

/-- In turn nobody who has left is in the stories room, or will be for long. -/
theorem left_kept (hs : System.Lawful (stories frozen host roles C R) s)
    (hinv : Inv frozen host roles C R s)
    (hp : storiesOps frozen C R job op) (hm : Moves frozen host roles C R s (.step i raises))
    (hturn : InTurn roles C R s (.step i raises))
    (hi : s.threads[i]? = some ⟨o, job, .await op k⟩)
    (h : (system frozen host).step s (.step i raises) = some t) (u : UserId)
    (hl : t.world.hasLeft C u = true) :
    t.world.rooms.isIn R u = false ∨ StillTo roles C R u false t := by
  have hw : Ready roles C R s.world := hs.world
  obtain ⟨htworld, -, -⟩ := after_await hi h
  rw [htworld, World.hasLeft, membership_op host s.world hw.ne hp] at hl
  rw [htworld]
  -- a kick that is still to come is still to come, or has come, or there is nothing to remove
  have hkept : StillTo roles C R u false s → StillTo roles C R u false t ∨
      (∃ sender hosts, op = .updateRoomMembership sender u (.str R) (accessAction false) hosts) ∨
      s.world.rooms.isIn R u = false := by
    intro hd
    rcases hd.kept hs hp hi h with hd | hcall | ⟨hjob, hnot⟩
    · exact .inl hd
    · exact .inr (.inl hcall)
    · exact .inr (.inr (isIn_of_not_found hs hinv hp hm hturn hi (hjob rfl) hnot))
  rcases isIn_op hp hm hi with ⟨hsame, hcalls⟩ | ⟨sender, user, b, hosts, rfl, hin⟩
  · rw [hsame]
    rcases hinv.left u hl with hout | hd
    · exact .inl hout
    · rcases hkept hd with hd | ⟨sender, hosts, hop⟩ | hout
      · exact .inr hd
      · exact absurd hop (hcalls _ _ _ _ _)
      · exact .inl hout
  · rw [hin]
    by_cases huser : u = user
    · subst huser
      rw [if_pos rfl]
      cases b with
      | false => exact .inl rfl
      | true =>
          -- somebody who has left is invited
          have hagainst : against C R s (.step i raises) = some (u, false) := by
            have hl : s.world.hasLeft C u = true := hl
            simp [against, hi, accessAction, hl]
          refine .inr ?_
          rcases (hturn.calls u false hagainst).kept hs hp hi h with hd | ⟨_, _, hop⟩ | ⟨-, hnot⟩
          · exact hd
          · simp [accessAction] at hop
          · exact absurd trivial hnot
    · rw [if_neg huser]
      rcases hinv.left u hl with hout | hd
      · exact .inl hout
      · rcases hkept hd with hd | ⟨sender, hosts, hop⟩ | hout
        · exact .inr hd
        · obtain ⟨-, rfl, -⟩ := Synapse.Op.updateRoomMembership.inj hop
          exact absurd rfl huser
        · exact .inl hout

/-- A thread of a job that is to remove a user looks up the mapping first. -/
theorem lookup_kept (hs : System.Lawful (stories frozen host roles C R) s)
    (hinv : Inv frozen host roles C R s)
    (hp : storiesOps frozen C R job op) (hm : Moves frozen host roles C R s (.step i raises))
    (hi : s.threads[i]? = some ⟨o, job, .await op k⟩)
    (h : (system frozen host).step s (.step i raises) = some t) (u : Thread Job Op Res)
    (hu : u ∈ t.threads) (user : UserId) (hjob : u.job = .removeMember C user) :
    u.rest = removeMember (.str C) user ∨ t.world.store.room C = some R ∨ u.rest.Ended := by
  have hw : Ready roles C R s.world := hs.world
  obtain ⟨htworld, -, htthreads⟩ := after_await hi h
  have hmapped : s.world.store.room C = some R → t.world.store.room C = some R := by
    intro hmap
    rw [htworld]
    exact mapped_op host hw hmap hp raises
  rw [htthreads] at hu
  rcases List.mem_append.1 hu with hu | hu
  · rcases List.mem_or_eq_of_mem_set hu with hu | rfl
    · exact (hinv.lookup u hu user hjob).imp id (Or.imp hmapped id)
    · obtain rfl : job = .removeMember C user := hjob
      rcases hinv.lookup _ (List.mem_of_getElem? hi) user rfl with hrest | hmap | hended
      · -- it finds the mapping, or ends
        obtain ⟨rfl, hk⟩ := Task.await.inj hrest
        obtain rfl := eq_of_heq hk
        rcases hw.room with hmap | hmap
        · refine .inr (.inr ?_)
          have hans := hm.read hi rfl
          cases raises with
          | true => cases hans
          | false =>
              have hnone : (perform (channelStories frozen) host s.world
                  (.own (.getStoriesRoom (.str C))) false).2.1 = some none := congrArg some hmap
              simp only [hnone]
              exact trivial
        · exact .inr (.inl (hmapped hmap))
      · exact .inr (.inl (hmapped hmap))
      · exact hended.elim
  · obtain ⟨j', -, rfl⟩ := System.mem_fork hu
    obtain rfl : j' = .removeMember C user := hjob
    exact .inl rfl

/-- **Every await in turn keeps the invariant.** -/
theorem Inv.performed (hs : System.Lawful (stories frozen host roles C R) s)
    (hinv : Inv frozen host roles C R s) (hm : Moves frozen host roles C R s (.step i raises))
    (hturn : InTurn roles C R s (.step i raises))
    (hi : s.threads[i]? = some ⟨o, job, .await op k⟩)
    (h : (system frozen host).step s (.step i raises) = some t) : Inv frozen host roles C R t := by
  have hw : Ready roles C R s.world := hs.world
  have hp : storiesOps frozen C R job op := (hs.threads i _ hi).1
  obtain ⟨htworld, htevents, -⟩ := after_await hi h
  refine ⟨fun e he hc => ?_, fun hmap => ?_, lookup_kept hs hinv hp hm hi h, fun hc => ?_,
    left_kept hs hinv hp hm hturn hi h⟩
  · rw [htworld, creator_op host s.world hp]
    rw [htevents] at he
    exact hinv.created e he hc
  · rw [htevents]
    rw [htworld] at hmap
    rcases store_op host hw.room hp raises with hsame | ⟨⟨room, content, fr, rfl⟩, -⟩
    · exact hinv.mapped (hsame ▸ hmap)
    · exact (hs.jobs _ (List.mem_of_getElem? hi)).2.2.2
  · rw [htevents] at hc
    rcases hinv.filled hc with hf | hf
    · exact hf.kept hs hp hm hi h
    · exact .inr (hf.kept hs hinv hp hm hturn hi h)

end Step

/-- **Every move in turn keeps the invariant.** -/
theorem Inv.step {a : Act} (hs : System.Lawful (stories frozen host roles C R) s)
    (hinv : Inv frozen host roles C R s) (hm : Moves frozen host roles C R s a)
    (hturn : InTurn roles C R s a)
    (h : (system frozen host).step s a = some t) : Inv frozen host roles C R t := by
  have hw : Ready roles C R s.world := hs.world
  rcases System.step_cases h with ⟨ev, rfl, -⟩ | ⟨i, raises, o, job, op, k, rfl, hi, -⟩
  · cases ev with
    | newEvent e =>
        rcases hm with hm | hm | ⟨hm, -⟩
        · exact hinv.member hw.ne hm h
        · exact hinv.comesIn hw.ne hm hturn h
        · exact hinv.creation hw hm h
    | emptied room => exact hm.elim
    | setRole user data => exact hm.elim
    | restart => exact hm.elim
  · exact hinv.performed hs hm hturn hi h

end Invariant

/-- **The audience of the stories follows the membership of the channel.**  In every run in turn of
members coming and going in a channel whose stories room is created at some point of it, when all
jobs have ended, a human member of the channel is in the stories room or invited to it, and nobody
is who has left the channel or was banned. -/
theorem stories_follow {frozen : Freezes} {host : PyStr} {roles : UserId → Option Dict}
    {C R : RoomId} {w₀ : World}
    {s : State} {as : List Act} (hw : Ready roles C R w₀) (hmap : w₀.store.room C = none)
    (hempty : ∀ user, w₀.rooms.isIn R user = false)
    (h : Exec (system frozen host).step
      (fun s a => Moves frozen host roles C R s a ∧ InTurn roles C R s a) (start w₀) as s)
    (hidle : System.Idle s) (hcreated : ∃ ev ∈ s.events, creates frozen C R ev = true)
    (user : UserId) (hhuman : human host roles user = true)
    (hserver : (split1 (codePoint ':') user).2.isSome = true) :
    s.world.StoriesFollow C R user := by
  have hstart : Inv frozen host roles C R (start w₀) := by
    refine ⟨fun e he => ?_, fun h => ?_, fun u hu => ?_, ?_, fun u _ => .inl (hempty u)⟩
    · cases he
    · rw [show (start w₀ : State).world.store.room C = none from hmap] at h
      cases h
    · cases hu
    · rintro ⟨e, he, -⟩
      cases he
  have hinv : System.Lawful (stories frozen host roles C R) s ∧ Inv frozen host roles C R s := by
    refine h.invariant (I := fun s => System.Lawful (stories frozen host roles C R) s ∧
      Inv frozen host roles C R s) ⟨System.lawful_start hw, hstart⟩ ?_
    rintro s a t ⟨hs, hinv⟩ ⟨hm, hturn⟩ hstep
    exact ⟨stories_keeps.lawful_step hs hm hstep, hinv.step hs hm hturn hstep⟩
  have hcreated : ∃ e, .newEvent e ∈ s.events ∧ creation frozen C R e = true := by
    obtain ⟨ev, hev, hc⟩ := hcreated
    cases ev with
    | newEvent e => exact ⟨e, hev, hc⟩
    | _ => cases hc
  refine ⟨fun hj => ?_, fun hl => ?_⟩
  · rcases hinv.2.filled hcreated with ⟨u, hu, hrest⟩ | ⟨-, hf⟩
    · -- a thread that is to read the list has not ended
      have hended := hidle u hu
      rcases hrest with ⟨content, fr, hclaim, hrest | hrest⟩ | ⟨hrest, -⟩
      · rw [hrest] at hended
        exact hended.elim
      · obtain ⟨kont, hkont, -⟩ := onRoomCreate_eq host R hclaim
        rw [hrest, hkont] at hended
        exact hended.elim
      · rw [hrest] at hended
        exact hended.elim
    · exact (hf user hhuman hserver hj).resolve_right hidle.not_due
  · exact (hinv.2.left user hl).resolve_right hidle.not_due

/-! ### In turn and out of turn -/

/-- A channel `!c` of `@ann:h` with the member `@bob:h`. -/
def storiesWorld : World :=
  World.ofLists [] [("!c", createState, ⟨"@ann:h", [(chatTypeKey, .str channelTypeName)]⟩)]
    [("!c", "@ann:h", .join), ("!c", "@bob:h", .join)]

theorem storiesWorld_ready : Ready (fun _ => none) "!c" "!r" storiesWorld where
  ne := by decide
  channel := by decide
  other := by decide
  roles := rfl
  servers := by decide
  room := .inl rfl

theorem storiesWorld_empty (user : UserId) : storiesWorld.rooms.isIn "!r" user = false := rfl

/-- `@ann:h` creates the stories room `!r` and joins it. -/
def storiesCreated : List Act :=
  [.event (.newEvent ⟨"$1", createState, "!r", "@ann:h", some [],
      [(chatTypeKey, .str "stories"), (channelStoriesOf, .obj [("channel_id", .str "!c")])], none⟩),
    .event (.newEvent ⟨"$2", "m.room.member", "!r", "@ann:h", some "@ann:h",
      [("membership", .str "join")], none⟩)]

/-- `@bob:h` leaves the channel. -/
def bobLeaves : Act :=
  .event (.newEvent ⟨"$3", "m.room.member", "!c", "@bob:h", some "@bob:h",
    [("membership", .str "leave")], none⟩)

/-- The callbacks of the two events run, and the job of the new room up to the first member. -/
def listRead : List Act :=
  storiesCreated ++ [.step 0 false, .step 1 false] ++ List.replicate 8 (.step 2 false : Act)

/-- The kick of `@bob:h` comes before his invite. -/
def overtaken : List Act :=
  listRead ++ [bobLeaves] ++ List.replicate 2 (.step 3 false : Act) ++
    List.replicate 3 (.step 4 false : Act) ++ List.replicate 6 (.step 2 false : Act) ++
    [.step 5 false]

/-- The kick comes after it. -/
def notOvertaken : List Act :=
  listRead ++ List.replicate 6 (.step 2 false : Act) ++ [bobLeaves] ++
    List.replicate 2 (.step 4 false : Act) ++ List.replicate 3 (.step 5 false : Act) ++
    [.step 6 false]

/-- A move that puts nobody at odds with their membership, and finds the mapping where it looks it
up, is in turn. -/
theorem inTurn_of_none {roles : UserId → Option Dict} {C R : RoomId} {s : State} {a : Act}
    (hcalls : against C R s a = none)
    (hlookups : looksUp s a = none ∨ s.world.store.room C ≠ none) : InTurn roles C R s a where
  calls := by
    intro user b h
    rw [hcalls] at h
    cases h
  lookups := by
    intro user h hmap
    rcases hlookups with hnone | hsome
    · rw [hnone] at h
      cases h
    · exact absurd hmap hsome

/-- In turn the audience is right. -/
theorem stories_follow_in_turn :
    ∃ s, Exec (system thawed "h").step
        (fun s a => Moves thawed "h" (fun _ => none) "!c" "!r" s a ∧
            InTurn (fun _ => none) "!c" "!r" s a)
        (start storiesWorld) notOvertaken s ∧ System.Idle s ∧
      s.world.rooms.membership "!c" "@bob:h" = some .leave ∧
      s.world.StoriesFollow "!c" "!r" "@bob:h" := by
  obtain ⟨s, hrun, hidle, hcreated, hleft⟩ := exists_exec_of_runs (f := (system thawed "h").step)
    (C := fun s a => Moves thawed "h" (fun _ => none) "!c" "!r" s a ∧ against "!c" "!r" s a = none ∧
      (looksUp s a = none ∨ s.world.store.room "!c" ≠ none))
    (s := start storiesWorld) (l := notOvertaken)
    (p := fun s => System.Idle s ∧ (∃ ev ∈ s.events, creates thawed "!c" "!r" ev = true) ∧
      s.world.rooms.membership "!c" "@bob:h" = some .leave) (by decide +kernel)
  have hrun := hrun.mono fun s a hc => And.imp_right (fun h =>
    (inTurn_of_none h.1 h.2 : InTurn (fun _ => none) "!c" "!r" s a)) hc
  exact ⟨s, hrun, hidle, hleft, stories_follow storiesWorld_ready rfl storiesWorld_empty hrun hidle
    hcreated "@bob:h" (by decide) (by decide)⟩

/-- **An invite of the pass over the list stands:** no call fails that would change anything, and at
the end of all jobs `@bob:h`, who has left the channel, is invited to its stories. -/
theorem late_invite_of_backfill :
    Ready (fun _ => none) "!c" "!r" storiesWorld ∧ storiesWorld.store.room "!c" = none ∧
    (∀ user, storiesWorld.rooms.isIn "!r" user = false) ∧
    ∃ s, Exec (system thawed "h").step (Moves thawed "h" (fun _ => none) "!c" "!r")
        (start storiesWorld) overtaken s ∧ System.Idle s ∧ (∃ ev ∈ s.events, creates thawed "!c" "!r" ev = true) ∧
      ¬s.world.StoriesFollow "!c" "!r" "@bob:h" ∧
      s.world.rooms.membership "!c" "@bob:h" = some .leave ∧
      s.world.rooms.membership "!r" "@bob:h" = some .invite :=
  ⟨storiesWorld_ready, rfl, storiesWorld_empty, exists_exec_of_runs (by decide +kernel)⟩

end ChannelStories
end Liza
