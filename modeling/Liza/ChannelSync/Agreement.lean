/-
# The callbacks of a channel agree with its migration

`plan_discussion_migration` says from a snapshot what has to be changed in a discussion room, and
the callbacks of the channel are to keep it so that there is nothing to change.  They keep the
settings, and they invite who joins a closed channel; but when an open channel is closed nobody
invites the members it has, who were free to join the discussion and have not
(`closed_leaves_members_out`).

In every run in which each event of the channel is processed to the end before the next one, and
nothing fails, there is nothing to migrate after any event, provided that the channel is closed by
an event that names its rule, and only while all members are in the discussion room (`Covered`,
`stays_migrated`).
-/

import Liza.ChannelSync.Access
import Liza.ChannelSync.Privacy

set_option autoImplicit false

namespace Liza
namespace ChannelSync

open Lib Synapse
open Lib.Task (Obeys Bound)
open Lib.System (Due Idle)

/-! ### What the migration would do -/

section Snapshot

variable (host : PyStr) (C D : RoomId) (w : World)

/-- An operation that completes. -/
def completed (w : World) (op : Op) : World × Option (Res op) :=
  ((complete channelSync host w op).1, (complete channelSync host w op).2.1)

/-- What `_channel_snapshot` returns. -/
def World.snapshot : Option Snapshot :=
  ((channelSnapshot host C (.str D)).eval (completed host) w).2

/-- The plan of the snapshot is a no-op. -/
def World.Migrated : Bool :=
  (w.snapshot host C D).any fun s => planIsNoop (planDiscussionMigration s)

/-- Whether the room is hidden. -/
def World.hidden : Json :=
  match (w.rooms.state D topologyState []).map StateEvent.content with
  | none => .null
  | some c => c.get "hidden"

/-- The user is in the room, or invited to it. -/
def World.listed (user : UserId) : Prop :=
  user ∈ w.usersIn (.str D) .join ∨ user ∈ w.usersIn (.str D) .invite

variable {host C D w}

theorem eval_isAi (user : UserId) :
    (isAi host user : Code Bool).eval (completed host) w =
      (w, some (!human host w.roles user)) := by
  unfold isAi human
  cases hlocal : isAiLocalpart user
  · cases hmine : isMine host user
    · rfl
    · simp [Task.eval_orElse, Task.eval_bind]
      rfl
  · rfl

theorem eval_humanMembers (members : List UserId) :
    (humanMembers host members).eval (completed host) w =
      (w, some (members.filter fun u => human host w.roles u)) := by
  induction members with
  | nil => rfl
  | cons u us ih =>
      simp only [humanMembers, Task.eval_bind, eval_isAi, ih, List.filter_cons]
      cases human host w.roles u <;> rfl

theorem eval_channelJoinRule (room : RoomId) :
    (channelJoinRule (.str room)).eval (completed host) w = (w, some (w.joinRule room)) := rfl

theorem eval_historyVisibility (room : RoomId) :
    (historyVisibility (.str room)).eval (completed host) w =
      (w, some (w.historyVisibility room)) := rfl

theorem eval_discussionHidden (room : RoomId) :
    (discussionHidden (.str room)).eval (completed host) w = (w, some (w.hidden room)) := rfl

/-- The snapshot that is read of the rooms. -/
def World.snapshotOf (host : PyStr) (C D : RoomId) (w : World) : Snapshot :=
  { channelJoinRule := w.joinRule C
    discussionJoinRule := w.joinRule D
    discussionHistoryVisibility := w.historyVisibility D
    discussionHidden := w.hidden D
    channelMembers := (w.usersIn (.str C) .join).filter fun u => human host w.roles u
    discussionMembers := w.usersIn (.str D) .join ++ w.usersIn (.str D) .invite }

theorem eval_channelSnapshot : (channelSnapshot host C (.str D)).eval (completed host) w =
    (w, some (w.snapshotOf host C D)) := by
  unfold channelSnapshot
  simp only [Task.eval_bind, eval_humanMembers, eval_channelJoinRule, eval_historyVisibility,
    eval_discussionHidden]
  rfl

/-- **The snapshot is what is read of the rooms.** -/
theorem snapshot_eq : w.snapshot host C D = some (w.snapshotOf host C D) := by
  unfold World.snapshot
  rw [eval_channelSnapshot]

/-- Nobody is left to invite. -/
theorem isEmpty_invite {members already : List UserId} {isHuman : UserId → Bool} :
    ((members.filter isHuman).filter fun m => m ∉ already).isEmpty = true ↔
      ∀ user ∈ members, isHuman user = true → user ∈ already := by
  rw [List.isEmpty_iff, List.filter_eq_nil_iff]
  simp only [List.mem_filter, decide_eq_true_eq, not_not, and_imp]

/-- **When there is nothing to migrate.** -/
theorem migrated_iff : w.Migrated host C D = true ↔
    w.Aligned C D ∧ w.hidden D = .bool true ∧
      (isPublicChannel (w.joinRule C) = false → ∀ user ∈ w.usersIn (.str C) .join,
        human host w.roles user = true → w.listed D user) := by
  unfold World.Migrated World.Aligned World.listed
  rw [snapshot_eq]
  simp only [World.snapshotOf, Option.any_some, planIsNoop, planDiscussionMigration, Bool.and_eq_true, ne_eq,
    ite_not, and_assoc]
  refine and_congr ?_ (and_congr ?_ (and_congr ?_ ?_))
  · split <;> simp [*]
  · split <;> simp [*]
  · simp
  · cases isPublicChannel (w.joinRule C) with
    | true => simp
    | false =>
        simp only [Bool.false_eq_true, if_false, forall_const, ← List.mem_append]
        exact isEmpty_invite

end Snapshot

/-! ### The runs in question -/

/-- A user joins or leaves the channel, or is banned from it. -/
def memberChange (C : RoomId) (e : Event) : Bool :=
  e.roomId = C && e.type = py "m.room.member" &&
    match e.stateKey with
    | some user => (split1 (codePoint ':') user).2.isSome && (askOf C user (.newEvent e)).isSome
    | none => false

/-- The join rules of the channel change. -/
def ruleChange (C : RoomId) (e : Event) : Bool :=
  e.roomId = C && e.type = joinRulesState && e.stateKey = some []

instance decidableListed (D : RoomId) (w : World) (user : UserId) :
    Decidable (w.listed D user) := by
  unfold World.listed
  infer_instance

/-- A membership call that changes nothing: the invite of a user who is listed, or the kick of one
who is not. -/
def redundant (D : RoomId) (w : World) : Op → Prop
  | .updateRoomMembership _ target _ action _ =>
      action = .invite ∧ w.listed D target ∨ action = .leave ∧ ¬w.listed D target
  | _ => False

instance decidableRedundant (D : RoomId) (w : World) (op : Op) : Decidable (redundant D w op) := by
  rcases op
  case updateRoomMembership => exact inferInstanceAs (Decidable (_ ∧ _ ∨ _ ∧ ¬_))
  all_goals exact instDecidableFalse

/-- The moves of the runs in question: an event of the channel arrives when all jobs have ended, and
no call fails, unless it is one that would change nothing. -/
def Handles (host : PyStr) (C D : RoomId) (s : State) : Act → Prop
  | .event (.newEvent e) => Idle s ∧ (memberChange C e = true ∨ ruleChange C e = true)
  | .event _ => False
  | .step i raises =>
      match s.threads[i]? with
      | some ⟨_, _, .await op _⟩ =>
          (perform channelSync host s.world op raises).2.1.isSome = true ∨ redundant D s.world op
      | _ => True

/-- An event that closes the open channel names its rule, and comes while all human members of the
channel are in the discussion room or invited to it. -/
def Covered (host : PyStr) (C D : RoomId) (s : State) : Act → Prop
  | .event (.newEvent e) => e.type = joinRulesState →
      isPublicChannel (s.world.joinRule C) = true →
      isPublicChannel (joinRuleOf (some e.content)) = false →
      (joinRuleOf (some e.content)).truthy = true ∧
        ∀ user ∈ s.world.usersIn (.str C) .join, human host s.world.roles user = true →
          s.world.listed D user
  | _ => True

instance decidableHandles (host : PyStr) (C D : RoomId) (s : State) (a : Act) :
    Decidable (Handles host C D s a) := by
  rcases a with (⟨e⟩ | ⟨room⟩ | ⟨user, data⟩ | _) | ⟨i, raises⟩
  · exact inferInstanceAs (Decidable (_ ∧ (_ ∨ _)))
  · exact instDecidableFalse
  · exact instDecidableFalse
  · exact instDecidableFalse
  · dsimp only [Handles]
    generalize s.threads[i]? = u
    rcases u with _ | ⟨o, j, _ | _ | ⟨op, k⟩⟩
    · exact instDecidableTrue
    · exact instDecidableTrue
    · exact instDecidableTrue
    · exact inferInstanceAs (Decidable (_ = true ∨ _))

instance decidableCovered (host : PyStr) (C D : RoomId) (s : State) (a : Act) :
    Decidable (Covered host C D s a) := by
  rcases a with (⟨e⟩ | ⟨room⟩ | ⟨user, data⟩ | _) | ⟨i, raises⟩
  · exact inferInstanceAs (Decidable (_ → _ → _ → _ ∧ _))
  · exact instDecidableTrue
  · exact instDecidableTrue
  · exact instDecidableTrue
  · exact instDecidableTrue

/-! ### The law of the runs -/

section Law

variable (host : PyStr) (roles : UserId → Option Dict) (C D : RoomId) (owner : UserId)

/-- The channel with its discussion room; the roles of the users are fixed. -/
structure Pair (w : World) : Prop extends Linked C D owner w where
  roles : w.roles = roles

/-- The jobs of such a run. -/
def agreementJobs : Job → Prop
  | .onNewEvent e => e.roomId = D ∧ e.type = py "m.room.member" ∨
      (∃ k : Setting, e.roomId = D ∧ e.type = k.type ∧ e.stateKey = some []) ∨
      memberChange C e = true ∨ ruleChange C e = true
  | .onChannelJoin c user => c = C ∧ (split1 (codePoint ':') user).2.isSome = true
  | .onChannelLeave c _ => c = C
  | .syncDiscussionPrivacy c _ => c = C
  | .muteForSubscriber _ _ => True
  | _ => False

/-- What the callback of an event starts. -/
def startedBy (e : Event) (job : Job) : Prop :=
  (∃ user room, job = .muteForSubscriber user room) ∨
    (∃ user b, askOf C user (.newEvent e) = some b ∧ job = accessJob C user b) ∨
    e.roomId = C ∧ e.type = joinRulesState ∧ ∃ rule, ruleOf (.newEvent e) = some rule ∧
      job = .syncDiscussionPrivacy C rule

/-- What the jobs do: they read and mute, the callback starts the job of its event, and the jobs
make the call for their user, respectively write the two settings. -/
def agreementOps : Job → Op → Prop
  | .onNewEvent e, op => op.quiet = true ∨ ∃ job, startedBy C e job ∧ op = .background job
  | .onChannelJoin _ user, op => op.quiet = true ∨
      ∃ hosts, op = .updateRoomMembership owner user (.str D) .invite hosts
  | .onChannelLeave _ user, op => op.quiet = true ∨
      op = .updateRoomMembership owner user (.str D) .leave none
  | .syncDiscussionPrivacy _ rule, op => op.quiet = true ∨
      ∃ k : Setting, op = .sendEvent (k.write D owner rule)
  | .muteForSubscriber _ _, op => op.quiet = true
  | _, _ => False

/-- The law of the runs in question. -/
def agreement : System.Law World Ev Job Op Res where
  I := Pair roles C D owner
  J := fun _ _ job => agreementJobs C D job
  A := answers (Pair roles C D owner)
  P := fun job _ op => agreementOps C D owner job op

variable {host roles C D owner} {user : UserId} {h : List (Done Op Res)}

theorem memberChange_cases {e : Event} (he : memberChange C e = true) :
    ∃ user b, e.roomId = C ∧ e.type = py "m.room.member" ∧ e.stateKey = some user ∧
      (split1 (codePoint ':') user).2.isSome = true ∧ askOf C user (.newEvent e) = some b := by
  simp only [memberChange, Bool.and_eq_true, decide_eq_true_eq] at he
  obtain ⟨⟨hr, ht⟩, hk⟩ := he
  split at hk
  · rename_i user hkey
    simp only [Bool.and_eq_true] at hk
    obtain ⟨b, hb⟩ := Option.isSome_iff_exists.1 hk.2
    exact ⟨user, b, hr, ht, hkey, hk.1, hb⟩
  · cases hk

theorem ruleChange_cases {e : Event} (he : ruleChange C e = true) :
    e.roomId = C ∧ e.type = joinRulesState ∧ e.stateKey = some [] := by
  simpa only [ruleChange, Bool.and_eq_true, decide_eq_true_eq, and_assoc] using he

/-- The callback starts the job of its event. -/
theorem onNewEvent_agrees {e : Event} (hj : agreementJobs C D (.onNewEvent e)) :
    Obeys (answers (Pair roles C D owner)) (fun _ op => agreementOps C D owner (.onNewEvent e) op)
      (fun _ _ => True) [] (onNewEvent host e) := by
  have hquiet : ∀ (_ : List (Done Op Res)) (op : Op), op.quiet = true →
      agreementOps C D owner (.onNewEvent e) op := fun _ _ hq => .inl hq
  rcases hj with ⟨hroom, ht⟩ | ⟨k, hk⟩ | hmember | hrule
  · refine (onNewEvent_discussion (fun w hw => hw.discussion) hroom ht).imp ?_
    rintro _ op (hq | ⟨user, room, rfl⟩)
    · exact .inl hq
    · exact .inr ⟨_, .inl ⟨user, room, rfl⟩, rfl⟩
  · obtain ⟨hroom, ht, -⟩ := hk
    cases k with
    | joinRule =>
        rw [onNewEvent_joinRules ht, hroom]
        refine (chatType_returns (V := fun v => v ≠ .str channelTypeName)
          fun w hw => hw.discussion).obeys hquiet fun h v hv => ?_
        rw [if_neg fun h => hv h.1]
        exact trivial
    | historyVisibility =>
        rw [onNewEvent_historyVisibility ht]
        exact trivial
  · obtain ⟨user, b, hroom, -, -, hserver, hask⟩ := memberChange_cases hmember
    rw [onNewEvent_access hserver hask]
    refine (chatType_returns (V := fun v => v = .str channelTypeName)
      fun w hw => hw.channel).obeys hquiet ?_
    rintro h _ rfl
    rw [if_pos rfl]
    exact obeys_background (.inr ⟨_, .inr (.inl ⟨user, b, hask, rfl⟩), rfl⟩)
  · obtain ⟨hroom, ht, -⟩ := ruleChange_cases hrule
    rw [onNewEvent_joinRules ht, hroom]
    refine (chatType_returns (V := fun _ => True) fun _ _ => trivial).obeys hquiet
      fun h v _ => ?_
    split
    · rename_i hp
      exact obeys_background (.inr ⟨_, .inr (.inr ⟨hroom, ht, _, if_pos hp.2, rfl⟩), rfl⟩)
    · exact trivial

theorem answers_linked {op : Op} {r : Option (Res op)}
    (h : answers (Pair roles C D owner) op r) : answers (Linked C D owner) op r := by
  cases op with
  | stateEvent room type => exact h.imp fun w => And.imp (fun hw => hw.toLinked) id
  | userRole user => exact h.imp fun w => And.imp (fun hw => hw.toLinked) id
  | _ => exact trivial

/-- Events that create no room and link none leave the pair as it is. -/
theorem Pair.persist {w w' : World} (hw : Pair roles C D owner w) {e : Event}
    (hr : w'.rooms = w.rooms.persist e) (hroles : w'.roles = w.roles) (hc : e.type ≠ createState)
    (hl : e.type ≠ channelDiscussionState) : Pair roles C D owner w' :=
  ⟨hw.toLinked.persist hr hc hl, hroles.trans hw.roles⟩

section Ops

variable {w : World} {job : Job} {op : Op}

/-- What an operation of such a run is. -/
theorem agreementOps_cases (hp : agreementOps C D owner job op) : op.quiet = true ∨
    (∃ job', op = .background job') ∨
    (∃ c rule, ∃ k : Setting, job = .syncDiscussionPrivacy c rule ∧
      op = .sendEvent (k.write D owner rule)) ∨
    ∃ c user b hosts, job = accessJob c user b ∧
      op = .updateRoomMembership owner user (.str D) (accessAction b) hosts := by
  cases job with
  | onNewEvent e =>
      rcases hp with hq | ⟨job', -, rfl⟩
      · exact .inl hq
      · exact .inr (.inl ⟨job', rfl⟩)
  | onChannelJoin c user =>
      rcases hp with hq | ⟨hosts, rfl⟩
      · exact .inl hq
      · exact .inr (.inr (.inr ⟨c, user, true, hosts, rfl, rfl⟩))
  | onChannelLeave c user =>
      rcases hp with hq | rfl
      · exact .inl hq
      · exact .inr (.inr (.inr ⟨c, user, false, none, rfl, rfl⟩))
  | syncDiscussionPrivacy c rule =>
      rcases hp with hq | ⟨k, rfl⟩
      · exact .inl hq
      · exact .inr (.inr (.inl ⟨c, rule, k, rfl, rfl⟩))
  | muteForSubscriber user room => exact .inl hp
  | _ => exact hp.elim

/-- The event that an operation of such a run creates. -/
theorem createdEvent_agrees {e : Event} (hp : agreementOps C D owner job op)
    (he : createdEvent host w op = some e) : e.roomId = D ∧ (e.type = py "m.room.member" ∨
      ∃ k : Setting, e.type = k.type ∧ e.stateKey = some []) := by
  rcases agreementOps_cases hp with hq | ⟨job', rfl⟩ | ⟨c, rule, k, -, rfl⟩ |
    ⟨c, user, b, hosts, -, rfl⟩
  · cases op with
    | updateRoomMembership sender target room action hosts => cases hq
    | sendEvent d => cases hq
    | _ => cases he
  · cases he
  · obtain ⟨hroom, ht, hkey, -⟩ := createdEvent_write he
    exact ⟨hroom, .inr ⟨k, ht, hkey⟩⟩
  · obtain ⟨hroom, ht, -⟩ := createdEvent_membership he
    exact ⟨(Json.str.inj hroom).symm, .inl ht⟩

theorem type_of_created {e : Event} (he : e.type = py "m.room.member" ∨
    ∃ k : Setting, e.type = k.type ∧ e.stateKey = some []) :
    e.type ≠ createState ∧ e.type ≠ channelDiscussionState ∧ e.type ≠ topologyState := by
  rcases he with ht | ⟨k, ht, -⟩
  · rw [ht]
    decide
  · rw [ht]
    cases k <;> decide

theorem pair_op (hw : Pair roles C D owner w) (hp : agreementOps C D owner job op) (raises : Bool) :
    Pair roles C D owner (perform channelSync host w op raises).1 := by
  have hroles := perform_roles channelSync host w op raises
  rcases perform_cases channelSync host w op raises with ⟨hr, -⟩ | ⟨e, he, hr, -⟩
  · exact ⟨hw.toLinked.of_rooms_eq hr, hroles.trans hw.roles⟩
  · obtain ⟨hc, hl, -⟩ := type_of_created (createdEvent_agrees hp he).2
    exact hw.persist hr hroles hc hl

/-- The jobs that an await of such a run starts. -/
theorem jobs_agree {raises : Bool} (hne : C ≠ D) (hj : agreementJobs C D job)
    (hp : agreementOps C D owner job op) {job' : Job}
    (hj' : job' ∈ (perform channelSync host w op raises).2.2) : agreementJobs C D job' := by
  rcases perform_cases channelSync host w op raises with ⟨-, hb⟩ | ⟨e, he, -, hjobs⟩
  · obtain rfl := hb job' hj'
    cases job with
    | onNewEvent e =>
        rcases hp with hq | ⟨job', hstarted, hop⟩
        · cases hq
        · obtain rfl := Synapse.Op.background.inj hop
          rcases hstarted with ⟨user, room, rfl⟩ | ⟨user, b, hask, rfl⟩ | ⟨-, -, rule, -, rfl⟩
          · exact trivial
          · cases b with
            | false => exact rfl
            | true =>
                obtain ⟨hroom, ht, hkey, -⟩ := askOf_newEvent hask
                rcases hj with ⟨hD, -⟩ | ⟨k, hD, -⟩ | hmember | hrule
                · exact absurd (hroom.symm.trans hD) hne
                · exact absurd (hroom.symm.trans hD) hne
                · obtain ⟨user', _, -, -, hkey', hserver, -⟩ := memberChange_cases hmember
                  obtain rfl := Option.some.inj (hkey.symm.trans hkey')
                  exact ⟨rfl, hserver⟩
                · rw [(ruleChange_cases hrule).2.1] at ht
                  exact absurd ht (by decide)
          · exact rfl
    | onChannelJoin c user => rcases hp with hp | ⟨hosts, hp⟩ <;> cases hp
    | onChannelLeave c user => rcases hp with hp | hp <;> cases hp
    | syncDiscussionPrivacy c rule => rcases hp with hp | ⟨k, hp⟩ <;> cases hp
    | muteForSubscriber user room => cases hp
    | _ => exact hp.elim
  · rw [hjobs] at hj'
    obtain rfl := List.mem_singleton.1 hj'
    obtain ⟨hroom, ht | ⟨k, ht, hkey⟩⟩ := createdEvent_agrees hp he
    · exact .inl ⟨hroom, ht⟩
    · exact .inr (.inl ⟨k, hroom, ht, hkey⟩)

/-- What an await leaves alone: the rule of the channel and its members, and whether the discussion
room is hidden. -/
theorem frame_op (host : PyStr) (w : World) (hne : C ≠ D) (hp : agreementOps C D owner job op)
    (raises : Bool) :
    World.joinRule (perform channelSync host w op raises).1 C = w.joinRule C ∧
      (perform channelSync host w op raises).1.usersIn (.str C) .join = w.usersIn (.str C) .join ∧
      World.hidden D (perform channelSync host w op raises).1 = w.hidden D := by
  rcases perform_cases channelSync host w op raises with ⟨hr, -⟩ | ⟨e, he, hr, -⟩
  · unfold World.joinRule World.usersIn World.hidden
    rw [hr]
    exact ⟨rfl, rfl, rfl⟩
  · obtain ⟨hroom, htype⟩ := createdEvent_agrees hp he
    have hroom : e.roomId ≠ C := fun h => hne (h.symm.trans hroom)
    unfold World.joinRule World.usersIn World.hidden
    dsimp only
    rw [hr, Rooms.persist_state_of_ne _ _ _ _ _ fun h => hroom h.1,
      Rooms.usersWith_persist_of_ne _ _ _ _ fun h => hroom h.1,
      Rooms.persist_state_of_ne _ _ _ _ _ fun h => (type_of_created htype).2.2 h.2.1]
    exact ⟨rfl, rfl, rfl⟩

end Ops

theorem Handles.read {s : State} {i : ℕ} {raises : Bool} {o : ℕ} {job : Job} {op : Op}
    {kont : Option (Res op) → Code Unit} {room : Json} {type : PyStr}
    (hc : Handles host C D s (.step i raises))
    (hi : s.threads[i]? = some ⟨o, job, .await op kont⟩) (hop : op = .stateEvent room type) :
    (perform channelSync host s.world op raises).2.1.isSome = true := by
  subst hop
  simp only [Handles, hi] at hc
  exact hc.resolve_right fun h => h

/-- **The law holds of every run in question.** -/
theorem agreement_keeps :
    (system host).Keeps (Handles host C D) (agreement roles C D owner) where
  code := by
    intro es o job hj
    cases job with
    | onNewEvent e => exact onNewEvent_agrees hj
    | onChannelJoin c user =>
        obtain ⟨rfl, hserver⟩ := hj
        exact onChannelJoin_invites (fun w hw => hw.link) (fun w hw => hw.creator) hserver
    | onChannelLeave c user =>
        obtain rfl : c = C := hj
        exact onChannelLeave_kicks (fun w hw => hw.link) fun w hw => hw.creator
    | syncDiscussionPrivacy c rule =>
        obtain rfl : c = C := hj
        exact (syncDiscussionPrivacy_obeys rule).weaken fun _ _ => answers_linked
    | muteForSubscriber user room => exact (muteRoom_returns []).mono fun _ _ _ => trivial
    | _ => exact hj.elim
  later := by
    intro es o job e hj _
    exact hj
  event := by
    intro s e hw hc
    have hw : Pair roles C D owner s.world := hw
    cases e with
    | newEvent e =>
        have htype : e.type ≠ createState ∧ e.type ≠ channelDiscussionState := by
          rcases hc.2 with hc | hc
          · obtain ⟨_, _, -, ht, -⟩ := memberChange_cases hc
            rw [ht]
            decide
          · rw [(ruleChange_cases hc).2.1]
            decide
        refine ⟨hw.persist rfl rfl htype.1 htype.2, fun j hj => ?_⟩
        obtain rfl := List.mem_singleton.1 hj
        exact .inr (.inr hc.2)
    | emptied room => exact hc.elim
    | setRole user data => exact hc.elim
    | restart => exact hc.elim
  op := by
    intro s i raises o job op k hs hc hi hp
    have hw : Pair roles C D owner s.world := hs.world
    have hp : agreementOps C D owner job op := hp
    have hj : agreementJobs C D job := (hs.jobs _ (List.mem_of_getElem? hi)).2
    refine ⟨pair_op hw hp raises, ?_, fun j' hj' => jobs_agree hw.ne hj hp hj'⟩
    exact answers_perform hw fun room type hop => hc.read hi hop

end Law

/-! ### The invariant -/

/-- The value of a setting of a room. -/
def Setting.value (w : World) (room : RoomId) : Setting → Json
  | .joinRule => w.joinRule room
  | .historyVisibility => w.historyVisibility room

/-- The value it should have for a channel with the given rule. -/
def Setting.wanted (rule : Json) : Setting → Json
  | .joinRule => .str (discussionSettingsFor rule).joinRule
  | .historyVisibility => .str (discussionSettingsFor rule).historyVisibility

/-- The write of a setting, or the start of the job that makes it. -/
def writes (C D : RoomId) (owner : UserId) (rule : Json) (k : Setting) (op : Op) : Prop :=
  op = .background (.syncDiscussionPrivacy C rule) ∨ op = .sendEvent (k.write D owner rule)

/-- The invite of a user, or the start of the job that makes it. -/
def invites (C D : RoomId) (owner user : UserId) (op : Op) : Prop :=
  op = .background (.onChannelJoin C user) ∨
    ∃ hosts, op = .updateRoomMembership owner user (.str D) .invite hosts

/-- A job that has not ended is about what the channel is now. -/
def Current (C : RoomId) (w : World) : Job → Prop
  | .onNewEvent e =>
      (∀ user, askOf C user (.newEvent e) = some false → user ∉ w.usersIn (.str C) .join) ∧
        (e.roomId = C → e.type = joinRulesState → joinRuleOf (some e.content) = w.joinRule C)
  | .onChannelLeave _ user => user ∉ w.usersIn (.str C) .join
  | .syncDiscussionPrivacy _ rule => rule = w.joinRule C
  | _ => True

/-- What holds in every state of a run in question. -/
structure Agrees (host : PyStr) (roles : UserId → Option Dict) (C D : RoomId) (owner : UserId)
    (s : State) : Prop where
  hidden : s.world.hidden D = .bool true
  settings : ∀ k : Setting, k.value s.world D = k.wanted (s.world.joinRule C) ∨
    Due (fun _ => True) (answers (Linked C D owner)) (writes C D owner (s.world.joinRule C) k) s
  access : isPublicChannel (s.world.joinRule C) = false →
    ∀ user ∈ s.world.usersIn (.str C) .join, human host roles user = true →
      s.world.listed D user ∨
        Due (fun _ => True) (answers (Closed roles C D owner)) (invites C D owner user) s
  current : ∀ t ∈ s.threads, t.rest.Ended ∨ Current C s.world t.job

section Invariant

variable {host : PyStr} {roles : UserId → Option Dict} {C D : RoomId} {owner : UserId}
  {s t : State} {w w' : World} {e : Event} {user : UserId}

theorem aligned_iff : w.Aligned C D ↔ ∀ k : Setting, k.value w D = k.wanted (w.joinRule C) := by
  constructor
  · rintro ⟨hrule, hvisibility⟩ k
    cases k with
    | joinRule => exact hrule
    | historyVisibility => exact hvisibility
  · exact fun h => ⟨h .joinRule, h .historyVisibility⟩

theorem Setting.value_congr (k : Setting) (h : settingOf w' D k = settingOf w D k) :
    k.value w' D = k.value w D := by
  cases k with
  | joinRule => exact congrArg joinRuleOf h
  | historyVisibility => exact congrArg (fun c => (c.getD []).get "history_visibility") h

theorem Setting.value_content (k : Setting) {rule : Json}
    (h : settingOf w D k = some (k.content rule)) : k.value w D = k.wanted rule := by
  cases k with
  | joinRule => exact congrArg joinRuleOf h
  | historyVisibility => exact congrArg (fun c => (c.getD []).get "history_visibility") h

/-- The settings depend on the openness of the rule only. -/
theorem Setting.wanted_congr {rule rule' : Json} (k : Setting)
    (h : isPublicChannel rule = isPublicChannel rule') : k.wanted rule = k.wanted rule' := by
  cases k with
  | joinRule =>
      exact congrArg (fun s : Settings => Json.str s.joinRule) (discussionSettingsFor_congr h)
  | historyVisibility =>
      exact congrArg (fun s : Settings => Json.str s.historyVisibility)
        (discussionSettingsFor_congr h)

/-- When all jobs have ended there is nothing to migrate. -/
theorem Agrees.migrated (hs : Agrees host roles C D owner s) (hroles : s.world.roles = roles)
    (hidle : Idle s) : s.world.Migrated host C D = true := by
  refine migrated_iff.2 ⟨aligned_iff.2 fun k => ?_, hs.hidden, fun hclosed user hmem hhuman => ?_⟩
  · exact (hs.settings k).resolve_right hidle.not_due
  · rw [hroles] at hhuman
    exact (hs.access hclosed user hmem hhuman).resolve_right hidle.not_due

theorem listed_congr (h : w'.rooms = w.rooms) : w'.listed D user ↔ w.listed D user := by
  unfold World.listed World.usersIn
  rw [h]

theorem listed_persist (h : w'.rooms = w.rooms.persist e)
    (hne : ¬(e.roomId = D ∧ e.type = py "m.room.member")) :
    w'.listed D user ↔ w.listed D user := by
  unfold World.listed World.usersIn
  dsimp only
  rw [h, Rooms.usersWith_persist_of_ne _ _ _ _ hne, Rooms.usersWith_persist_of_ne _ _ _ _ hne]

/-- What an event of the channel leaves alone: the settings and the list of the discussion room. -/
theorem frame_event (hne : C ≠ D) (hroom : e.roomId = C) (hr : w'.rooms = w.rooms.persist e) :
    (∀ k : Setting, k.value w' D = k.value w D) ∧ w'.hidden D = w.hidden D ∧
      ∀ u, w'.listed D u ↔ w.listed D u := by
  have hD : e.roomId ≠ D := hroom ▸ hne
  have hstate : ∀ type, w'.rooms.state D type [] = w.rooms.state D type [] := by
    intro type
    rw [hr, Rooms.persist_state_of_ne _ _ _ _ _ fun h => hD h.1]
  refine ⟨fun k => Setting.value_congr k ?_, ?_, fun u => listed_persist hr fun h => hD h.1⟩
  · unfold settingOf
    rw [hstate]
  · unfold World.hidden
    rw [hstate]

/-- After an event that arrives when all jobs have ended, only its callback has not ended. -/
theorem current_event (hidle : Idle s) (h : (system host).step s (.event (.newEvent e)) = some t)
    (hcurrent : Current C t.world (.onNewEvent e)) :
    ∀ u ∈ t.threads, u.rest.Ended ∨ Current C t.world u.job := by
  intro u hu
  have hthreads : t.threads =
      s.threads ++ [⟨s.events.length, .onNewEvent e, onNewEvent host e⟩] := by
    obtain rfl := Option.some.inj h
    rfl
  rw [hthreads] at hu
  rcases List.mem_append.1 hu with hu | hu
  · exact .inl (hidle u hu)
  · obtain rfl := List.mem_singleton.1 hu
    exact .inr hcurrent

/-- A member of the channel comes or goes. -/
theorem Agrees.member (hs : Agrees host roles C D owner s) (hw : Pair roles C D owner s.world)
    (hidle : Idle s) (he : memberChange C e = true)
    (h : (system host).step s (.event (.newEvent e)) = some t) : Agrees host roles C D owner t := by
  obtain ⟨user, b, hroom, ht, hkey, hserver, hask⟩ := memberChange_cases he
  have hrooms : t.world.rooms = s.world.rooms.persist e := by
    obtain rfl := Option.some.inj h
    rfl
  obtain ⟨hvalue, hhidden, hlisted⟩ := frame_event hw.ne hroom hrooms
  have hrule : t.world.joinRule C = s.world.joinRule C := by
    unfold World.joinRule
    rw [hrooms, Rooms.persist_state_of_ne]
    rintro ⟨-, htype, -⟩
    rw [ht] at htype
    exact absurd htype (by decide)
  -- who is in the channel afterwards
  have hmembers : ∀ u, u ∈ t.world.usersIn (.str C) .join ↔
      u = user ∧ b = true ∨ u ≠ user ∧ u ∈ s.world.usersIn (.str C) .join := by
    intro u
    show u ∈ t.world.rooms.usersWith C .join ↔ _ ∨ _ ∧ u ∈ s.world.rooms.usersWith C .join
    rw [hrooms, ← hroom]
    rcases (askOf_newEvent hask).2.2.2 with ⟨rfl, hm⟩ | ⟨rfl, hm | hm⟩ <;>
      rw [Rooms.mem_usersWith_persist _ _ _ _ hkey ht hm] <;> simp
  refine ⟨hhidden.trans hs.hidden, fun k => .inl ?_, fun hclosed u hu hhuman => ?_,
    current_event hidle h ⟨fun u hleft => ?_, fun _ htype => ?_⟩⟩
  · rw [hvalue, hrule]
    exact (hs.settings k).resolve_right hidle.not_due
  · rw [hrule] at hclosed
    rcases (hmembers u).1 hu with ⟨rfl, rfl⟩ | ⟨-, hu⟩
    · -- the callback is to start the invite
      refine .inr (Due.arrived h (List.mem_singleton_self _) trivial ?_)
      exact (onNewEvent_asks hserver hask).mono fun _ => .inl
    · exact .inl ((hlisted u).2 ((hs.access hclosed u hu hhuman).resolve_right hidle.not_due))
  · obtain rfl := Option.some.inj ((askOf_newEvent hleft).2.2.1.symm.trans hkey)
    obtain rfl : b = false := Option.some.inj (hask.symm.trans hleft)
    rw [hmembers]
    simp
  · rw [ht] at htype
    exact absurd htype (by decide)

/-- The join rules of the channel change. -/
theorem Agrees.rule (hs : Agrees host roles C D owner s) (hw : Pair roles C D owner s.world)
    (hidle : Idle s) (he : ruleChange C e = true)
    (hcovered : Covered host C D s (.event (.newEvent e)))
    (h : (system host).step s (.event (.newEvent e)) = some t) : Agrees host roles C D owner t := by
  obtain ⟨hroom, ht, hkey⟩ := ruleChange_cases he
  have hrooms : t.world.rooms = s.world.rooms.persist e := by
    obtain rfl := Option.some.inj h
    rfl
  obtain ⟨hvalue, hhidden, hlisted⟩ := frame_event hw.ne hroom hrooms
  have hrule : t.world.joinRule C = joinRuleOf (some e.content) := by
    unfold World.joinRule
    rw [hrooms, ← hroom, ← ht, Rooms.persist_state_self _ _ _ hkey]
    · rfl
    · rw [ht]
      decide
  have hmembers : t.world.usersIn (.str C) .join = s.world.usersIn (.str C) .join := by
    unfold World.usersIn
    dsimp only
    rw [hrooms, Rooms.usersWith_persist_of_ne]
    rintro ⟨-, htype⟩
    rw [ht] at htype
    exact absurd htype (by decide)
  refine ⟨hhidden.trans hs.hidden, fun k => ?_, fun hclosed u hu hhuman => .inl ?_,
    current_event hidle h ⟨fun u hleft => ?_, fun _ _ => hrule.symm⟩⟩
  · rw [hrule]
    by_cases htruthy : (joinRuleOf (some e.content)).truthy = true
    · -- the callback is to start the write
      refine .inr (Due.arrived h (List.mem_singleton_self _) trivial ?_)
      refine (onNewEvent_bound hroom ht ?_).mono fun _ => .inl
      exact ruleOf_newEvent.2 ⟨htruthy, rfl⟩
    · -- no job is started, and the channel was closed before
      have hclosed : isPublicChannel (joinRuleOf (some e.content)) = false := by
        refine Bool.eq_false_iff.2 fun hpublic => htruthy ?_
        rw [of_decide_eq_true hpublic]
        rfl
      have hbefore : isPublicChannel (s.world.joinRule C) = false :=
        Bool.eq_false_iff.2 fun hpublic => htruthy (hcovered ht hpublic hclosed).1
      rw [hvalue, k.wanted_congr (hclosed.trans hbefore.symm)]
      exact .inl ((hs.settings k).resolve_right hidle.not_due)
  · rw [hrule] at hclosed
    rw [hmembers] at hu
    rw [hlisted]
    cases hpublic : isPublicChannel (s.world.joinRule C) with
    | true =>
        rw [← hw.roles] at hhuman
        exact (hcovered ht hpublic hclosed).2 u hu hhuman
    | false => exact (hs.access hpublic u hu hhuman).resolve_right hidle.not_due
  · rw [(askOf_newEvent hleft).2.1] at ht
    exact absurd ht (by decide)

section Step

variable {i : ℕ} {raises : Bool} {o : ℕ} {job : Job} {op : Op}
  {kont : Option (Res op) → Code Unit}

theorem Setting.type_inj {k k' : Setting} (h : k.type = k'.type) : k = k' := by
  cases k <;> cases k' <;> first | rfl | exact absurd h (by decide)

/-- The settings after an await: the same, or it was a write. -/
theorem value_op (hc : Handles host C D s (.step i raises)) (hp : agreementOps C D owner job op)
    (hi : s.threads[i]? = some ⟨o, job, .await op kont⟩) :
    ((∀ k : Setting, k.value (perform channelSync host s.world op raises).1 D =
        k.value s.world D) ∧ ∀ d, op ≠ .sendEvent d) ∨
    ∃ c rule, ∃ k' : Setting, job = .syncDiscussionPrivacy c rule ∧
      op = .sendEvent (k'.write D owner rule) ∧
      ∀ k : Setting, k.value (perform channelSync host s.world op raises).1 D =
        if k = k' then k.wanted rule else k.value s.world D := by
  rcases agreementOps_cases hp with hq | ⟨job', rfl⟩ | ⟨c, rule, k', rfl, rfl⟩ |
    ⟨c, user, b, hosts, -, rfl⟩
  · refine .inl ⟨fun k => k.value_congr (settingOf_congr (perform_quiet hq).1 k), ?_⟩
    rintro d rfl
    cases hq
  · exact .inl ⟨fun k => by rw [perform_background], fun d => by simp⟩
  · refine .inr ⟨c, rule, k', rfl, rfl, fun k => ?_⟩
    simp only [Handles, hi] at hc
    have hsome := hc.resolve_right fun h => h
    obtain ⟨e, he⟩ := created_of_isSome (.inl ⟨_, rfl⟩) hsome
    obtain ⟨hroom, ht, hkey, -, hcontent⟩ := createdEvent_write he
    have hwrite := settingOf_write (k := k) (perform_of_created he hsome).1 hroom ht hkey
    split
    · rename_i hk
      subst hk
      rw [if_pos rfl, hcontent] at hwrite
      exact k.value_content hwrite
    · rename_i hk
      rw [if_neg hk] at hwrite
      exact k.value_congr hwrite
  · refine .inl ⟨fun k => k.value_congr ?_, fun d => by simp⟩
    rcases perform_cases channelSync host s.world
      (.updateRoomMembership owner user (.str D) (accessAction b) hosts) raises
      with ⟨hr, -⟩ | ⟨e, he, hr, -⟩
    · exact settingOf_congr hr k
    · have ht := (createdEvent_membership he).2.1
      unfold settingOf
      rw [hr, Rooms.persist_state_of_ne]
      rintro ⟨-, htype, -⟩
      exact k.type_ne.2.2 (htype.symm.trans ht)

/-- Who is listed after a membership call that has succeeded. -/
theorem listed_call {b : Bool} {hosts : Option (List PyStr)}
    (h : (perform channelSync host w
      (.updateRoomMembership owner user (.str D) (accessAction b) hosts) raises).2.1.isSome = true)
    (u : UserId) :
    World.listed D (perform channelSync host w
        (.updateRoomMembership owner user (.str D) (accessAction b) hosts) raises).1 u ↔
      if u = user then b = true else w.listed D u := by
  obtain ⟨e, he⟩ := created_of_isSome (.inr ⟨_, _, _, _, _, rfl⟩) h
  obtain ⟨hroom, ht, hk, hm, -⟩ := createdEvent_membership he
  have hroom : e.roomId = D := (Json.str.inj hroom).symm
  have hlist : ∀ m, u ∈ (perform channelSync host w
      (.updateRoomMembership owner user (.str D) (accessAction b) hosts)
      raises).1.rooms.usersWith D m ↔
      u = user ∧ m = accessAction b ∨ u ≠ user ∧ u ∈ w.rooms.usersWith D m := by
    intro m
    rw [(perform_of_created he h).1, ← hroom]
    exact Rooms.mem_usersWith_persist _ _ _ _ hk ht hm
  unfold World.listed World.usersIn
  dsimp only
  rw [hlist, hlist]
  cases b <;> by_cases hu : u = user <;> simp [hu, accessAction]

/-- Who is listed after an await: the same, or it was the call for a user. -/
theorem listed_op (hc : Handles host C D s (.step i raises)) (hp : agreementOps C D owner job op)
    (hi : s.threads[i]? = some ⟨o, job, .await op kont⟩) :
    ((∀ u, World.listed D (perform channelSync host s.world op raises).1 u ↔
        s.world.listed D u) ∧
      ∀ sender user room action hosts,
        op ≠ .updateRoomMembership sender user room action hosts) ∨
    ∃ c user b hosts, job = accessJob c user b ∧
      op = .updateRoomMembership owner user (.str D) (accessAction b) hosts ∧
      ∀ u, World.listed D (perform channelSync host s.world op raises).1 u ↔
        if u = user then b = true else s.world.listed D u := by
  rcases agreementOps_cases hp with hq | ⟨job', rfl⟩ | ⟨c, rule, k', rfl, rfl⟩ |
    ⟨c, user, b, hosts, rfl, rfl⟩
  · refine .inl ⟨fun u => listed_congr (perform_quiet hq).1, ?_⟩
    rintro sender user room action hosts rfl
    cases hq
  · exact .inl ⟨fun u => by rw [perform_background], fun _ _ _ _ _ => by simp⟩
  · refine .inl ⟨fun u => ?_, fun _ _ _ _ _ => by simp⟩
    simp only [Handles, hi] at hc
    have hsome := hc.resolve_right fun h => h
    obtain ⟨e, he⟩ := created_of_isSome (.inl ⟨_, rfl⟩) hsome
    refine listed_persist (perform_of_created he hsome).1 ?_
    rintro ⟨-, ht⟩
    exact k'.type_ne.2.2 ((createdEvent_write he).2.1.symm.trans ht)
  · refine .inr ⟨c, user, b, hosts, rfl, rfl, fun u => ?_⟩
    simp only [Handles, hi] at hc
    cases hans : (perform channelSync host s.world
        (.updateRoomMembership owner user (.str D) (accessAction b) hosts) raises).2.1 with
    | none =>
        -- the call would have changed nothing
        rw [hans] at hc
        have hsame := hc.resolve_left (by simp)
        rw [listed_congr (perform_rooms_of_none hans)]
        split
        · rename_i hu
          subst hu
          cases b <;> simpa [redundant, accessAction] using hsame
        · exact Iff.rfl
    | some a =>
        exact listed_call (by rw [hans]; rfl) u

/-- What is so of the channel stays so in an await. -/
theorem current_op {job' : Job} (hne : C ≠ D) (hp : agreementOps C D owner job op)
    (h : Current C w job') : Current C (perform channelSync host w op raises).1 job' := by
  obtain ⟨hrule, hmembers, -⟩ := frame_op host w hne hp raises
  unfold Current
  rw [hrule, hmembers]
  exact h

/-- A job that an await starts is about what the channel is now. -/
theorem current_started {job' : Job} (hne : C ≠ D) (hp : agreementOps C D owner job op)
    (h : Current C w job) (hj' : job' ∈ (perform channelSync host w op raises).2.2) :
    Current C (perform channelSync host w op raises).1 job' := by
  refine current_op hne hp ?_
  rcases perform_cases channelSync host w op raises with ⟨-, hb⟩ | ⟨e, he, -, hjobs⟩
  · obtain rfl := hb job' hj'
    cases job with
    | onNewEvent e =>
        rcases hp with hq | ⟨job', hstarted, hop⟩
        · cases hq
        · obtain rfl := Synapse.Op.background.inj hop
          rcases hstarted with ⟨user, room, rfl⟩ | ⟨user, b, hask, rfl⟩ | ⟨hroom, ht, rule, hr, rfl⟩
          · exact trivial
          · cases b with
            | true => exact trivial
            | false => exact h.1 user hask
          · exact (ruleOf_newEvent.1 hr).2.symm.trans (h.2 hroom ht)
    | onChannelJoin c user => rcases hp with hp | ⟨hosts, hp⟩ <;> cases hp
    | onChannelLeave c user => rcases hp with hp | hp <;> cases hp
    | syncDiscussionPrivacy c rule => rcases hp with hp | ⟨k, hp⟩ <;> cases hp
    | muteForSubscriber user room => cases hp
    | _ => exact hp.elim
  · -- the callback of an event of the discussion room
    rw [hjobs] at hj'
    obtain rfl := List.mem_singleton.1 hj'
    have hroom : e.roomId ≠ C := fun h => hne (h.symm.trans (createdEvent_agrees hp he).1)
    exact ⟨fun user hask => absurd (askOf_newEvent hask).1 hroom, fun h => absurd h hroom⟩

variable (hs : System.Lawful (agreement roles C D owner) s) (hv : Agrees host roles C D owner s)
  (hc : Handles host C D s (.step i raises))
  (hi : s.threads[i]? = some ⟨o, job, .await op kont⟩)
  (h : (system host).step s (.step i raises) = some t)

include hs hv hc hi h

/-- A setting is right, or will be. -/
theorem settings_kept (k : Setting) : k.value t.world D = k.wanted (t.world.joinRule C) ∨
    Due (fun _ => True) (answers (Linked C D owner)) (writes C D owner (t.world.joinRule C) k)
      t := by
  have hw : Pair roles C D owner s.world := hs.world
  have hp : agreementOps C D owner job op := (hs.threads i _ hi).1
  obtain ⟨hworld, -, -⟩ := System.stepped hi h
  rw [hworld]
  change k.value (perform channelSync host s.world op raises).1 D =
    k.wanted (World.joinRule (perform channelSync host s.world op raises).1 C) ∨
      Due _ _
        (writes C D owner (World.joinRule (perform channelSync host s.world op raises).1 C) k) t
  rw [(frame_op host s.world hw.ne hp raises).1]
  -- a write is for the rule that the channel has
  have hwrite : ∀ c rule, job = .syncDiscussionPrivacy c rule → rule = s.world.joinRule C := by
    rintro c rule rfl
    exact (hv.current _ (List.mem_of_getElem? hi)).resolve_left fun h => h
  rcases hv.settings k with hval | hdue
  · left
    rcases value_op hc hp hi with ⟨hsame, -⟩ | ⟨c, rule, k', hjob, -, hvalue⟩
    · rw [hsame, hval]
    · rw [hvalue]
      split
      · rw [hwrite c rule hjob]
      · exact hval
  · rcases hdue.op hi h with hdue | ⟨-, (rfl | hop) | hno⟩
    · exact .inr hdue
    · have hstarted : Job.syncDiscussionPrivacy C (s.world.joinRule C) ∈ (perform channelSync host
          s.world (.background (.syncDiscussionPrivacy C (s.world.joinRule C))) raises).2.2 := by
        rw [perform_background]
        exact List.mem_singleton_self _
      refine .inr (Due.started hi h hstarted trivial ?_)
      exact (syncDiscussionPrivacy_bound (s.world.joinRule C) k).mono fun _ => .inr
    · left
      rcases value_op hc hp hi with ⟨-, hne⟩ | ⟨c, rule, k', hjob, hop', hvalue⟩
      · exact absurd hop (hne _)
      · have hk : k = k' := by
          refine Setting.type_inj ?_
          exact congrArg EventDict.type (Synapse.Op.sendEvent.inj (hop.symm.trans hop'))
        rw [hvalue, if_pos hk, hwrite c rule hjob]
    · have hans := (agreement_keeps.op s i raises o job op kont hs hc hi hp).2.1
      exact absurd (answers_linked hans) hno

/-- Who is to be in the discussion room is listed there, or will be. -/
theorem access_kept (hclosed : isPublicChannel (t.world.joinRule C) = false) (u : UserId)
    (hu : u ∈ t.world.usersIn (.str C) .join) (hhuman : human host roles u = true) :
    t.world.listed D u ∨
      Due (fun _ => True) (answers (Closed roles C D owner)) (invites C D owner u) t := by
  have hw : Pair roles C D owner s.world := hs.world
  have hp : agreementOps C D owner job op := (hs.threads i _ hi).1
  have hkeeps := agreement_keeps.op s i raises o job op kont hs hc hi hp
  obtain ⟨hworld, -, -⟩ := System.stepped hi h
  obtain ⟨hrule, hmembers, -⟩ := frame_op host s.world hw.ne hp raises
  rw [hworld] at hclosed hu ⊢
  replace hclosed : isPublicChannel (s.world.joinRule C) = false := by
    rw [← hclosed]
    exact congrArg isPublicChannel hrule.symm
  replace hu : u ∈ s.world.usersIn (.str C) .join := hmembers ▸ hu
  -- whoever is removed is not a member of the channel
  have hkick : ∀ c, job = accessJob c u false → u ∉ s.world.usersIn (.str C) .join := by
    rintro c rfl
    exact (hv.current _ (List.mem_of_getElem? hi)).resolve_left fun h => h
  rcases hv.access hclosed u hu hhuman with hlisted | hdue
  · left
    rcases listed_op hc hp hi with ⟨hsame, -⟩ | ⟨c, user, b, hosts, hjob, -, hlist⟩
    · exact (hsame u).2 hlisted
    · refine (hlist u).2 ?_
      split
      · rename_i huser
        subst huser
        cases b with
        | true => rfl
        | false => exact absurd hu (hkick c hjob)
      · exact hlisted
  · rcases hdue.op hi h with hdue | ⟨-, (rfl | ⟨hosts, hop⟩) | hno⟩
    · exact .inr hdue
    · have hstarted : Job.onChannelJoin C u ∈
          (perform channelSync host s.world (.background (.onChannelJoin C u)) raises).2.2 := by
        rw [perform_background]
        exact List.mem_singleton_self _
      have hserver : (split1 (codePoint ':') u).2.isSome = true := (hkeeps.2.2 _ hstarted).2
      refine .inr (Due.started hi h hstarted trivial ?_)
      exact (onChannelJoin_bound hhuman hserver).mono fun _ => .inr
    · left
      rcases listed_op hc hp hi with ⟨-, hne⟩ | ⟨c, user, b, hosts, hjob, hop', hlist⟩
      · exact absurd hop (hne _ _ _ _ _)
      · obtain ⟨-, rfl, -, haction, -⟩ := Synapse.Op.updateRoomMembership.inj (hop.symm.trans hop')
        refine (hlist u).2 ?_
        rw [if_pos rfl]
        cases b with
        | true => rfl
        | false => cases haction
    · refine absurd (answers_perform ⟨hw.toLinked, hclosed, hw.roles⟩ ?_) hno
      exact fun room type hop => hc.read hi hop

/-- **Every await keeps the invariant.** -/
theorem Agrees.performed : Agrees host roles C D owner t := by
  have hw : Pair roles C D owner s.world := hs.world
  have hp : agreementOps C D owner job op := (hs.threads i _ hi).1
  obtain ⟨hworld, -, hthreads⟩ := System.stepped hi h
  refine ⟨?_, settings_kept hs hv hc hi h, access_kept hs hv hc hi h, fun u hu => ?_⟩
  · rw [hworld]
    exact (frame_op host s.world hw.ne hp raises).2.2.trans hv.hidden
  · rw [hworld]
    have hold : ∀ v ∈ s.threads, v.rest.Ended ∨
        Current C (perform channelSync host s.world op raises).1 v.job :=
      fun v hv' => (hv.current v hv').imp id (current_op hw.ne hp)
    have hjob := (hv.current _ (List.mem_of_getElem? hi)).resolve_left fun h => h
    rw [hthreads] at hu
    rcases List.mem_append.1 hu with hu | hu
    · rcases List.mem_or_eq_of_mem_set hu with hu | rfl
      · exact hold u hu
      · exact .inr (current_op hw.ne hp hjob)
    · obtain ⟨j', hj', rfl⟩ := System.mem_fork hu
      exact .inr (current_started hw.ne hp hjob hj')

end Step

/-- **Every move keeps the invariant.** -/
theorem Agrees.step {a : Act} (hs : System.Lawful (agreement roles C D owner) s)
    (hv : Agrees host roles C D owner s) (hc : Handles host C D s a)
    (hcovered : Covered host C D s a) (h : (system host).step s a = some t) : Agrees host roles C D owner t := by
  rcases System.step_cases h with ⟨ev, rfl, -⟩ | ⟨i, raises, o, job, op, kont, rfl, hi, -⟩
  · cases ev with
    | newEvent e =>
        rcases hc.2 with he | he
        · exact hv.member hs.world hc.1 he h
        · exact hv.rule hs.world hc.1 he hcovered h
    | emptied room => exact hc.elim
    | setRole user data => exact hc.elim
    | restart => exact hc.elim
  · exact Agrees.performed hs hv hc hi h

end Invariant

/-- **The callbacks agree with the migration.**  Where there is nothing to migrate there is nothing
to migrate after any events of the channel, each processed to the end, that are covered. -/
theorem stays_migrated {host : PyStr} {C D : RoomId} {owner : UserId} {w₀ : World} {s : State}
    {as : List Act} (hw : Linked C D owner w₀) (hmigrated : w₀.Migrated host C D = true)
    (h : Exec (system host).step (fun s a => Handles host C D s a ∧ Covered host C D s a)
      (start w₀) as s)
    (hidle : Idle s) : s.world.Migrated host C D = true := by
  obtain ⟨haligned, hhidden, haccess⟩ := migrated_iff.1 hmigrated
  have hstart : Agrees host w₀.roles C D owner (start w₀) := by
    refine ⟨hhidden, fun k => .inl (aligned_iff.1 haligned k), fun hclosed u hu hhuman => ?_,
      fun u hu => ?_⟩
    · exact .inl (haccess hclosed u hu hhuman)
    · cases hu
  have hinv : System.Lawful (agreement w₀.roles C D owner) s ∧
      Agrees host w₀.roles C D owner s := by
    refine h.invariant (I := fun s => System.Lawful (agreement w₀.roles C D owner) s ∧
      Agrees host w₀.roles C D owner s) ⟨System.lawful_start ⟨hw, rfl⟩, hstart⟩ ?_
    rintro s a t ⟨hs, hv⟩ ⟨hc, hcovered⟩ hstep
    exact ⟨agreement_keeps.lawful_step hs hc hstep, hv.step hs hc hcovered hstep⟩
  have hpair : Pair w₀.roles C D owner s.world := hinv.1.world
  exact hinv.2.migrated hpair.roles hidle

/-! ### The members of a channel that is closed -/

/-- An open channel `!c` of `@ann:h` with the member `@bob:h`, and its discussion room `!d` with
`@ann:h` and the given members. -/
def openWorld (discussed : List (PyStr × UserId × Membership)) : World :=
  worldOf
    [("!c", createState, ⟨"@ann:h", [(chatTypeKey, .str channelTypeName)]⟩),
      ("!c", channelDiscussionState, ⟨"@ann:h", [("room_id", .str "!d")]⟩),
      ("!c", joinRulesState, ⟨"@ann:h", [("join_rule", .str "public")]⟩),
      ("!d", createState, ⟨"@ann:h", [(chatTypeKey, .str discussionChatType)]⟩),
      ("!d", joinRulesState, ⟨"@ann:h", [("join_rule", .str "public")]⟩),
      ("!d", historyVisibilityState, ⟨"@ann:h", [("history_visibility", .str "world_readable")]⟩),
      ("!d", topologyState, ⟨"@ann:h", [("hidden", .bool true)]⟩)]
    (("!c", "@ann:h", .join) :: ("!c", "@bob:h", .join) :: ("!d", "@ann:h", .join) :: discussed)

theorem openWorld_linked (discussed : List (PyStr × UserId × Membership)) :
    Linked "!c" "!d" "@ann:h" (openWorld discussed) where
  channel := rfl
  link := rfl
  creator := rfl
  discussion := by
    change Json.str discussionChatType ≠ .str channelTypeName
    decide

/-- The channel is closed, and all that follows is done. -/
def channelCloses : List Act :=
  [.event (.newEvent ⟨"$1", joinRulesState, "!c", "@ann:h", some [],
      [("join_rule", .str "invite")], none⟩)] ++
    List.replicate 2 (.step 0 false : Act) ++ List.replicate 4 (.step 1 false : Act) ++
    [.step 2 false]

/-- Where `@bob:h` is in the discussion room there is nothing to migrate afterwards. -/
theorem closed_with_members_in :
    ∃ s, Exec (system "h").step
        (fun s a => Handles "h" "!c" "!d" s a ∧ Covered "h" "!c" "!d" s a)
        (start (openWorld [("!d", "@bob:h", .join)])) channelCloses s ∧ Idle s ∧
      s.world.joinRule "!c" = .str "invite" ∧ s.world.Migrated "h" "!c" "!d" = true := by
  obtain ⟨s, hrun, hidle, hrule⟩ := exists_exec_of_runs (f := (system "h").step)
    (C := fun s a => Handles "h" "!c" "!d" s a ∧ Covered "h" "!c" "!d" s a)
    (s := start (openWorld [("!d", "@bob:h", .join)])) (l := channelCloses)
    (p := fun s => Idle s ∧ s.world.joinRule "!c" = .str "invite") (by decide +kernel)
  exact ⟨s, hrun, hidle, hrule, stays_migrated (openWorld_linked _) (by decide +kernel) hrun hidle⟩

/-- **A channel is closed on the members who are not in the discussion:** there was nothing to
migrate, all that follows is done and nothing fails, and now the migration would invite `@bob:h`. -/
theorem closed_leaves_members_out :
    Linked "!c" "!d" "@ann:h" (openWorld []) ∧ (openWorld []).Migrated "h" "!c" "!d" = true ∧
    ∃ s, Exec (system "h").step (Handles "h" "!c" "!d") (start (openWorld [])) channelCloses s ∧
      Idle s ∧ s.world.Migrated "h" "!c" "!d" = false ∧
      (s.world.snapshot "h" "!c" "!d").map (fun s => (planDiscussionMigration s).invite) =
        some [py "@bob:h"] :=
  ⟨openWorld_linked [], by decide +kernel, exists_exec_of_runs (by decide +kernel)⟩

end ChannelSync
end Liza
