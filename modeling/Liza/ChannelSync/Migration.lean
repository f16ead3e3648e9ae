/-
# The migration of a discussion room converges

`_migrate_one_channel` takes a snapshot of a channel and its discussion room, makes a plan of what
is to be changed and makes the writes of the plan one after the other; a write that fails does not
stop the others.  The migration runs at every start, so what matters is the plan of the next one:
whatever writes have succeeded, it consists of the others (`migration_converges`).

The snapshots of the statement are arbitrary.  On the homeserver, the writes that a migration makes
are those of the plan, and the snapshot that follows gives the plan that was said
(`migrateOneChannel_eval`, `migration_converges_on`).
-/

import Liza.ChannelSync.Agreement

set_option autoImplicit false

namespace Liza
namespace ChannelSync

open Lib Synapse

/-- A write of a migration. -/
inductive Write where
  | joinRule (rule : PyStr)
  | historyVisibility (visibility : PyStr)
  | hidden
  | invite (user : UserId)
deriving DecidableEq

/-- The writes of a plan, in the order in which they are made. -/
def Plan.writes (p : Plan) : List Write :=
  (p.setJoinRule.map Write.joinRule).toList ++
    (p.setHistoryVisibility.map Write.historyVisibility).toList ++
    (if p.setHidden then [Write.hidden] else []) ++ p.invite.map Write.invite

/-- The snapshot after a write has succeeded. -/
def Snapshot.written (s : Snapshot) : Write → Snapshot
  | .joinRule rule => { s with discussionJoinRule := .str rule }
  | .historyVisibility visibility => { s with discussionHistoryVisibility := .str visibility }
  | .hidden => { s with discussionHidden := .bool true }
  | .invite user => { s with discussionMembers := s.discussionMembers ++ [user] }

/-- The snapshot after some writes have succeeded. -/
def Snapshot.after (s : Snapshot) (done : List Write) : Snapshot := done.foldl Snapshot.written s

/-! ### Converging -/

section Plans

variable {s : Snapshot} {done : List Write} {user : UserId}

/-- The settings that the channel asks for. -/
def Snapshot.wanted (s : Snapshot) : Settings := discussionSettingsFor s.channelJoinRule

@[simp]
theorem after_nil : s.after [] = s := rfl

@[simp]
theorem after_cons (w : Write) : s.after (w :: done) = (s.written w).after done := rfl

@[simp]
theorem written_channelJoinRule (w : Write) :
    (s.written w).channelJoinRule = s.channelJoinRule := by
  cases w <;> rfl

@[simp]
theorem written_channelMembers (w : Write) : (s.written w).channelMembers = s.channelMembers := by
  cases w <;> rfl

@[simp]
theorem after_channelJoinRule : (s.after done).channelJoinRule = s.channelJoinRule := by
  induction done generalizing s with
  | nil => rfl
  | cons w done ih => rw [after_cons, ih, written_channelJoinRule]

@[simp]
theorem after_channelMembers : (s.after done).channelMembers = s.channelMembers := by
  induction done generalizing s with
  | nil => rfl
  | cons w done ih => rw [after_cons, ih, written_channelMembers]

/-- The join rule is the one that was written, where all writes of it are of one rule. -/
theorem after_discussionJoinRule {rule : PyStr} (h : ∀ r, Write.joinRule r ∈ done → r = rule) :
    (s.after done).discussionJoinRule =
      if Write.joinRule rule ∈ done then .str rule else s.discussionJoinRule := by
  induction done generalizing s with
  | nil => rfl
  | cons w done ih =>
      rw [after_cons, ih fun r hr => h r (List.mem_cons_of_mem _ hr)]
      cases w with
      | joinRule r =>
          obtain rfl := h r List.mem_cons_self
          simp [Snapshot.written]
      | _ => simp [Snapshot.written]

theorem after_discussionHistoryVisibility {visibility : PyStr}
    (h : ∀ v, Write.historyVisibility v ∈ done → v = visibility) :
    (s.after done).discussionHistoryVisibility =
      if Write.historyVisibility visibility ∈ done then .str visibility
      else s.discussionHistoryVisibility := by
  induction done generalizing s with
  | nil => rfl
  | cons w done ih =>
      rw [after_cons, ih fun v hv => h v (List.mem_cons_of_mem _ hv)]
      cases w with
      | historyVisibility v =>
          obtain rfl := h v List.mem_cons_self
          simp [Snapshot.written]
      | _ => simp [Snapshot.written]

theorem after_discussionHidden : (s.after done).discussionHidden =
    if Write.hidden ∈ done then .bool true else s.discussionHidden := by
  induction done generalizing s with
  | nil => rfl
  | cons w done ih =>
      rw [after_cons, ih]
      cases w <;> simp [Snapshot.written]

/-- Who was invited is a member from then on. -/
theorem mem_after_discussionMembers : user ∈ (s.after done).discussionMembers ↔
    user ∈ s.discussionMembers ∨ Write.invite user ∈ done := by
  induction done generalizing s with
  | nil => simp
  | cons w done ih =>
      rw [after_cons, ih]
      cases w <;> simp [Snapshot.written, or_assoc]

/-- **What a plan consists of.** -/
theorem writes_eq : (planDiscussionMigration s).writes =
    (if s.discussionJoinRule ≠ Json.str s.wanted.joinRule then [Write.joinRule s.wanted.joinRule]
      else []) ++
      (if s.discussionHistoryVisibility ≠ Json.str s.wanted.historyVisibility then
        [Write.historyVisibility s.wanted.historyVisibility] else []) ++
      (if s.discussionHidden ≠ Json.bool true then [Write.hidden] else []) ++
      (if isPublicChannel s.channelJoinRule then [] else
        s.channelMembers.filter fun m => m ∉ s.discussionMembers).map Write.invite := by
  unfold Plan.writes planDiscussionMigration
  congr 1
  congr 1
  · congr 1
    · rw [apply_ite (Option.map _), apply_ite Option.toList]
      rfl
    · rw [apply_ite (Option.map _), apply_ite Option.toList]
      rfl
  · simp

theorem joinRule_mem_writes {rule : PyStr} :
    Write.joinRule rule ∈ (planDiscussionMigration s).writes ↔
      s.discussionJoinRule ≠ .str s.wanted.joinRule ∧ rule = s.wanted.joinRule := by
  simp [writes_eq]

theorem historyVisibility_mem_writes {visibility : PyStr} :
    Write.historyVisibility visibility ∈ (planDiscussionMigration s).writes ↔
      s.discussionHistoryVisibility ≠ .str s.wanted.historyVisibility ∧
        visibility = s.wanted.historyVisibility := by
  simp [writes_eq]

theorem invite_mem_writes : Write.invite user ∈ (planDiscussionMigration s).writes ↔
    isPublicChannel s.channelJoinRule = false ∧ user ∈ s.channelMembers ∧
      user ∉ s.discussionMembers := by
  cases h : isPublicChannel s.channelJoinRule <;> simp [writes_eq, h]

theorem planIsNoop_iff {p : Plan} : planIsNoop p = true ↔ p.writes = [] := by
  unfold planIsNoop Plan.writes
  cases p.setJoinRule <;> cases p.setHistoryVisibility <;> cases p.setHidden <;> simp

/-- The settings for a channel that is not open. -/
theorem wanted_of_closed (h : isPublicChannel s.channelJoinRule = false) :
    s.wanted = ⟨"invite", "shared"⟩ := by
  unfold Snapshot.wanted discussionSettingsFor
  rw [h]
  rfl

theorem mem_writes_of_invite (h : user ∈ (planDiscussionMigration s).invite) :
    Write.invite user ∈ (planDiscussionMigration s).writes :=
  List.mem_append_right _ (List.mem_map_of_mem h)

/-- One write of a plan, kept unless it is done. -/
theorem kept_of_iff {w : Write} {p q : Prop} [Decidable p] [Decidable q] (h : q ↔ p ∧ w ∉ done) :
    (if q then [w] else []) = (if p then [w] else []).filter fun w => w ∉ done := by
  by_cases hp : p
  · by_cases hw : w ∈ done <;> simp [hp, hw, h]
  · simp [hp, h]

/-- **What is left to do is what has failed.** -/
theorem writes_after (h : done ⊆ (planDiscussionMigration s).writes) :
    (planDiscussionMigration (s.after done)).writes =
      (planDiscussionMigration s).writes.filter fun w => w ∉ done := by
  have hrule : (s.after done).discussionJoinRule =
      if Write.joinRule s.wanted.joinRule ∈ done then .str s.wanted.joinRule
      else s.discussionJoinRule :=
    after_discussionJoinRule fun r hr => (joinRule_mem_writes.1 (h hr)).2
  have hvisibility : (s.after done).discussionHistoryVisibility =
      if Write.historyVisibility s.wanted.historyVisibility ∈ done then
        .str s.wanted.historyVisibility
      else s.discussionHistoryVisibility :=
    after_discussionHistoryVisibility fun v hv => (historyVisibility_mem_writes.1 (h hv)).2
  have hwanted : (s.after done).wanted = s.wanted := by
    rw [Snapshot.wanted, after_channelJoinRule]
    rfl
  simp only [writes_eq, hwanted, after_channelJoinRule, after_channelMembers, List.filter_append]
  congr 1
  · congr 1
    · congr 1
      · refine kept_of_iff ?_
        rw [hrule]
        split <;> simp [*]
      · refine kept_of_iff ?_
        rw [hvisibility]
        split <;> simp [*]
    · refine kept_of_iff ?_
      rw [after_discussionHidden]
      split <;> simp [*]
  · rw [List.filter_map]
    congr 1
    split
    · rfl
    · rw [List.filter_filter]
      refine List.filter_congr fun m _ => ?_
      simp [mem_after_discussionMembers, Bool.and_comm]

end Plans

/-- **The migration converges.**  For every snapshot, when some of the writes of its plan have
succeeded, the next plan consists of the others, in their order; it is a no-op when all have.
Nobody is invited who is in the discussion room or invited to it, and the discussion room of a
channel that is not open is not opened. -/
theorem migration_converges (s : Snapshot) (done : List Write)
    (h : done ⊆ (planDiscussionMigration s).writes) :
    (planDiscussionMigration (s.after done)).writes =
        (planDiscussionMigration s).writes.filter (fun w => w ∉ done) ∧
      ((planDiscussionMigration s).writes ⊆ done →
        planIsNoop (planDiscussionMigration (s.after done)) = true) ∧
      (∀ user ∈ (planDiscussionMigration s).invite, user ∉ s.discussionMembers) ∧
      (isPublicChannel s.channelJoinRule = false →
        (planDiscussionMigration s).setJoinRule ≠ some "public" ∧
          (planDiscussionMigration s).setHistoryVisibility ≠ some "world_readable") := by
  refine ⟨writes_after h, fun hall => ?_, fun user hu => ?_,
    fun hclosed => ⟨fun hr => ?_, fun hv => ?_⟩⟩
  · rw [planIsNoop_iff, writes_after h, List.filter_eq_nil_iff]
    intro w hw
    simpa using hall hw
  · exact (invite_mem_writes.1 (mem_writes_of_invite hu)).2.2
  · have hmem : Write.joinRule "public" ∈ (planDiscussionMigration s).writes := by
      simp [Plan.writes, hr]
    have hwanted := (joinRule_mem_writes.1 hmem).2
    rw [wanted_of_closed hclosed] at hwanted
    exact absurd hwanted (by decide)
  · have hmem : Write.historyVisibility "world_readable" ∈ (planDiscussionMigration s).writes := by
      simp [Plan.writes, hv]
    have hwanted := (historyVisibility_mem_writes.1 hmem).2
    rw [wanted_of_closed hclosed] at hwanted
    exact absurd hwanted (by decide)

/-- A closed channel of two members, one of whom is not in the discussion room; the join rule has
been written, the invite has not. -/
theorem migration_converges_partly :
    let s : Snapshot :=
      ⟨.str "invite", .null, .str "shared", .bool true, [py "@a:h", py "@b:h"], [py "@a:h"]⟩
    (planDiscussionMigration (s.after [.joinRule "invite"])).writes = [.invite (py "@b:h")] :=
  (migration_converges
    ⟨.str "invite", .null, .str "shared", .bool true, [py "@a:h", py "@b:h"], [py "@a:h"]⟩
    [.joinRule "invite"] (by decide)).1.trans (by decide)

/-! ### The migration of a channel -/

section Eval

variable (host : PyStr) (C D : RoomId) (owner : UserId) (fails : Op → Bool)

/-- The operation of a write. -/
def Write.op : Write → Op
  | .joinRule rule =>
      .sendEvent (stateDict (.str D) owner joinRulesState [("join_rule", .str rule)])
  | .historyVisibility visibility =>
      .sendEvent (stateDict (.str D) owner historyVisibilityState
        [("history_visibility", .str visibility)])
  | .hidden => .sendEvent (stateDict (.str D) owner topologyState [("hidden", .bool true)])
  | .invite user => .updateRoomMembership owner user (.str D) .invite
      (if isMine host user then none
        else (split1 (codePoint ':') user).2.map fun server => [server])

/-- An operation of a migration, of which those among `fails` raise. -/
def failing (w : World) (op : Op) : World × Option (Res op) :=
  ((perform channelSync host w op (fails op)).1, (perform channelSync host w op (fails op)).2.1)

/-- The writes one after the other: the world they leave, and those that have succeeded. -/
def makes (w : World) : List Write → World × List Write
  | [] => (w, [])
  | write :: writes =>
      let r := failing host fails w (write.op host D owner)
      let rest := makes r.1 writes
      (rest.1, if r.2.isSome then write :: rest.2 else rest.2)

variable {host C D owner fails} {w : World}

/-- Quiet operations are reads here, and do not fail. -/
theorem failing_quiet (hfails : ∀ op : Op, op.quiet = true → fails op = false) (w : World) (op : Op)
    (hq : op.quiet = true) : failing host fails w op = completed host w op := by
  unfold failing completed
  rw [hfails op hq, perform]
  simp

theorem isAi_quiet (user : UserId) :
    Task.Only (fun _ _ => True) (fun op : Op => op.quiet = true) (isAi host user : Code Bool) := by
  unfold isAi
  split
  · exact .ret _
  · split
    · exact .ret _
    · exact .orElse (.bind (.call rfl) fun _ => .ret _) (.ret _)

theorem humanMembers_quiet (members : List UserId) :
    Task.Only (fun _ _ => True) (fun op : Op => op.quiet = true) (humanMembers host members) := by
  induction members with
  | nil => exact .ret _
  | cons m ms ih => exact .bind (isAi_quiet m) fun _ => .bind ih fun _ => .ret _

/-- `_channel_snapshot` only reads. -/
theorem channelSnapshot_quiet (channel : RoomId) (discussion : Json) :
    Task.Only (fun _ _ => True) (fun op : Op => op.quiet = true)
      (channelSnapshot host channel discussion) := by
  have hread : ∀ {α : Type} (room : Json) (type : PyStr) (g : Option Dict → α),
      Task.Only (fun _ _ => True) (fun op : Op => op.quiet = true)
        (stateContent room type >>= fun c => .ret (g c) : Code α) :=
    fun room type g => .bind (.bind (.call rfl) fun _ => .ret _) fun _ => .ret _
  refine .bind (.call rfl) fun _ => .bind (humanMembers_quiet _) fun _ => .bind (.call rfl) fun _ =>
    .bind (.call rfl) fun _ => ?_
  exact .bind (hread _ _ _) fun _ => .bind (hread _ _ _) fun _ => .bind (hread _ _ _) fun _ =>
    .bind (hread _ _ _) fun _ => .ret _

/-- What an attempted operation does. -/
theorem eval_attempt (w : World) (op : Op) :
    (attempt (call op)).eval (failing host fails) w = ((failing host fails w op).1, some ()) := by
  unfold attempt
  rw [Task.eval_orElse, Task.eval_bind]
  simp only [call, Task.call, Task.eval]
  cases (failing host fails w op).2 <;> rfl

/-- The host of an invite. -/
theorem remoteHosts_ret {user : UserId} (h : (split1 (codePoint ':') user).2.isSome = true) :
    (remoteHosts host user : Code (Option (List PyStr))) =
      .ret (if isMine host user then none
        else (split1 (codePoint ':') user).2.map fun server => [server]) := by
  unfold remoteHosts
  split
  · rfl
  · obtain ⟨server, hs⟩ := Option.isSome_iff_exists.1 h
    rw [hs]
    rfl

theorem makes_world (w : World) (writes : List Write) :
    (makes host D owner fails w writes).1 =
      writes.foldl (fun w write => (failing host fails w (write.op host D owner)).1) w := by
  induction writes generalizing w with
  | nil => rfl
  | cons write writes ih => exact ih _

/-- The writes of the state are the first ones of a plan. -/
theorem foldl_stateWrites (p : Plan) (w : World) :
    p.writes.foldl (fun w write => (failing host fails w (write.op host D owner)).1) w =
      p.invite.foldl (fun w user => (failing host fails w ((Write.invite user).op host D owner)).1)
        ((stateWrites p).foldl (fun w x =>
          (failing host fails w (.sendEvent (stateDict (.str D) owner x.1 x.2))).1) w) := by
  unfold Plan.writes stateWrites
  rw [List.foldl_append, List.foldl_map]
  cases p.setJoinRule <;> cases p.setHistoryVisibility <;> cases p.setHidden <;> rfl

/-- **The migration of a channel makes the writes of its plan.** -/
theorem migrateOneChannel_eval (hlink : w.link C = .str D) (hcreator : w.creator D = some owner)
    (hfails : ∀ op : Op, op.quiet = true → fails op = false)
    (hservers : ∀ user ∈ w.usersIn (.str C) .join, (split1 (codePoint ':') user).2.isSome = true) :
    (migrateOneChannel host C).eval (failing host fails) w =
      ((makes host D owner fails w
        (planDiscussionMigration (w.snapshotOf host C D)).writes).1, some ()) := by
  have hread : ∀ {α : Type} {t : Code α},
      Task.Only (fun _ _ => True) (fun op : Op => op.quiet = true) t →
        t.eval (failing host fails) w = t.eval (completed host) w :=
    fun ht => ht.eval_congr (failing_quiet hfails) w
  have hroom : (discussionRoom C).eval (failing host fails) w = (w, some (.str D)) := by
    refine (hread (.bind (.bind (.call rfl) fun _ => .ret _) fun _ => .ret _)).trans ?_
    rw [← hlink]
    rfl
  have howner : (roomCreator (.str D) : Code (Option UserId)).eval (failing host fails) w =
      (w, some (some owner)) := by
    refine (hread (.bind (.call rfl) fun _ => .ret _)).trans ?_
    rw [← hcreator]
    rfl
  have hsnapshot : (channelSnapshot host C (.str D)).eval (failing host fails) w =
      (w, some (w.snapshotOf host C D)) :=
    (hread (channelSnapshot_quiet _ _)).trans eval_channelSnapshot
  unfold migrateOneChannel
  rw [Task.eval_bind, hroom]
  dsimp only
  rw [if_neg (by simp), Task.eval_bind, howner]
  dsimp only
  rw [Task.eval_bind, hsnapshot]
  dsimp only
  split
  · rename_i hnoop
    rw [planIsNoop_iff.1 hnoop]
    rfl
  · rw [makes_world, foldl_stateWrites, Task.eval_bind,
      Task.eval_forEach fun x _ w => eval_attempt w _]
    refine Task.eval_forEach (fun user hu w' => ?_) _
    have hmember : user ∈ w.usersIn (.str C) .join :=
      (List.mem_filter.1 (invite_mem_writes.1 (mem_writes_of_invite hu)).2.1).1
    rw [remoteHosts_ret (hservers user hmember), Task.ret_bind]
    exact eval_attempt w' _

/-! ### The snapshot that follows -/

/-- Two snapshots that differ at most in the order of the members of the discussion room. -/
structure Alike (s s' : Snapshot) : Prop where
  channelJoinRule : s.channelJoinRule = s'.channelJoinRule
  discussionJoinRule : s.discussionJoinRule = s'.discussionJoinRule
  discussionHistoryVisibility : s.discussionHistoryVisibility = s'.discussionHistoryVisibility
  discussionHidden : s.discussionHidden = s'.discussionHidden
  channelMembers : s.channelMembers = s'.channelMembers
  discussionMembers : ∀ user, user ∈ s.discussionMembers ↔ user ∈ s'.discussionMembers

variable {s s' : Snapshot}

theorem Alike.trans {s'' : Snapshot} (h : Alike s s') (h' : Alike s' s'') : Alike s s'' :=
  ⟨h.1.trans h'.1, h.2.trans h'.2, h.3.trans h'.3, h.4.trans h'.4, h.5.trans h'.5,
    fun u => (h.6 u).trans (h'.6 u)⟩

theorem Alike.written (h : Alike s s') (write : Write) :
    Alike (s.written write) (s'.written write) := by
  cases write with
  | invite user =>
      refine ⟨h.1, h.2, h.3, h.4, h.5, fun u => ?_⟩
      simp only [Snapshot.written, List.mem_append, h.6 u]
  | joinRule rule => exact ⟨h.1, rfl, h.3, h.4, h.5, h.6⟩
  | historyVisibility visibility => exact ⟨h.1, h.2, rfl, h.4, h.5, h.6⟩
  | hidden => exact ⟨h.1, h.2, h.3, rfl, h.5, h.6⟩

theorem Alike.after (h : Alike s s') (done : List Write) :
    Alike (s.after done) (s'.after done) := by
  induction done generalizing s s' with
  | nil => exact h
  | cons write done ih => exact ih (h.written write)

/-- The plan does not depend on that order. -/
theorem Alike.writes_eq (h : Alike s s') :
    (planDiscussionMigration s).writes = (planDiscussionMigration s').writes := by
  have hwanted : s.wanted = s'.wanted := congrArg discussionSettingsFor h.channelJoinRule
  rw [ChannelSync.writes_eq, ChannelSync.writes_eq, hwanted, h.channelJoinRule,
    h.discussionJoinRule, h.discussionHistoryVisibility, h.discussionHidden, h.channelMembers]
  simp only [h.discussionMembers]

/-- An operation that has failed leaves the snapshot as it is. -/
theorem snapshotOf_of_failed {op : Op} (h : (failing host fails w op).2 = none) :
    World.snapshotOf host C D (failing host fails w op).1 = w.snapshotOf host C D := by
  have hrooms : (failing host fails w op).1.rooms = w.rooms := perform_rooms_of_none h
  have hroles : (failing host fails w op).1.roles = w.roles := perform_roles _ _ _ _ _
  unfold World.snapshotOf World.joinRule World.historyVisibility World.hidden World.usersIn
  rw [hrooms, hroles]

/-- The event of a write of the state, and its content. -/
def Write.stateEvent : Write → Option (PyStr × Dict)
  | .joinRule rule => some (joinRulesState, [("join_rule", .str rule)])
  | .historyVisibility visibility =>
      some (historyVisibilityState, [("history_visibility", .str visibility)])
  | .hidden => some (topologyState, [("hidden", .bool true)])
  | .invite _ => none

/-- The content of a state event. -/
def World.contentOf (w : World) (room : RoomId) (type : PyStr) : Option Dict :=
  (w.rooms.state room type []).map StateEvent.content

/-- The event that a write has created. -/
theorem created_of_done {write : Write}
    (h : (failing host fails w (write.op host D owner)).2.isSome = true) :
    ∃ e, (failing host fails w (write.op host D owner)).1.rooms = w.rooms.persist e ∧
      e.roomId = D ∧
      (write.stateEvent = some (e.type, e.content) ∧ e.type ≠ py "m.room.member" ∧
          e.stateKey = some [] ∨
        write.stateEvent = none ∧ e.type = py "m.room.member") := by
  have hstate : ∀ type content, write.stateEvent = some (type, content) →
      write.op host D owner = .sendEvent (stateDict (.str D) owner type content) ∧
        type ≠ py "m.room.member" := by
    intro type content hw
    cases write with
    | invite user => cases hw
    | _ =>
        cases hw
        exact ⟨rfl, by decide⟩
  cases hw : write.stateEvent with
  | some x =>
      obtain ⟨type, content⟩ := x
      obtain ⟨hop, htype⟩ := hstate type content hw
      rw [hop] at h ⊢
      obtain ⟨e, he⟩ := created_of_isSome (.inl ⟨_, rfl⟩) h
      obtain ⟨hroom, ht, -, hkey, hcontent⟩ := createdEvent_sendEvent he
      refine ⟨e, (perform_of_created he h).1, (Json.str.inj hroom).symm, .inl ⟨?_, ?_, hkey⟩⟩
      · rw [ht, hcontent]
        rfl
      · rw [ht]
        exact htype
  | none =>
      cases write with
      | invite user =>
          obtain ⟨e, he⟩ := created_of_isSome (.inr ⟨_, _, _, _, _, rfl⟩) h
          obtain ⟨hroom, ht, -⟩ := createdEvent_membership he
          exact ⟨e, (perform_of_created he h).1, (Json.str.inj hroom).symm, .inr ⟨rfl, ht⟩⟩
      | _ => cases hw

/-- The state after a write. -/
theorem contentOf_of_done {write : Write}
    (h : (failing host fails w (write.op host D owner)).2.isSome = true) (room : RoomId)
    {type : PyStr} (htype : type ≠ py "m.room.member") :
    World.contentOf (failing host fails w (write.op host D owner)).1 room type =
      if room = D ∧ write.stateEvent.map Prod.fst = some type then write.stateEvent.map Prod.snd
      else w.contentOf room type := by
  obtain ⟨e, hrooms, hroom, ⟨hw, hmember, hkey⟩ | ⟨hw, ht⟩⟩ := created_of_done h
  · unfold World.contentOf
    rw [hrooms, hw]
    split
    · rename_i hsame
      rw [hsame.1, ← Option.some.inj hsame.2, ← hroom, Rooms.persist_state_self _ _ _ hkey hmember]
      rfl
    · rename_i hother
      rw [Rooms.persist_state_of_ne]
      exact fun hsame => hother ⟨hsame.1.symm.trans hroom, congrArg some hsame.2.1⟩
  · unfold World.contentOf
    rw [hrooms, hw, if_neg (by simp), Rooms.persist_state_of_ne]
    exact fun hsame => htype (hsame.2.1.symm.trans ht)

/-- The members after a write: only an invite changes them, and only in the discussion room. -/
theorem usersIn_of_done {write : Write}
    (h : (failing host fails w (write.op host D owner)).2.isSome = true) (room : RoomId)
    (m : Membership) (hother : room ≠ D ∨ write.stateEvent ≠ none) :
    World.usersIn (failing host fails w (write.op host D owner)).1 (.str room) m =
      w.usersIn (.str room) m := by
  obtain ⟨e, hrooms, hroom, hkind⟩ := created_of_done h
  unfold World.usersIn
  dsimp only
  rw [hrooms, Rooms.usersWith_persist_of_ne]
  rintro ⟨hr, ht⟩
  rcases hkind with ⟨-, hmember, -⟩ | ⟨hw, -⟩
  · exact hmember ht
  · exact (hother.resolve_right fun h => h hw) (hr.symm.trans hroom)

/-- The snapshot as a function of the contents and members of the two rooms. -/
theorem snapshotOf_eq : w.snapshotOf host C D =
    { channelJoinRule := joinRuleOf (w.contentOf C joinRulesState)
      discussionJoinRule := joinRuleOf (w.contentOf D joinRulesState)
      discussionHistoryVisibility :=
        ((w.contentOf D historyVisibilityState).getD []).get "history_visibility"
      discussionHidden := ((w.contentOf D topologyState).getD []).get "hidden"
      channelMembers := (w.usersIn (.str C) .join).filter fun u => human host w.roles u
      discussionMembers := w.usersIn (.str D) .join ++ w.usersIn (.str D) .invite } := by
  have hhidden : w.hidden D = ((w.contentOf D topologyState).getD []).get "hidden" := by
    unfold World.hidden World.contentOf
    cases (w.rooms.state D topologyState []).map StateEvent.content <;> rfl
  rw [World.snapshotOf, hhidden]
  rfl

/-- **The snapshot after a write that has succeeded.** -/
theorem snapshotOf_of_done (hne : C ≠ D) (write : Write)
    (h : (failing host fails w (write.op host D owner)).2.isSome = true) :
    Alike (World.snapshotOf host C D (failing host fails w (write.op host D owner)).1)
      ((w.snapshotOf host C D).written write) := by
  have hroles : (failing host fails w (write.op host D owner)).1.roles = w.roles :=
    perform_roles _ _ _ _ _
  have hjoinRule := fun room => contentOf_of_done h room (show joinRulesState ≠ _ by decide)
  have hvisibility := contentOf_of_done h D (show historyVisibilityState ≠ _ by decide)
  have hhidden := contentOf_of_done h D (show topologyState ≠ _ by decide)
  have hchannel := usersIn_of_done h C .join (.inl hne)
  rw [snapshotOf_eq, snapshotOf_eq, hroles, hjoinRule, hjoinRule, hvisibility, hhidden, hchannel]
  have hjv : joinRulesState ≠ historyVisibilityState := by decide
  have hjt : joinRulesState ≠ topologyState := by decide
  have hvt : historyVisibilityState ≠ topologyState := by decide
  have hget : ∀ (key : PyStr) (v : Json), Dict.get [(key, v)] key = v := by
    intro key v
    simp [Dict.get, Dict.get?]
  cases write with
  | invite user =>
      have hlisted := listed_call (b := true) h
      refine ⟨?_, ?_, ?_, ?_, rfl, fun u => ?_⟩
      · simp [Write.stateEvent, Snapshot.written]
      · simp [Write.stateEvent, Snapshot.written]
      · simp [Write.stateEvent, Snapshot.written]
      · simp [Write.stateEvent, Snapshot.written]
      · simp only [Snapshot.written, List.mem_append, List.mem_singleton]
        rw [or_comm (b := u = user)]
        refine (hlisted u).trans ?_
        split <;> simp [*, World.listed]
  | _ =>
      have hmembers := fun m => usersIn_of_done h D m (.inr (by simp [Write.stateEvent]))
      rw [hmembers, hmembers]
      refine ⟨?_, ?_, ?_, ?_, rfl, fun u => Iff.rfl⟩
      · simp [Write.stateEvent, Snapshot.written, hne]
      · simp [Write.stateEvent, Snapshot.written, joinRuleOf, hjv.symm, hjt.symm, hget]
      · simp [Write.stateEvent, Snapshot.written, hjv, hvt.symm, hget]
      · simp [Write.stateEvent, Snapshot.written, hjt, hvt, hget]

/-- **The snapshot after a migration.** -/
theorem snapshotOf_makes (hne : C ≠ D) (w : World) (writes : List Write) :
    Alike ((makes host D owner fails w writes).1.snapshotOf host C D)
      ((w.snapshotOf host C D).after (makes host D owner fails w writes).2) := by
  induction writes generalizing w with
  | nil => exact ⟨rfl, rfl, rfl, rfl, rfl, fun _ => Iff.rfl⟩
  | cons write writes ih =>
      have hrest := ih (failing host fails w (write.op host D owner)).1
      simp only [makes]
      split
      · rename_i hdone
        refine hrest.trans ?_
        exact (snapshotOf_of_done hne write hdone).after _
      · rename_i hfailed
        rw [snapshotOf_of_failed (by simpa using hfailed)] at hrest
        exact hrest

/-- What has succeeded is among what was to be made. -/
theorem makes_subset (w : World) (writes : List Write) :
    (makes host D owner fails w writes).2 ⊆ writes := by
  induction writes generalizing w with
  | nil => exact List.Subset.refl _
  | cons write writes ih =>
      have hrest := ih (failing host fails w (write.op host D owner)).1
      simp only [makes]
      split
      · exact List.cons_subset_cons _ hrest
      · exact List.subset_cons_of_subset _ hrest

/-- **The next migration makes the writes that have failed.**  On the homeserver, whatever
operations of a migration have raised, the plan of the next one consists of those of its writes
that have not succeeded. -/
theorem migration_converges_on (hlink : w.link C = .str D) (hcreator : w.creator D = some owner)
    (hne : C ≠ D) (hfails : ∀ op : Op, op.quiet = true → fails op = false)
    (hservers : ∀ user ∈ w.usersIn (.str C) .join, (split1 (codePoint ':') user).2.isSome = true) :
    let planned := (planDiscussionMigration (w.snapshotOf host C D)).writes
    let done := (makes host D owner fails w planned).2
    let w' := ((migrateOneChannel host C).eval (failing host fails) w).1
    (planDiscussionMigration (w'.snapshotOf host C D)).writes =
      planned.filter fun write => write ∉ done := by
  intro planned done w'
  have hw' : w' = (makes host D owner fails w planned).1 :=
    congrArg Prod.fst (migrateOneChannel_eval hlink hcreator hfails hservers)
  have hsnapshot : Alike (w'.snapshotOf host C D) ((w.snapshotOf host C D).after done) := by
    rw [hw']
    exact snapshotOf_makes hne w planned
  rw [hsnapshot.writes_eq]
  exact writes_after (makes_subset w planned)

end Eval

end ChannelSync
end Liza
