/-
# One stories room for a user

`ensure_stories_room` reads the account data of the user, creates a room if it names none, and then
writes its id there.  It is called by the hook for direct chats, by the start-up pass and by the
subscription of a pair, which run at the same time; here their code is one of tasks, and every
await is a switch point.  What a call returns is logged by an operation `returned`.

Two calls for one user may both find no room, and then both create one.  A run is in turn if no
call reads the account data of a user while another is between having found no room and having
written one (`InTurn`); in such a run a user gets one room (`one_stories_room`).  The state of a
thread is followed by an automaton (`Phase`), and the invariant is one of the phases, of the account
data and of the rooms that were created.
-/

import Liza.StoriesMembership.Audience
import Liza.Lib.Points

set_option autoImplicit false

namespace Liza
namespace StoriesMembership
namespace OneRoom

open Lib Synapse
open Lib.System (Idle Located Starts)
open Lib.Task (Follows)

/-! ### The code -/

/-- What a call awaits. -/
inductive Op where
  /-- `account_data_manager.get_global(user, "com.liza.stories")`. -/
  | getStories (user : UserId)
  /-- `create_room`. -/
  | createRoom (user : UserId)
  /-- `account_data_manager.put_global(user, "com.liza.stories", …)`. -/
  | putStories (user : UserId) (room : RoomId)
  /-- `ensure_stories_room` returns. -/
  | returned (user : UserId) (room : RoomId)
  /-- `account_data_manager.get_global(user, "com.liza.user_role")`. -/
  | userRole (user : UserId)
  /-- The check of `push_rules` for a rule of the room. -/
  | hasPushRule (user : UserId) (rule : PyStr)
  /-- `add_push_rule`. -/
  | addPushRule (user : UserId) (rule : PyStr)
  /-- `update_room_membership(owner, guest, room, "invite")`. -/
  | invite (owner guest : UserId) (room : RoomId)
  /-- `_find_dm_pairs_txn`. -/
  | findDmPairs
  /-- `api.sleep`. -/
  | sleep

/-- What it answers. -/
@[reducible]
def Res : Op → Type
  | .getStories _ => Option RoomId
  | .createRoom _ => RoomId
  | .userRole _ => Option Dict
  | .hasPushRule _ _ => Bool
  | .findDmPairs => List (UserId × UserId)
  | _ => Unit

/-- The code of a job. -/
abbrev Code (α : Type) := Task Op Res α

/-- `await op`. -/
abbrev call (op : Op) : Code (Res op) := Task.call op

/-- `ensure_stories_room`. -/
def ensureStoriesRoom (user : UserId) : Code RoomId := do
  let existing ← call (.getStories user)
  match existing with
  | some room => do
      let _ ← call (.returned user room)
      .ret room
  | none => do
      let room ← call (.createRoom user)
      let _ ← call (.putStories user room)
      let _ ← call (.returned user room)
      .ret room

/-- `_is_ai_user`. -/
def isAiUser (cfg : Config) (user : UserId) : Code Bool :=
  if lstrip (codePoint '@') (split1 (codePoint ':') user).1 ∈ cfg.aiBotLocalparts then .ret true
  else if isMine cfg.host user then
    (call (.userRole user) >>= fun data => .ret (isAiRole data)).orElse (.ret false)
  else .ret false

/-- `_mute_room_for_local_user` and `_ensure_story_notify_rule`, of their rules. -/
def ensurePushRule (user : UserId) (rule : PyStr) : Code Unit :=
  (do
    let existing ← call (.hasPushRule user rule)
    if existing then .ret () else call (.addPushRule user rule) : Code Unit).orElse (.ret ())

/-- `_invite_into_owner_room`. -/
def inviteIntoOwnerRoom (cfg : Config) (owner guest : UserId) : Code Unit :=
  if isMine cfg.host owner then do
    let room ← ensureStoriesRoom owner
    if isMine cfg.host guest then do
      ensurePushRule guest (py "global/room/" ++ room)
      ensurePushRule guest (py "global/override/com.liza.story_notify." ++ room)
      (call (.invite owner guest room)).orElse (.ret ())
    else
      -- `server_name_of` raises where the id has no server name
      match (split1 (codePoint ':') guest).2 with
      | some _ => (call (.invite owner guest room)).orElse (.ret ())
      | none => .raised
  else .ret ()

/-- `subscribe_pair`. -/
def subscribePair (cfg : Config) (a b : UserId) : Code Unit := do
  let first ← isAiUser cfg a
  if first then .ret ()
  else do
    let second ← isAiUser cfg b
    if second then .ret ()
    else do
      inviteIntoOwnerRoom cfg a b
      inviteIntoOwnerRoom cfg b a

/-- One round of the loop of `backfill_existing_dms`. -/
def backfillPair (cfg : Config) (pair : UserId × UserId) : Code Unit := do
  let done ← (subscribePair cfg pair.1 pair.2 >>= fun _ => .ret true).orElse (.ret false)
  if done then call .sleep else .ret ()

/-- `backfill_existing_dms`; the servers that may be reached are those of `reachable`. -/
def backfillExistingDms (cfg : Config) (reachable : UserId → Bool) : Code Unit := do
  let found ← (call .findDmPairs >>= fun pairs => .ret (some pairs)).orElse (.ret none)
  match found with
  | none => .ret ()
  | some pairs =>
      Task.forEach (backfillPair cfg) (pairs.filter fun p => reachable p.1 && reachable p.2)

/-- What runs: a call of `ensure_stories_room` by itself, the subscription of a pair, the hook for
a user who has joined a direct chat with the others, and the start-up pass. -/
inductive Job where
  | ensure (user : UserId)
  | pair (a b : UserId)
  | joined (user : UserId) (others : List UserId)
  | backfill (reachable : UserId → Bool)

/-- Its code. -/
def Job.code (cfg : Config) : Job → Code Unit
  | .ensure user => ensureStoriesRoom user >>= fun _ => .ret ()
  | .pair a b => subscribePair cfg a b
  | .joined user others => Task.forEach (subscribePair cfg user) others
  | .backfill reachable => backfillExistingDms cfg reachable

/-- What is read beside the account data: the pairs that the query finds, and whether a push rule is
there. -/
structure Found where
  pairs : List (UserId × UserId)
  pushRule : Bool

/-- An operation. -/
def complete (cfg : Config) (w : World) (found : Found) : (op : Op) → World × Option (Res op)
  | .getStories user => (w, some (w.storiesRoom user))
  | .createRoom user =>
      let room := cfg.newRoomId w.rooms.ids
      ({ w with rooms := createRoom w.rooms room user }, some room)
  | .putStories user room => ({ w with stories := (user, room) :: w.stories }, some ())
  | .returned _ _ => (w, some ())
  | .userRole user => (w, some (w.roles user))
  | .hasPushRule _ _ => (w, some found.pushRule)
  | .addPushRule _ _ => (w, some ())
  | .invite _ guest room =>
      ({ w with rooms := StoriesMembership.invite w.rooms room guest }, some ())
  | .findDmPairs => (w, some found.pairs)
  | .sleep => (w, some ())

/-- Jobs start at any time, and no operation fails. -/
def system (cfg : Config) : System World Job Found Job Op Res where
  code := Job.code cfg
  arrive := fun w job => (w, [job])
  drops := fun _ => false
  perform := fun w op found => ((complete cfg w found op).1, (complete cfg w found op).2, [])

/-- A state of the server. -/
abbrev State := Loop World Job Job Op Res

/-- A move. -/
abbrev Act := Move Job Found

/-- An entry of the log. -/
abbrev LogEntry := Entry World Job Op Res

/-- No job has started yet. -/
def start (w : World) : State := ⟨w, [], [], []⟩

/-! ### What a run should keep to -/

/-- The thread has found no stories room for the user, and has not written one yet. -/
def isCreating (user : UserId) (u : Thread Job Op Res) : Bool :=
  match u.rest with
  | .await (.createRoom user') _ => user' = user
  | .await (.putStories user' _) _ => user' = user
  | _ => false

/-- The account data of a user is read only while no call is creating the room of the user. -/
def InTurn (s : State) : Act → Bool
  | .event _ => true
  | .step i _ =>
      match s.threads[i]? with
      | some ⟨_, _, .await (.getStories user) _⟩ => !s.threads.any (isCreating user)
      | _ => true

/-- The room that an operation has created for a user. -/
def createdBy (user : UserId) : (op : Op) → Option (Res op) → Option RoomId
  | .createRoom user', some room => if user' = user then some room else none
  | _, _ => none

/-- The rooms that were created for a user. -/
def created (user : UserId) (log : List LogEntry) : List RoomId :=
  log.filterMap fun e => createdBy user e.done.op e.done.ans

/-- The operation begins a call for the user. -/
def Op.begins (user : UserId) : Op → Bool
  | .getStories user' => user' = user
  | _ => false

/-- The operation ends a call for the user. -/
def Op.ends (user : UserId) : Op → Bool
  | .returned user' _ => user' = user
  | _ => false

/-- How many operations of a thread are such. -/
def times (i : ℕ) (f : Op → Bool) (log : List LogEntry) : ℕ :=
  log.countP fun e => e.thread = i && f e.done.op

/-- At most one room is created for a user; what a call for the user returns is that room, if one
was created, and is what the account data names; and in the end the account data names the room that
was created, and every call has returned. -/
def OneForEach (s : State) : Prop :=
  (∀ user, (created user s.log).length ≤ 1) ∧
  (∀ e ∈ s.log, ∀ user room, e.done.op = .returned user room →
    s.world.storiesRoom user = some room ∧ ∀ r ∈ created user s.log, r = room) ∧
  (Idle s → ∀ user, (∀ r ∈ created user s.log, s.world.storiesRoom user = some r) ∧
    ∀ i, times i (Op.begins user) s.log = times i (Op.ends user) s.log)

/-! ### The phases of a call -/

/-- Where a thread stands. -/
inductive Phase where
  | idle
  | creating (user : UserId)
  | recording (user : UserId) (room : RoomId)
  | returning (user : UserId) (room : RoomId)

/-- The operation has nothing to do with the stories room of a user. -/
def Op.quiet : Op → Bool
  | .getStories _ => false
  | .createRoom _ => false
  | .putStories _ _ => false
  | .returned _ _ => false
  | _ => true

/-- How an operation and its answer move a thread. -/
def next : Phase → (op : Op) → Res op → Option Phase
  | .idle, .getStories user, some room => some (.returning user room)
  | .idle, .getStories user, none => some (.creating user)
  | .creating user, .createRoom user', room =>
      if user' = user then some (.recording user room) else none
  | .recording user room, .putStories user' room', _ =>
      if user' = user ∧ room' = room then some (.returning user room) else none
  | .returning user room, .returned user' room', _ =>
      if user' = user ∧ room' = room then some .idle else none
  | .idle, op, _ => if op.quiet then some .idle else none
  | _, _, _ => none

/-- A move of a thread, case by case. -/
inductive Moves : Phase → (op : Op) → Res op → Phase → Prop
  | found (user : UserId) (room : RoomId) :
      Moves .idle (.getStories user) (some room) (.returning user room)
  | missing (user : UserId) : Moves .idle (.getStories user) none (.creating user)
  | create (user : UserId) (room : RoomId) :
      Moves (.creating user) (.createRoom user) room (.recording user room)
  | record (user : UserId) (room : RoomId) :
      Moves (.recording user room) (.putStories user room) () (.returning user room)
  | returned (user : UserId) (room : RoomId) :
      Moves (.returning user room) (.returned user room) () .idle
  | quiet (op : Op) (r : Res op) (h : op.quiet = true) : Moves .idle op r .idle

/-- **What a move of the automaton can be.** -/
theorem moves_of_next {p q : Phase} {op : Op} {r : Res op} (h : next p op r = some q) :
    Moves p op r q := by
  cases p with
  | idle =>
      cases op with
      | getStories user =>
          cases r with
          | none =>
              obtain rfl := Option.some.inj h
              exact .missing user
          | some room =>
              obtain rfl := Option.some.inj h
              exact .found user room
      | createRoom user => cases h
      | putStories user room => cases h
      | returned user room => cases h
      | _ =>
          obtain rfl := Option.some.inj h
          exact .quiet _ r rfl
  | creating user =>
      cases op with
      | createRoom user' =>
          simp only [next] at h
          split at h
          · rename_i huser
            subst huser
            obtain rfl := Option.some.inj h
            exact .create user' r
          · cases h
      | _ => cases h
  | recording user room =>
      cases op with
      | putStories user' room' =>
          simp only [next] at h
          split at h
          · rename_i heq
            obtain ⟨rfl, rfl⟩ := heq
            obtain rfl := Option.some.inj h
            exact .record user' room'
          · cases h
      | _ => cases h
  | returning user room =>
      cases op with
      | returned user' room' =>
          simp only [next] at h
          split at h
          · rename_i heq
            obtain ⟨rfl, rfl⟩ := heq
            obtain rfl := Option.some.inj h
            exact .returned user' room'
          · cases h
      | _ => cases h

section Code

variable {cfg : Config} {t : Code Unit}

theorem follows_call {op : Op} (h : op.quiet = true) : (call op).Follows next .idle .idle := by
  refine Follows.call fun r => ?_
  cases op with
  | getStories user => cases h
  | createRoom user => cases h
  | putStories user room => cases h
  | returned user room => cases h
  | _ => rfl

/-- `ensure_stories_room` goes through the phases. -/
theorem follows_ensureStoriesRoom (user : UserId) :
    (ensureStoriesRoom user).Follows next .idle .idle := by
  intro existing
  cases existing with
  | some room =>
      refine ⟨.returning user room, rfl, fun _ => ⟨.idle, ?_, rfl⟩⟩
      exact if_pos ⟨rfl, rfl⟩
  | none =>
      refine ⟨.creating user, rfl, fun room => ⟨.recording user room, if_pos rfl, fun _ => ?_⟩⟩
      refine ⟨.returning user room, if_pos ⟨rfl, rfl⟩, fun _ => ⟨.idle, ?_, rfl⟩⟩
      exact if_pos ⟨rfl, rfl⟩

theorem follows_isAiUser (user : UserId) : (isAiUser cfg user).Follows next .idle .idle := by
  unfold isAiUser
  split
  · rfl
  · split
    · exact Follows.orElse ((follows_call rfl).bind fun _ => rfl) rfl
    · rfl

theorem follows_ensurePushRule (user : UserId) (rule : PyStr) :
    (ensurePushRule user rule).Follows next .idle .idle := by
  refine Follows.orElse ((follows_call rfl).bind fun existing => ?_) rfl
  split
  · rfl
  · exact follows_call rfl

theorem follows_inviteIntoOwnerRoom (owner guest : UserId) :
    (inviteIntoOwnerRoom cfg owner guest).Follows next .idle .idle := by
  have hinvite : ∀ room,
      ((call (.invite owner guest room)).orElse (.ret ())).Follows next .idle .idle :=
    fun room => (follows_call rfl).orElse rfl
  unfold inviteIntoOwnerRoom
  split
  · refine (follows_ensureStoriesRoom owner).bind fun room => ?_
    split
    · exact (follows_ensurePushRule _ _).bind fun _ => (follows_ensurePushRule _ _).bind fun _ =>
        hinvite room
    · split
      · exact hinvite room
      · rfl
  · rfl

theorem follows_subscribePair (a b : UserId) : (subscribePair cfg a b).Follows next .idle .idle := by
  refine (follows_isAiUser a).bind fun first => ?_
  split
  · rfl
  · refine (follows_isAiUser b).bind fun second => ?_
    split
    · rfl
    · exact (follows_inviteIntoOwnerRoom a b).bind fun _ => follows_inviteIntoOwnerRoom b a

/-- **Every job goes through the phases.** -/
theorem follows_code (job : Job) : (job.code cfg).Follows next .idle .idle := by
  cases job with
  | ensure user => exact (follows_ensureStoriesRoom user).bind fun _ => rfl
  | pair a b => exact follows_subscribePair a b
  | joined user others => exact Follows.forEach (follows_subscribePair user) others
  | backfill reachable =>
      refine Follows.bind (Follows.orElse ((follows_call rfl).bind fun _ => rfl) rfl) fun found => ?_
      cases found with
      | none => rfl
      | some pairs =>
          refine Follows.forEach (fun pair => ?_) _
          refine Follows.bind (Follows.orElse ((follows_subscribePair _ _).bind fun _ => rfl) rfl)
            fun done => ?_
          split
          · exact follows_call rfl
          · rfl

/-- A thread that is to create a room, or to write one, awaits that. -/
theorem isCreating_of_follows {p : Phase} {user : UserId} {u : Thread Job Op Res}
    (h : u.rest.Follows next .idle p) (hp : p = .creating user ∨ ∃ room, p = .recording user room) :
    isCreating user u = true := by
  obtain ⟨o, job, rest⟩ := u
  cases rest with
  | ret a =>
      obtain rfl : p = .idle := h
      rcases hp with hp | ⟨room, hp⟩ <;> cases hp
  | raised =>
      obtain rfl : p = .idle := h
      rcases hp with hp | ⟨room, hp⟩ <;> cases hp
  | await op k =>
      have hres : Nonempty (Res op) := by cases op <;> exact ⟨default⟩
      obtain ⟨r⟩ := hres
      obtain ⟨q, hq, -⟩ := h r
      have hmoves := moves_of_next hq
      rcases hp with rfl | ⟨room, rfl⟩
      · cases hmoves
        exact decide_eq_true rfl
      · cases hmoves
        exact decide_eq_true rfl

end Code

/-! ### The invariant -/

/-- The thread is to create or to write the room of the user. -/
def Phase.creates (user : UserId) : Phase → Bool
  | .creating user' => user' = user
  | .recording user' _ => user' = user
  | _ => false

/-- The user whose room a thread is concerned with. -/
def Phase.user : Phase → Option UserId
  | .idle => none
  | .creating user => some user
  | .recording user _ => some user
  | .returning user _ => some user

/-- One thread at a time creates the room of a user. -/
def One (ps : List Phase) : Prop :=
  ∀ (i j : ℕ) (p q : Phase) (user : UserId), ps[i]? = some p → ps[j]? = some q →
    p.creates user = true → q.creates user = true → i = j

/-- What a phase says of the rooms that were created and of the account data. -/
def Fits (s : State) : Phase → Prop
  | .idle => True
  | .creating user => created user s.log = [] ∧ s.world.storiesRoom user = none
  | .recording user room => created user s.log = [room] ∧ s.world.storiesRoom user = none
  | .returning user room => s.world.storiesRoom user = some room

/-- What holds in every state of a run in turn. -/
structure Inv (ps : List Phase) (s : State) : Prop where
  one : One ps
  fits : ∀ p ∈ ps, Fits s p
  returned : ∀ e ∈ s.log, ∀ user room, e.done.op = .returned user room →
    s.world.storiesRoom user = some room
  named : ∀ user, created user s.log = [] ∨ ∃ room, created user s.log = [room] ∧
    (s.world.storiesRoom user = some room ∨ Phase.recording user room ∈ ps)

section Phases

variable {ps : List Phase} {s t : State} {i : ℕ} {p q : Phase} {user : UserId} {room : RoomId}

/-- A phase says nothing of other users. -/
theorem Fits.congr (h : ∀ user, p.user = some user → created user t.log = created user s.log ∧
    t.world.storiesRoom user = s.world.storiesRoom user) (hp : Fits s p) : Fits t p := by
  cases p with
  | idle => exact trivial
  | creating user =>
      obtain ⟨hc, hr⟩ := h user rfl
      exact ⟨hc.trans hp.1, hr.trans hp.2⟩
  | recording user room =>
      obtain ⟨hc, hr⟩ := h user rfl
      exact ⟨hc.trans hp.1, hr.trans hp.2⟩
  | returning user room => exact (h user rfl).2.trans hp

/-- A thread that moves on to where it creates no room, or as many rooms as before. -/
theorem One.moved (h : One ps) (hp : ps[i]? = some p)
    (hq : ∀ user, q.creates user = true → p.creates user = true) : One (ps.set i q ++ []) := by
  have hold : ∀ (l : ℕ) (r : Phase) (user : UserId), (ps.set i q ++ [])[l]? = some r →
      r.creates user = true → ∃ r', ps[l]? = some r' ∧ r'.creates user = true := by
    intro l r user hl hr
    rcases getElem?_moved hl with ⟨rfl, rfl⟩ | ⟨-, hl⟩ | hnew
    · exact ⟨p, hp, hq user hr⟩
    · exact ⟨r, hl, hr⟩
    · cases hnew
  intro l l' r r' user hl hl' hr hr'
  obtain ⟨r₁, hr₁, hc₁⟩ := hold l r user hl hr
  obtain ⟨r₂, hr₂, hc₂⟩ := hold l' r' user hl' hr'
  exact h l l' r₁ r₂ user hr₁ hr₂ hc₁ hc₂

/-- A thread that begins to create the room of a user while no other does. -/
theorem One.begin (h : One ps) (hothers : ∀ r ∈ ps, r.creates user = false) :
    One (ps.set i (.creating user) ++ []) := by
  intro l l' r r' user' hl hl' hr hr'
  rcases getElem?_moved hl with ⟨hli, hrq⟩ | ⟨-, hl⟩ | hnew
  · rcases getElem?_moved hl' with ⟨hli', -⟩ | ⟨-, hl'⟩ | hnew
    · exact hli.trans hli'.symm
    · rw [hrq] at hr
      obtain rfl : user = user' := of_decide_eq_true hr
      rw [hothers r' (List.mem_of_getElem? hl')] at hr'
      cases hr'
    · cases hnew
  · rcases getElem?_moved hl' with ⟨-, hrq⟩ | ⟨-, hl'⟩ | hnew
    · rw [hrq] at hr'
      obtain rfl : user = user' := of_decide_eq_true hr'
      rw [hothers r (List.mem_of_getElem? hl)] at hr
      cases hr
    · exact h l l' r r' user' hl hl' hr hr'
    · cases hnew
  · cases hnew

/-- While a thread creates the room of a user, no other is concerned with that room. -/
theorem Inv.user_ne (hs : Inv ps s) (hp : ps[i]? = some p) (hcreates : p.creates user = true)
    (hnone : s.world.storiesRoom user = none) {l : ℕ} {r : Phase} (hne : l ≠ i)
    (hl : ps[l]? = some r) : r.user ≠ some user := by
  intro huser
  cases r with
  | idle => cases huser
  | creating user' =>
      obtain rfl := Option.some.inj huser
      exact hne (hs.one l i _ p _ hl hp (decide_eq_true rfl) hcreates)
  | recording user' room =>
      obtain rfl := Option.some.inj huser
      exact hne (hs.one l i _ p _ hl hp (decide_eq_true rfl) hcreates)
  | returning user' room =>
      obtain rfl := Option.some.inj huser
      have hroom : s.world.storiesRoom user' = some room := hs.fits _ (List.mem_of_getElem? hl)
      rw [hnone] at hroom
      cases hroom

end Phases

section Step

variable {cfg : Config} {found : Found} {ps : List Phase} {s : State} {i o : ℕ} {job : Job} {op : Op}
  {p q : Phase} {k : Option (Res op) → Code Unit} {user : UserId} {room : RoomId}

/-- The state after an operation. -/
def after (cfg : Config) (found : Found) (s : State) (i o : ℕ) (job : Job) (op : Op)
    (k : Option (Res op) → Code Unit) : State :=
  { s with
    world := (complete cfg s.world found op).1
    threads := s.threads.set i ⟨o, job, k (complete cfg s.world found op).2⟩ ++ []
    log := ⟨i, o, job, s.world, ⟨op, (complete cfg s.world found op).2⟩⟩ :: s.log }

/-- The rooms that were created after an operation. -/
theorem created_after_eq (user : UserId) : created user (after cfg found s i o job op k).log =
    (createdBy user op (complete cfg s.world found op).2).toList ++ created user s.log := by
  unfold after created
  rw [List.filterMap_cons]
  split
  · rename_i hnone
    rw [hnone]
    rfl
  · rename_i room hroom
    rw [hroom]
    rfl

/-- Only `createRoom` adds to the rooms that were created. -/
theorem created_after (h : ∀ user, op ≠ .createRoom user) (user : UserId) :
    created user (after cfg found s i o job op k).log = created user s.log := by
  have hnone : createdBy user op (complete cfg s.world found op).2 = none := by
    cases op with
    | createRoom user' => exact absurd rfl (h user')
    | _ => rfl
  rw [created_after_eq, hnone]
  rfl

/-- Only `putStories` changes what the account data names. -/
theorem storiesRoom_after (h : ∀ user room, op ≠ .putStories user room) (user : UserId) :
    (after cfg found s i o job op k).world.storiesRoom user = s.world.storiesRoom user := by
  cases op with
  | putStories user' room' => exact absurd rfl (h user' room')
  | _ => rfl

/-- An operation that creates and writes no room, of a thread that does not create one. -/
theorem Inv.move (hs : Inv ps s) (hp : ps[i]? = some p) (hcreate : ∀ user, op ≠ .createRoom user)
    (hput : ∀ user room, op ≠ .putStories user room) (hone : One (ps.set i q ++ []))
    (hidle : ∀ user room, p ≠ .recording user room) (hq : Fits s q)
    (hop : ∀ user room, op = .returned user room → s.world.storiesRoom user = some room) :
    Inv (ps.set i q ++ []) (after cfg found s i o job op k) := by
  have hcreated : ∀ user, created user (after cfg found s i o job op k).log = created user s.log :=
    created_after hcreate
  have hroom : ∀ user, (after cfg found s i o job op k).world.storiesRoom user =
      s.world.storiesRoom user := storiesRoom_after hput
  refine ⟨hone, fun r hr => ?_, fun e he user room hreturned => ?_, fun user => ?_⟩
  · refine Fits.congr (fun user _ => ⟨hcreated user, hroom user⟩) ?_
    obtain ⟨l, hl⟩ := List.mem_iff_getElem?.1 hr
    rcases getElem?_moved hl with ⟨-, rfl⟩ | ⟨-, hl⟩ | hnew
    · exact hq
    · exact hs.fits r (List.mem_of_getElem? hl)
    · cases hnew
  · rw [hroom]
    rcases List.mem_cons.1 he with rfl | he
    · exact hop user room hreturned
    · exact hs.returned e he user room hreturned
  · rw [hcreated, hroom]
    refine (hs.named user).imp id (Exists.imp fun room => And.imp id (Or.imp id fun hmem => ?_))
    exact (mem_moved q [] hp hmem).resolve_left fun heq => hidle user room heq.symm

/-- The operations of other threads say nothing of a user whose room is being created. -/
theorem Inv.fits_others {t : State} (hs : Inv ps s) (hp : ps[i]? = some p)
    (hcreates : p.creates user = true) (hnone : s.world.storiesRoom user = none)
    (hcreated : ∀ user', user' ≠ user → created user' t.log = created user' s.log)
    (hroom : ∀ user', user' ≠ user → t.world.storiesRoom user' = s.world.storiesRoom user')
    (hq : Fits t q) : ∀ r ∈ ps.set i q ++ [], Fits t r := by
  intro r hr
  obtain ⟨l, hl⟩ := List.mem_iff_getElem?.1 hr
  rcases getElem?_moved hl with ⟨-, rfl⟩ | ⟨hne, hl⟩ | hnew
  · exact hq
  · refine Fits.congr (fun user' huser' => ?_) (hs.fits r (List.mem_of_getElem? hl))
    have hother : user' ≠ user := by
      rintro rfl
      exact hs.user_ne hp hcreates hnone hne hl huser'
    exact ⟨hcreated user' hother, hroom user' hother⟩
  · cases hnew

/-- A thread creates the room of a user. -/
theorem Inv.create {k : Option (Res (.createRoom user)) → Code Unit} (hs : Inv ps s)
    (hp : ps[i]? = some (.creating user))
    (hroom : (complete cfg s.world found (.createRoom user)).2 = some room) :
    Inv (ps.set i (.recording user room) ++ [])
      (after cfg found s i o job (.createRoom user) k) := by
  obtain ⟨hcreated, hnone⟩ : Fits s (.creating user) := hs.fits _ (List.mem_of_getElem? hp)
  have hmine : created user (after cfg found s i o job (.createRoom user) k).log = [room] := by
    rw [created_after_eq, hroom, hcreated, createdBy, if_pos rfl]
    rfl
  have hothers : ∀ user', user' ≠ user →
      created user' (after cfg found s i o job (.createRoom user) k).log = created user' s.log := by
    intro user' hne
    rw [created_after_eq, hroom, createdBy, if_neg hne.symm]
    rfl
  have hrooms : ∀ user', (after cfg found s i o job (.createRoom user) k).world.storiesRoom user' =
      s.world.storiesRoom user' := storiesRoom_after fun _ _ => by simp
  refine ⟨hs.one.moved hp fun user' h => h, ?_, fun e he user' room' hreturned => ?_,
    fun user' => ?_⟩
  · refine hs.fits_others hp (decide_eq_true rfl) hnone hothers (fun user' _ => hrooms user') ?_
    exact ⟨hmine, (hrooms user).trans hnone⟩
  · rw [hrooms]
    rcases List.mem_cons.1 he with rfl | he
    · cases hreturned
    · exact hs.returned e he user' room' hreturned
  · by_cases huser : user' = user
    · subst huser
      exact .inr ⟨room, hmine, .inr (List.mem_of_getElem? (moved_self hp))⟩
    · rw [hothers user' huser, hrooms]
      refine (hs.named user').imp id (Exists.imp fun r => And.imp id (Or.imp id fun hmem => ?_))
      refine (mem_moved _ [] hp hmem).resolve_left fun heq => ?_
      cases heq

/-- A thread writes the room of a user. -/
theorem Inv.record {k : Option (Res (.putStories user room)) → Code Unit} (hs : Inv ps s)
    (hp : ps[i]? = some (.recording user room)) :
    Inv (ps.set i (.returning user room) ++ [])
      (after cfg found s i o job (.putStories user room) k) := by
  obtain ⟨hcreated, hnone⟩ : Fits s (.recording user room) := hs.fits _ (List.mem_of_getElem? hp)
  have hrooms : ∀ user', created user' (after cfg found s i o job (.putStories user room) k).log =
      created user' s.log := created_after fun _ => by simp
  have hmine : (after cfg found s i o job (.putStories user room) k).world.storiesRoom user =
      some room := by
    simp [after, complete, World.storiesRoom]
  have hothers : ∀ user', user' ≠ user →
      (after cfg found s i o job (.putStories user room) k).world.storiesRoom user' =
        s.world.storiesRoom user' := by
    intro user' hne
    simp [after, complete, World.storiesRoom, hne.symm]
  refine ⟨hs.one.moved hp fun user' h => (by cases h), ?_,
    fun e he user' room' hreturned => ?_, fun user' => ?_⟩
  · exact hs.fits_others hp (decide_eq_true rfl) hnone (fun user' _ => hrooms user') hothers hmine
  · rcases List.mem_cons.1 he with rfl | he
    · cases hreturned
    · have hroom' := hs.returned e he user' room' hreturned
      have huser : user' ≠ user := by
        rintro rfl
        rw [hnone] at hroom'
        cases hroom'
      exact (hothers user' huser).trans hroom'
  · rw [hrooms]
    by_cases huser : user' = user
    · subst huser
      exact .inr ⟨room, hcreated, .inl hmine⟩
    · rw [hothers user' huser]
      refine (hs.named user').imp id (Exists.imp fun r => And.imp id (Or.imp id fun hmem => ?_))
      refine (mem_moved _ [] hp hmem).resolve_left fun heq => ?_
      cases heq
      exact huser rfl

/-- A thread reads the account data of a user, and finds no room. -/
theorem Inv.missing {k : Option (Res (.getStories user)) → Code Unit} (hs : Inv ps s)
    (hp : ps[i]? = some .idle) (hnone : s.world.storiesRoom user = none)
    (hothers : ∀ r ∈ ps, r.creates user = false) :
    Inv (ps.set i (.creating user) ++ []) (after cfg found s i o job (.getStories user) k) := by
  refine hs.move hp (fun _ => by simp) (fun _ _ => by simp) (hs.one.begin hothers)
    (fun _ _ => by simp) ⟨?_, hnone⟩ (fun _ _ => by simp)
  rcases hs.named user with h | ⟨room, -, hroom | hmem⟩
  · exact h
  · rw [hnone] at hroom
    cases hroom
  · have := hothers _ hmem
    exact absurd (decide_eq_true rfl) (Bool.eq_false_iff.1 this)

/-- **Every operation in turn keeps the invariant.** -/
theorem Inv.performed {r : Res op} (hs : Inv ps s) (hp : ps[i]? = some p)
    (hr : (complete cfg s.world found op).2 = some r) (hmoves : Moves p op r q)
    (hothers : ∀ user, op = .getStories user → ∀ p ∈ ps, p.creates user = false) :
    Inv (ps.set i q ++ []) (after cfg found s i o job op k) := by
  cases hmoves with
  | found user room =>
      have hroom : s.world.storiesRoom user = some room := Option.some.inj hr
      exact hs.move hp (fun _ => by simp) (fun _ _ => by simp)
        (hs.one.moved hp fun _ h => (by cases h)) (fun _ _ => by simp) hroom (fun _ _ => by simp)
  | missing user => exact hs.missing hp (Option.some.inj hr) (hothers user rfl)
  | create user => exact hs.create hp hr
  | record user room => exact hs.record hp
  | returned user room =>
      have hroom : Fits s (.returning user room) := hs.fits _ (List.mem_of_getElem? hp)
      refine hs.move hp (fun _ => by simp) (fun _ _ => by simp)
        (hs.one.moved hp fun _ h => (by cases h)) (fun _ _ => by simp) trivial ?_
      rintro user' room' ⟨⟩
      exact hroom
  | quiet op r hquiet =>
      refine hs.move hp ?_ ?_ (hs.one.moved hp fun _ h => (by cases h)) (fun _ _ => by simp) trivial ?_
      · rintro user rfl
        cases hquiet
      · rintro user room rfl
        cases hquiet
      · rintro user room rfl
        cases hquiet

end Step

/-! ### Every call that has begun returns -/

/-- A call for the user is under way. -/
def underWay (user : UserId) (p : Option Phase) : ℕ :=
  if p.bind Phase.user = some user then 1 else 0

/-- Of the calls that a thread has begun, all have returned but the one under way. -/
def Balanced (ps : List Phase) (log : List LogEntry) : Prop :=
  ∀ i user, times i (Op.begins user) log = times i (Op.ends user) log + underWay user ps[i]?

section Balance

variable {ps : List Phase} {log : List LogEntry} {i : ℕ} {op : Op} {r : Res op} {p q : Phase}

theorem Moves.balance (h : Moves p op r q) (user : UserId) :
    (if op.begins user then 1 else 0) + underWay user (some p) =
      (if op.ends user then 1 else 0) + underWay user (some q) := by
  cases h with
  | quiet op r hquiet => cases op <;> first | rfl | cases hquiet
  | _ => simp [Op.begins, Op.ends, underWay, Phase.user]

theorem times_cons (f : Op → Bool) (e : LogEntry) (log : List LogEntry) :
    times i f (e :: log) = times i f log + if e.thread = i ∧ f e.done.op = true then 1 else 0 := by
  simp [times, List.countP_cons]

/-- One operation of a thread. -/
theorem Balanced.moved {e : LogEntry} {r : Res e.done.op} (h : Balanced ps log)
    (hp : ps[e.thread]? = some p) (hmoves : Moves p e.done.op r q) :
    Balanced (ps.set e.thread q ++ []) (e :: log) := by
  intro l user
  rw [times_cons, times_cons, h l user]
  by_cases hl : e.thread = l
  · subst hl
    have := hmoves.balance user
    rw [moved_self hp, hp]
    simp only [true_and]
    omega
  · rw [List.append_nil, List.getElem?_set_ne hl]
    simp [hl]

theorem Balanced.event (h : Balanced ps log) : Balanced (ps ++ [.idle]) log := by
  intro l user
  rw [h l user, List.getElem?_append]
  split
  · rfl
  · rename_i hge
    rw [List.getElem?_eq_none (Nat.le_of_not_lt hge)]
    rcases l - ps.length with _ | n <;> rfl

end Balance

/-! ### Whole runs -/

/-- The threads stand at phases that keep the invariant. -/
def Placed (s : State) : Prop :=
  ∃ ps, Located (fun p u => u.Follows next .idle p) ps s ∧ Inv ps s ∧ Balanced ps s.log

theorem placed_start (w : World) : Placed (start w) := by
  refine ⟨[], .nil, ⟨?_, ?_, ?_, ?_⟩, fun i user => rfl⟩
  · intro i j p q user hi
    cases hi
  · intro p hp
    cases hp
  · intro e he
    cases he
  · exact fun user => .inl rfl

section Run

variable {cfg : Config} {s t : State}

/-- A job starts. -/
theorem Placed.event {job : Job} (hs : Placed s) (h : (system cfg).step s (.event job) = some t) :
    Placed t := by
  obtain ⟨ps, hloc, hinv, hbal⟩ := hs
  refine ⟨ps ++ [.idle], hloc.event rfl h (.cons (follows_code job) .nil), ?_, ?_⟩
  · obtain rfl := Option.some.inj h
    refine ⟨?_, fun p hp => ?_, hinv.returned, fun user => ?_⟩
    · intro l l' p q user hl hl' hcp hcq
      have hold : ∀ (l : ℕ) (p : Phase), (ps ++ [.idle])[l]? = some p → p.creates user = true →
          ps[l]? = some p := by
        intro l p hl hcp
        rw [List.getElem?_append] at hl
        split at hl
        · exact hl
        · obtain rfl := List.mem_singleton.1 (List.mem_of_getElem? hl)
          cases hcp
      exact hinv.one l l' p q user (hold l p hl hcp) (hold l' q hl' hcq) hcp hcq
    · rcases List.mem_append.1 hp with hp | hp
      · exact Fits.congr (fun _ _ => ⟨rfl, rfl⟩) (hinv.fits p hp)
      · obtain rfl := List.mem_singleton.1 hp
        exact trivial
    · exact (hinv.named user).imp id (Exists.imp fun room => And.imp id
        (Or.imp id fun hmem => List.mem_append.2 (.inl hmem)))
  · obtain rfl := Option.some.inj h
    exact hbal.event

/-- Where a thread reads the account data in turn, no phase is one of creating the room. -/
theorem creates_of_inTurn {ps : List Phase} {i o : ℕ} {job : Job} {user : UserId} {found : Found}
    {k : Option (Res (.getStories user)) → Code Unit}
    (hloc : Located (fun p u => u.Follows next .idle p) ps s)
    (hi : s.threads[i]? = some ⟨o, job, .await (.getStories user) k⟩)
    (hturn : InTurn s (.step i found) = true) : ∀ p ∈ ps, p.creates user = false := by
  have hnone : s.threads.any (isCreating user) = false := by
    simpa [InTurn, hi] using hturn
  intro p hp
  obtain ⟨l, hl⟩ := List.mem_iff_getElem?.1 hp
  obtain ⟨u, hu, hfollows⟩ := forall₂_getElem? hloc.flip hl
  by_contra hcreates
  refine List.any_eq_false.1 hnone u (List.mem_of_getElem? hu) (isCreating_of_follows hfollows ?_)
  cases p with
  | creating user' =>
      obtain rfl : user' = user := by simpa [Phase.creates] using hcreates
      exact .inl rfl
  | recording user' room =>
      obtain rfl : user' = user := by simpa [Phase.creates] using hcreates
      exact .inr ⟨room, rfl⟩
  | _ => exact absurd rfl hcreates

/-- **Every move in turn keeps the threads at phases that keep the invariant.** -/
theorem Placed.step {m : Act} (hs : Placed s) (hturn : InTurn s m = true)
    (h : (system cfg).step s m = some t) : Placed t := by
  rcases System.step_cases h with ⟨job, rfl, -⟩ | ⟨i, found, o, job, op, k, rfl, hi, ht⟩
  · exact hs.event h
  · obtain ⟨ps, hloc, hinv, hbal⟩ := hs
    obtain ⟨r, hr⟩ : ∃ r, (complete cfg s.world found op).2 = some r := by
      cases op <;> exact ⟨_, rfl⟩
    obtain ⟨p, q, hp, hnext, hloc'⟩ := hloc.follow hi h hr rfl
    have hmoves := moves_of_next hnext
    have hothers : ∀ user, op = .getStories user → ∀ p ∈ ps, p.creates user = false := by
      rintro user rfl
      exact creates_of_inTurn hloc hi hturn
    refine ⟨ps.set i q ++ [], hloc', ?_, ?_⟩
    · rw [ht]
      exact hinv.performed hp hr hmoves hothers
    · rw [ht]
      exact Balanced.moved (e := ⟨i, o, job, s.world, ⟨op, _⟩⟩) hbal hp hmoves

end Run

/-- **In a run in turn, a user gets one stories room.** -/
theorem one_stories_room {cfg : Config} {w : World} {as : List Act} {s : State}
    (h : Exec (system cfg).step (fun s m => InTurn s m = true) (start w) as s) : OneForEach s := by
  obtain ⟨ps, hloc, hinv, hbal⟩ : Placed s :=
    h.invariant (placed_start w) fun _ _ _ hs hturn h => hs.step hturn h
  refine ⟨fun user => ?_, fun e he user room hreturned => ?_, fun hidle user => ?_⟩
  · rcases hinv.named user with hnone | ⟨room, hroom, -⟩
    · rw [hnone]
      exact Nat.zero_le 1
    · rw [hroom]
      exact Nat.le_refl 1
  · have hroom := hinv.returned e he user room hreturned
    refine ⟨hroom, fun r hr => ?_⟩
    rcases hinv.named user with hnone | ⟨room', hroom', hnamed | hmem⟩
    · rw [hnone] at hr
      cases hr
    · rw [hroom'] at hr
      obtain rfl := List.mem_singleton.1 hr
      exact Option.some.inj (hnamed.symm.trans hroom)
    · have hfits : Fits s (.recording user room') := hinv.fits _ hmem
      rw [hfits.2] at hroom
      cases hroom
  · have hidles : ∀ p ∈ ps, p = .idle := by
      intro p hp
      obtain ⟨u, hended, hfollows⟩ := hloc.idle hidle hp
      cases u with
      | ret a => exact hfollows
      | raised => exact hfollows
      | await op k => exact hended.elim
    refine ⟨fun r hr => ?_, fun i => ?_⟩
    · rcases hinv.named user with hnone | ⟨room', hroom', hnamed | hmem⟩
      · rw [hnone] at hr
        cases hr
      · rw [hroom'] at hr
        obtain rfl := List.mem_singleton.1 hr
        exact hnamed
      · cases hidles _ hmem
    · rw [hbal i user]
      cases hi : ps[i]? with
      | none => rfl
      | some p =>
          obtain rfl := hidles p (List.mem_of_getElem? hi)
          rfl

/-- Alice appears in a direct chat with bob, and in one with carol. -/
def twoChats : List Act :=
  [.event (.pair "@alice:h" "@bob:h"), .event (.joined "@alice:h" ["@carol:h"])]

/-- A thread goes on for `n` operations. -/
def goOn (i n : ℕ) : List Act := List.replicate n (.step i ⟨[], true⟩)

/-- Where the second subscription waits for the first, alice gets one room. -/
theorem two_chats_one_room : ∃ s, Exec (system config).step (fun s m => InTurn s m = true)
    (start blank) (twoChats ++ (goOn 0 16 ++ goOn 1 14)) s ∧
      (Idle s ∧ created "@alice:h" s.log = [py "r"] ∧ times 1 (Op.begins "@alice:h") s.log = 1) ∧
      OneForEach s := by
  obtain ⟨s, hrun, hs⟩ := exists_exec_of_runs (f := (system config).step)
    (C := fun s m => InTurn s m = true) (s := start blank)
    (l := twoChats ++ (goOn 0 16 ++ goOn 1 14))
    (p := fun s => Idle s ∧ created "@alice:h" s.log = [py "r"] ∧
      times 1 (Op.begins "@alice:h") s.log = 1) (by decide)
  exact ⟨s, hrun, hs, one_stories_room hrun⟩

/-- **Two contacts that appear together give alice two rooms.** -/
theorem two_chats_two_rooms : ¬∀ (cfg : Config) (w : World) (as : List Act) (s : State),
    Exec (system cfg).step (fun _ _ => True) (start w) as s → OneForEach s := by
  intro hall
  obtain ⟨s, hrun, htwo⟩ := exists_exec_of_runs (f := (system config).step) (C := fun _ _ => True)
    (s := start blank) (l := twoChats ++ (goOn 0 3 ++ goOn 1 3 ++ goOn 0 1 ++ goOn 1 1))
    (p := fun s => (created "@alice:h" s.log).length = 2) (by decide)
  have hone := (hall _ _ _ _ hrun).1 "@alice:h"
  omega

end OneRoom
end StoriesMembership
end Liza
