/-
# One main space for a server

`modules/single_space_guard`.  A space is a root space when no room has an `m.space.child` event
with its id as the state key, and the earliest root space is the main one, the company.
`on_create_room` refuses a second root space, `check_event_allowed` refuses to let anyone leave
the main space, and adds every new room that is not a direct chat to it.  Whether a room is a
direct chat is known to `on_create_room` only, which marks the user until the creation event of
the room is checked.

The module and what it sees of Synapse are a transition system.  What runs between two awaits is
one step; a request (`RoomCreationHandler.create_room`) may be rejected anywhere on its way.  The
lookup of the main space is a database transaction, and its answer is taken later.  Of the
database there are the creation events, the `m.space.child` events (an event with empty content,
which takes a child out, is still there) and `room_stats_state`, which is filled after a room is
created.  When the last user of this server leaves a room, Synapse deletes its current state: its
creation event is not found any more, and its `m.space.child` events are gone; `room_stats_state`
stays.  `m.space.parent` events are read only in the request, so they are no steps.
-/

import Liza.Lib.Json
import Liza.Lib.PyOps
import Liza.Lib.Run

set_option autoImplicit false

namespace Liza
namespace SpaceGuard

open Lib

/-- A user. -/
abbrev UserId := PyStr

/-- A room made on this server, by the request with a number, or one of another server. -/
inductive RoomId where
  | ofRequest (n : ℕ)
  | remote (n : ℕ)
deriving DecidableEq, Repr

/-- The room was created on this server. -/
def RoomId.isLocal : RoomId → Bool
  | .ofRequest _ => true
  | .remote _ => false

/-! ### `_guard.py` -/

/-- `creation_content.get("type") == "m.space"`; `none` for an exception. -/
def isSpaceConfig (config : Dict) : Option Bool :=
  match Json.or (config.get "creation_content") (.obj []) with
  | .obj content => some (Dict.get content "type" = .str "m.space")
  | _ => none

/-- `any(ev.get("type") == "m.space.parent" for ev in initial_state)`. -/
def hasParent : List Json → Option Bool
  | [] => some false
  | .obj ev :: rest =>
      if Dict.get ev "type" = .str "m.space.parent" then some true else hasParent rest
  | _ :: _ => none

/-- `is_root_space_creation`. -/
def isRootSpaceCreation (config : Dict) : Option Bool :=
  match isSpaceConfig config with
  | none => none
  | some false => some false
  | some true =>
      match Json.or (config.get "initial_state") (.arr []) with
      | .arr initialState => (hasParent initialState).map fun parent => !parent
      | _ => none

/-- `is_dm_creation`. -/
def isDmCreation (config : Dict) : Bool := (config.get "is_direct").truthy

/-- `is_protected_membership_change`. -/
def isProtectedMembershipChange (eventType : PyStr) (membership : Json) (room : RoomId)
    (mainRootSpace : Option RoomId) : Bool :=
  match mainRootSpace with
  | none => false
  | some main =>
      eventType = "m.room.member" ∧ (membership = .str "leave" ∨ membership = .str "ban") ∧
        room = main

/-- `is_auto_add_candidate`. -/
def isAutoAddCandidate (isSpace isDirect hasSpaceParent isLocal : Bool) : Bool :=
  isLocal && !isSpace && !isDirect && !hasSpaceParent

/-! ### The state -/

/-- What the database knows of a room: `ts` is the `origin_server_ts` of its creation event,
and `counted` that its type is in `room_stats_state`. -/
structure Room where
  isSpace : Bool
  creator : UserId
  ts : ℕ
  counted : Bool
deriving DecidableEq, Repr

/-- How far a request is. -/
inductive Phase where
  /-- `on_create_room` waits for the lookup of the main space -/
  | asking
  /-- the lookup of `on_create_room` has run -/
  | answered (main : Option RoomId)
  /-- `on_create_room` has returned -/
  | allowed
  /-- `check_event_allowed` of the creation event waits for the lookup -/
  | checking
  /-- the lookup of `check_event_allowed` has run -/
  | told (main : Option RoomId)
  /-- `check_event_allowed` waits for the creator of the main space -/
  | finding (main : RoomId)
  /-- `check_event_allowed` has returned; `main` is what it was told -/
  | checked (main : Option RoomId)
  /-- the creation event is stored -/
  | created (main : Option RoomId)
  | rejected
deriving DecidableEq, Repr

/-- A request to create a room. -/
structure Request where
  user : UserId
  config : Dict
  phase : Phase
deriving DecidableEq

/-- What becomes of a request when Synapse is stopped. -/
def Request.dropped (q : Request) : Request :=
  match q.phase with
  | .created _ => q
  | _ => { q with phase := .rejected }

/-- A background process `_add_room_to_main_space`. -/
structure Job where
  room : RoomId
  main : RoomId
  sender : UserId
deriving DecidableEq

/-- The database, the memory of the module, and what is under way: `left` are the rooms whose
current state is deleted, and `glances` the answers of lookups made by other callers, not taken
yet. -/
structure World where
  rooms : List (RoomId × Room)
  children : List (RoomId × RoomId)
  left : List RoomId
  cache : Option RoomId
  pendingDmSenders : List UserId
  requests : List Request
  glances : List (Option RoomId)
  jobs : List Job
deriving DecidableEq

/-- A new server. -/
def World.init : World := ⟨[], [], [], none, [], [], [], []⟩

/-- No room has an `m.space.child` event for `r`. -/
def World.NoParent (w : World) (r : RoomId) : Prop := ∀ c ∈ w.children, c.2 ≠ r

instance (w : World) (r : RoomId) : Decidable (w.NoParent r) :=
  inferInstanceAs (Decidable (∀ c ∈ w.children, c.2 ≠ r))

/-- The rows that the query of `_find_main_root_space_txn` finds. -/
def World.rows (w : World) : List (RoomId × Room) :=
  w.rooms.filter fun e => e.2.isSpace && e.2.counted && e.1 ∉ w.left &&
    w.children.all fun c => c.2 ≠ e.1

/-- `_find_main_root_space_txn`: a row with the smallest timestamp. -/
def World.Answer (w : World) : Option RoomId → Prop
  | none => w.rows = []
  | some r => ∃ e ∈ w.rows, e.1 = r ∧ ∀ f ∈ w.rows, e.2.ts ≤ f.2.ts

instance (w : World) : (answer : Option RoomId) → Decidable (w.Answer answer)
  | none => inferInstanceAs (Decidable (w.rows = []))
  | some r => inferInstanceAs (Decidable (∃ e ∈ w.rows, e.1 = r ∧ ∀ f ∈ w.rows, e.2.ts ≤ f.2.ts))

/-! ### The steps -/

/-- What can happen. -/
inductive Act where
  /-- a request reaches `on_create_room` -/
  | begin (user : UserId) (config : Dict)
  /-- the transaction of the lookup of a request -/
  | query (i : ℕ) (answer : Option RoomId)
  /-- the answer of the lookup of a request is taken -/
  | resume (i : ℕ)
  /-- a request is rejected -/
  | reject (i : ℕ)
  /-- the creation event of a request reaches `check_event_allowed` -/
  | check (i : ℕ)
  /-- the creator of the main space is found -/
  | creator (i : ℕ)
  /-- the creation event of a request is stored -/
  | persist (i : ℕ) (ts : ℕ)
  /-- the type of a room is written to `room_stats_state` -/
  | count (r : RoomId)
  /-- an `m.space.child` event in `room` for `r` -/
  | child (room r : RoomId)
  /-- a room of another server is joined -/
  | join (n : ℕ) (room : Room)
  /-- the last user of this server leaves a room -/
  | leave (room : RoomId)
  /-- a room that was left is joined again -/
  | back (room : RoomId)
  /-- the transaction of a lookup of another caller -/
  | glance (answer : Option RoomId)
  /-- the answer of a lookup of another caller is taken -/
  | settle (answer : Option RoomId)
  /-- Synapse is started again -/
  | restart
deriving DecidableEq

/-- The settings of the module and `is_mine`. -/
structure Server where
  isMine : UserId → Bool
  autoAddNew : Bool

namespace World

variable (w : World)

/-- A request gets to another point. -/
def setPhase (i : ℕ) (q : Request) (phase : Phase) : World :=
  { w with requests := w.requests.set i { q with phase := phase } }

/-- `get_main_root_space_id` keeps an answer that is not `None`. -/
def remember (answer : Option RoomId) : World :=
  match answer with
  | none => w
  | some r => { w with cache := some r }

/-- How `on_create_room` goes on after it has marked the user. -/
def startPhase (config : Dict) : Phase :=
  match isRootSpaceCreation config with
  | none => .rejected
  | some false => .allowed
  | some true => if w.cache.isSome then .rejected else .asking

/-- `on_create_room`, up to its first await. -/
def onCreateRoom (user : UserId) (config : Dict) : World :=
  { w with
    pendingDmSenders := if isDmCreation config then user :: w.pendingDmSenders
      else w.pendingDmSenders
    requests := w.requests ++ [⟨user, config, w.startPhase config⟩] }

/-- `check_event_allowed` of a creation event, from where the main space is known: the mark is
taken away. -/
def takeMark (S : Server) (i : ℕ) (q : Request) (main : Option RoomId) : World :=
  let isDirect := q.user ∈ w.pendingDmSenders
  let unmarked := { w with pendingDmSenders := w.pendingDmSenders.filter fun u => u ≠ q.user }
  match main with
  | none => unmarked.setPhase i q (.checked none)
  | some m =>
      if S.autoAddNew && isAutoAddCandidate (isSpaceConfig q.config = some true) isDirect false
          (S.isMine q.user) && RoomId.ofRequest i ≠ m then
        unmarked.setPhase i q (.finding m)
      else unmarked.setPhase i q (.checked (some m))

/-- `check_event_allowed` of a creation event. -/
def checkEvent (S : Server) (i : ℕ) (q : Request) : World :=
  match w.cache with
  | some m => w.takeMark S i q (some m)
  | none => w.setPhase i q .checking

/-- `_room_creator_txn`. -/
def roomCreator (main : RoomId) : Option UserId :=
  if main ∈ w.left then none
  else (w.rooms.find? fun e => e.1 = main).map fun e => e.2.creator

/-- The creator of the main space is found, and the room is added in the background. -/
def addRoom (i : ℕ) (q : Request) (main : RoomId) : World :=
  { w.setPhase i q (.checked (some main)) with
    jobs := match w.roomCreator main with
      | none => w.jobs
      | some creator => ⟨.ofRequest i, main, creator⟩ :: w.jobs }

/-- The room of a request is there. -/
def persistRoom (i : ℕ) (q : Request) (main : Option RoomId) (ts : ℕ) : World :=
  { w.setPhase i q (.created main) with
    rooms := (.ofRequest i, ⟨isSpaceConfig q.config = some true, q.user, ts, false⟩) :: w.rooms }

/-- A room comes into `room_stats_state`. -/
def counting (r : RoomId) : World :=
  { w with
    rooms := w.rooms.map fun e => if e.1 = r then (e.1, { e.2 with counted := true }) else e }

/-- The current state of a room is deleted. -/
def leaveRoom (room : RoomId) : World :=
  { w with
    children := w.children.filter fun c => c.1 ≠ room
    left := room :: w.left }

/-- A room has a current state again; its `m.space.child` events come one by one. -/
def backRoom (room : RoomId) : World := { w with left := w.left.filter fun r => r ≠ room }

/-- The memory of the module is empty, and nothing is under way. -/
def restarted : World :=
  { w with
    cache := none
    pendingDmSenders := []
    glances := []
    requests := w.requests.map Request.dropped }

end World

/-- One step. -/
def step (S : Server) (w : World) : Act → Option World
  | .begin user config => some (w.onCreateRoom user config)
  | .query i answer => do
      let q ← w.requests[i]?
      guard (w.Answer answer)
      match q.phase with
      | .asking => some (w.setPhase i q (.answered answer))
      | .checking => some (w.setPhase i q (.told answer))
      | _ => none
  | .resume i => do
      let q ← w.requests[i]?
      match q.phase with
      | .answered main =>
          some ((w.remember main).setPhase i q (if main.isSome then .rejected else .allowed))
      | .told main => some ((w.remember main).takeMark S i q main)
      | _ => none
  | .reject i => do
      let q ← w.requests[i]?
      match q.phase with
      | .created _ => none
      | _ => some (w.setPhase i q .rejected)
  | .check i => do
      let q ← w.requests[i]?
      match q.phase with
      | .allowed => some (w.checkEvent S i q)
      | _ => none
  | .creator i => do
      let q ← w.requests[i]?
      match q.phase with
      | .finding main => some (w.addRoom i q main)
      | _ => none
  | .persist i ts => do
      let q ← w.requests[i]?
      match q.phase with
      | .checked main => some (w.persistRoom i q main ts)
      | _ => none
  | .count r => some (w.counting r)
  | .child room r => some { w with children := (room, r) :: w.children }
  | .join n room =>
      if w.rooms.any fun e => e.1 = .remote n then none
      else some { w with rooms := (.remote n, { room with counted := false }) :: w.rooms }
  | .leave room => if w.rooms.any fun e => e.1 = room then some (w.leaveRoom room) else none
  | .back room => if room ∈ w.left then some (w.backRoom room) else none
  | .glance answer => do
      guard (w.Answer answer)
      some { w with glances := answer :: w.glances }
  | .settle answer =>
      if answer ∈ w.glances then some { w.remember answer with glances := w.glances.erase answer }
      else none
  | .restart => some w.restarted

/-! ### What a step can be -/

/-- The steps, one constructor for each point that a request can be at. -/
inductive Moves (S : Server) (w : World) : Act → World → Prop
  | begin (user : UserId) (config : Dict) :
      Moves S w (.begin user config) (w.onCreateRoom user config)
  | ask {i : ℕ} {answer : Option RoomId} {q : Request} (hq : w.requests[i]? = some q)
      (hphase : q.phase = .asking) (hanswer : w.Answer answer) :
      Moves S w (.query i answer) (w.setPhase i q (.answered answer))
  | tell {i : ℕ} {answer : Option RoomId} {q : Request} (hq : w.requests[i]? = some q)
      (hphase : q.phase = .checking) (hanswer : w.Answer answer) :
      Moves S w (.query i answer) (w.setPhase i q (.told answer))
  | refuse {i : ℕ} {r : RoomId} {q : Request} (hq : w.requests[i]? = some q)
      (hphase : q.phase = .answered (some r)) :
      Moves S w (.resume i) ((w.remember (some r)).setPhase i q .rejected)
  | allow {i : ℕ} {q : Request} (hq : w.requests[i]? = some q)
      (hphase : q.phase = .answered none) : Moves S w (.resume i) (w.setPhase i q .allowed)
  | take {i : ℕ} {main : Option RoomId} {q : Request} (hq : w.requests[i]? = some q)
      (hphase : q.phase = .told main) :
      Moves S w (.resume i) ((w.remember main).takeMark S i q main)
  | reject {i : ℕ} {q : Request} (hq : w.requests[i]? = some q)
      (hphase : ∀ main, q.phase ≠ .created main) :
      Moves S w (.reject i) (w.setPhase i q .rejected)
  | check {i : ℕ} {q : Request} (hq : w.requests[i]? = some q) (hphase : q.phase = .allowed)
      (hcache : w.cache = none) : Moves S w (.check i) (w.setPhase i q .checking)
  | checkCached {i : ℕ} {m : RoomId} {q : Request} (hq : w.requests[i]? = some q)
      (hphase : q.phase = .allowed) (hcache : w.cache = some m) :
      Moves S w (.check i) (w.takeMark S i q (some m))
  | creator {i : ℕ} {m : RoomId} {q : Request} (hq : w.requests[i]? = some q)
      (hphase : q.phase = .finding m) : Moves S w (.creator i) (w.addRoom i q m)
  | persist {i ts : ℕ} {main : Option RoomId} {q : Request} (hq : w.requests[i]? = some q)
      (hphase : q.phase = .checked main) :
      Moves S w (.persist i ts) (w.persistRoom i q main ts)
  | count (r : RoomId) : Moves S w (.count r) (w.counting r)
  | child (room r : RoomId) :
      Moves S w (.child room r) { w with children := (room, r) :: w.children }
  | join {n : ℕ} {room : Room} (hnew : ∀ e ∈ w.rooms, e.1 ≠ .remote n) :
      Moves S w (.join n room)
        { w with rooms := (.remote n, { room with counted := false }) :: w.rooms }
  | leave {room : RoomId} (hthere : ∃ e ∈ w.rooms, e.1 = room) :
      Moves S w (.leave room) (w.leaveRoom room)
  | back {room : RoomId} (hleft : room ∈ w.left) : Moves S w (.back room) (w.backRoom room)
  | glance {answer : Option RoomId} (hanswer : w.Answer answer) :
      Moves S w (.glance answer) { w with glances := answer :: w.glances }
  | settle {answer : Option RoomId} (hanswer : answer ∈ w.glances) :
      Moves S w (.settle answer) { w.remember answer with glances := w.glances.erase answer }
  | restart : Moves S w .restart w.restarted

theorem moves_of_step {S : Server} {w t : World} {a : Act} (h : step S w a = some t) :
    Moves S w a t := by
  cases a with
  | begin user config =>
      obtain rfl := Option.some.inj h
      exact .begin user config
  | query i answer =>
      obtain ⟨q, hq, h⟩ := Option.bind_eq_some_iff.1 h
      obtain ⟨_, hguard, h⟩ := Option.bind_eq_some_iff.1 h
      have hanswer : w.Answer answer := of_guard hguard
      split at h
      · rename_i hphase
        obtain rfl := Option.some.inj h
        exact .ask hq hphase hanswer
      · rename_i hphase
        obtain rfl := Option.some.inj h
        exact .tell hq hphase hanswer
      · cases h
  | resume i =>
      obtain ⟨q, hq, h⟩ := Option.bind_eq_some_iff.1 h
      split at h
      · rename_i main hphase
        obtain rfl := Option.some.inj h
        cases main with
        | none => exact .allow hq hphase
        | some r => exact .refuse hq hphase
      · rename_i main hphase
        obtain rfl := Option.some.inj h
        exact .take hq hphase
      · cases h
  | reject i =>
      obtain ⟨q, hq, h⟩ := Option.bind_eq_some_iff.1 h
      split at h
      · cases h
      · rename_i hphase
        obtain rfl := Option.some.inj h
        exact .reject hq hphase
  | check i =>
      obtain ⟨q, hq, h⟩ := Option.bind_eq_some_iff.1 h
      split at h
      · rename_i hphase
        obtain rfl := Option.some.inj h
        unfold World.checkEvent
        split
        · rename_i hcache
          exact .checkCached hq hphase hcache
        · rename_i hcache
          exact .check hq hphase hcache
      · cases h
  | creator i =>
      obtain ⟨q, hq, h⟩ := Option.bind_eq_some_iff.1 h
      split at h
      · rename_i main hphase
        obtain rfl := Option.some.inj h
        exact .creator hq hphase
      · cases h
  | persist i ts =>
      obtain ⟨q, hq, h⟩ := Option.bind_eq_some_iff.1 h
      split at h
      · rename_i main hphase
        obtain rfl := Option.some.inj h
        exact .persist hq hphase
      · cases h
  | count r =>
      obtain rfl := Option.some.inj h
      exact .count r
  | child room r =>
      obtain rfl := Option.some.inj h
      exact .child room r
  | join n room =>
      simp only [step] at h
      split at h
      · cases h
      · rename_i hnew
        obtain rfl := Option.some.inj h
        exact .join fun e he heq => hnew (List.any_eq_true.2 ⟨e, he, by simpa using heq⟩)
  | leave room =>
      simp only [step] at h
      split at h
      · rename_i hthere
        obtain ⟨e, he, heq⟩ := List.any_eq_true.1 hthere
        obtain rfl := Option.some.inj h
        exact .leave ⟨e, he, of_decide_eq_true heq⟩
      · cases h
  | back room =>
      simp only [step] at h
      split at h
      · rename_i hleft
        obtain rfl := Option.some.inj h
        exact .back hleft
      · cases h
  | glance answer =>
      obtain ⟨_, hguard, h⟩ := Option.bind_eq_some_iff.1 h
      have hanswer : w.Answer answer := of_guard hguard
      obtain rfl := Option.some.inj h
      exact .glance hanswer
  | settle answer =>
      simp only [step] at h
      split at h
      · rename_i hanswer
        obtain rfl := Option.some.inj h
        exact .settle hanswer
      · cases h
  | restart =>
      obtain rfl := Option.some.inj h
      exact .restart

/-! ### What the parts of a step leave as it is -/

section Frame

variable {S : Server} {w : World} {i j ts : ℕ} {q : Request} {phase : Phase} {main : Option RoomId}
  {m : RoomId} {user : UserId} {config : Dict} {answer : Option RoomId}

theorem getElem?_setPhase (hq : w.requests[i]? = some q) :
    (w.setPhase i q phase).requests[j]? =
      if i = j then some { q with phase := phase } else w.requests[j]? := by
  have hi : i < w.requests.length := by
    by_contra hge
    rw [List.getElem?_eq_none (by omega)] at hq
    cases hq
  rw [World.setPhase, List.getElem?_set]
  simp [hi]

theorem getElem?_onCreateRoom :
    (w.onCreateRoom user config).requests[j]? =
      if j = w.requests.length then some ⟨user, config, w.startPhase config⟩
      else w.requests[j]? := by
  show (w.requests ++ [_])[j]? = _
  rcases Nat.lt_trichotomy j w.requests.length with hj | hj | hj
  · rw [List.getElem?_append_left hj, if_neg (by omega)]
  · rw [hj, List.getElem?_concat_length, if_pos rfl]
  · rw [List.getElem?_append_right (by omega), if_neg (by omega),
      List.getElem?_eq_none (by simp; omega), List.getElem?_eq_none (by omega)]

theorem getElem?_restarted : w.restarted.requests[j]? = (w.requests[j]?).map Request.dropped :=
  List.getElem?_map ..

/-- An answer changes nothing but what is kept. -/
theorem remember_eq (w : World) (answer : Option RoomId) :
    w.remember answer = { w with cache := answer.or w.cache } := by
  cases answer with
  | none => rfl
  | some r => rfl

/-- Where `check_event_allowed` goes on to. -/
def nextPhase (S : Server) (i : ℕ) (q : Request) (marked : Bool) : Option RoomId → Phase
  | none => .checked none
  | some m =>
      if S.autoAddNew && isAutoAddCandidate (isSpaceConfig q.config = some true) marked false
          (S.isMine q.user) && RoomId.ofRequest i ≠ m then .finding m
      else .checked (some m)

theorem takeMark_eq (w : World) (S : Server) (i : ℕ) (q : Request) (main : Option RoomId) :
    w.takeMark S i q main =
      { w.setPhase i q (nextPhase S i q (q.user ∈ w.pendingDmSenders) main) with
        pendingDmSenders := w.pendingDmSenders.filter fun u => u ≠ q.user } := by
  cases main with
  | none => rfl
  | some m =>
      unfold World.takeMark nextPhase
      dsimp only
      split <;> rfl

end Frame

/-! ### What a step does to the database -/

/-- **The database is as it was, or a room is stored, counted or joined, or gets a parent, or is
left or joined again.** -/
theorem database_of_moves {S : Server} {w t : World} {a : Act} (h : Moves S w a t) :
    (t.rooms = w.rooms ∧ t.children = w.children ∧ t.left = w.left) ∨
      (∃ i ts main q, a = .persist i ts ∧ w.requests[i]? = some q ∧ q.phase = .checked main ∧
        t = w.persistRoom i q main ts) ∨
      (∃ r, a = .count r ∧ t = w.counting r) ∨
      (∃ room r, a = .child room r ∧ t = { w with children := (room, r) :: w.children }) ∨
      (∃ n room, a = .join n room ∧
        t = { w with rooms := (.remote n, { room with counted := false }) :: w.rooms }) ∨
      (∃ room, a = .leave room ∧ t = w.leaveRoom room) ∨
      ∃ room, a = .back room ∧ t = w.backRoom room := by
  cases h with
  | persist hq hphase => exact .inr (.inl ⟨_, _, _, _, rfl, hq, hphase, rfl⟩)
  | count r => exact .inr (.inr (.inl ⟨r, rfl, rfl⟩))
  | child room r => exact .inr (.inr (.inr (.inl ⟨room, r, rfl, rfl⟩)))
  | join hnew => exact .inr (.inr (.inr (.inr (.inl ⟨_, _, rfl, rfl⟩))))
  | leave hthere => exact .inr (.inr (.inr (.inr (.inr (.inl ⟨_, rfl, rfl⟩)))))
  | back hleft => exact .inr (.inr (.inr (.inr (.inr (.inr ⟨_, rfl, rfl⟩)))))
  | take hq hphase =>
      rw [takeMark_eq, remember_eq]
      exact .inl ⟨rfl, rfl, rfl⟩
  | checkCached hq hphase hcache =>
      rw [takeMark_eq]
      exact .inl ⟨rfl, rfl, rfl⟩
  | settle hanswer =>
      rw [remember_eq]
      exact .inl ⟨rfl, rfl, rfl⟩
  | _ => exact .inl ⟨rfl, rfl, rfl⟩

/-! ### What a step does to a request -/

/-- The points that a request can get to in one step. -/
inductive Advance (S : Server) (w : World) (i : ℕ) (q : Request) : Act → Phase → Prop
  | ask {answer : Option RoomId} (hphase : q.phase = .asking) (hanswer : w.Answer answer) :
      Advance S w i q (.query i answer) (.answered answer)
  | tell {answer : Option RoomId} (hphase : q.phase = .checking) (hanswer : w.Answer answer) :
      Advance S w i q (.query i answer) (.told answer)
  | allow (hphase : q.phase = .answered none) : Advance S w i q (.resume i) .allowed
  | check (hphase : q.phase = .allowed) : Advance S w i q (.check i) .checking
  | take {a : Act} (main : Option RoomId)
      (hphase : q.phase = .told main ∨ (q.phase = .allowed ∧ w.cache = main)) :
      Advance S w i q a (nextPhase S i q (q.user ∈ w.pendingDmSenders) main)
  | creator {main : RoomId} (hphase : q.phase = .finding main) :
      Advance S w i q (.creator i) (.checked (some main))
  | persist {ts : ℕ} {main : Option RoomId} (hphase : q.phase = .checked main) :
      Advance S w i q (.persist i ts) (.created main)
  | refuse {r : RoomId} (hphase : q.phase = .answered (some r)) :
      Advance S w i q (.resume i) .rejected
  | reject {a : Act} (hact : a = .reject i ∨ a = .restart)
      (hphase : ∀ main, q.phase ≠ .created main) : Advance S w i q a .rejected

/-- **A request is as it was, or new, or has got on.** -/
theorem request_of_moves {S : Server} {w t : World} {a : Act} {j : ℕ} {q' : Request}
    (h : Moves S w a t) (hq' : t.requests[j]? = some q') :
    w.requests[j]? = some q' ∨
      (∃ user config, a = .begin user config ∧ j = w.requests.length ∧
        q' = ⟨user, config, w.startPhase config⟩) ∨
      ∃ q, w.requests[j]? = some q ∧ q' = { q with phase := q'.phase } ∧
        Advance S w j q a q'.phase := by
  -- A step that changes one request.
  have hset : ∀ {i : ℕ} {q : Request} {phase : Phase}, w.requests[i]? = some q →
      t.requests = (w.setPhase i q phase).requests → (i = j → Advance S w i q a phase) →
      w.requests[j]? = some q' ∨
        (∃ user config, a = .begin user config ∧ j = w.requests.length ∧
          q' = ⟨user, config, w.startPhase config⟩) ∨
        ∃ q, w.requests[j]? = some q ∧ q' = { q with phase := q'.phase } ∧
          Advance S w j q a q'.phase := by
    intro i q phase hq hrequests hadvance
    rw [hrequests, getElem?_setPhase hq] at hq'
    split at hq'
    · rename_i hij
      obtain rfl := Option.some.inj hq'
      subst hij
      exact .inr (.inr ⟨q, hq, rfl, hadvance rfl⟩)
    · exact .inl hq'
  cases h with
  | begin user config =>
      rw [getElem?_onCreateRoom] at hq'
      split at hq'
      · rename_i hj
        exact .inr (.inl ⟨user, config, rfl, hj, (Option.some.inj hq').symm⟩)
      · exact .inl hq'
  | ask hq hphase hanswer => exact hset hq rfl fun _ => .ask hphase hanswer
  | tell hq hphase hanswer => exact hset hq rfl fun _ => .tell hphase hanswer
  | refuse hq hphase => exact hset hq rfl fun _ => .refuse hphase
  | allow hq hphase => exact hset hq rfl fun _ => .allow hphase
  | take hq hphase =>
      refine hset hq ?_ fun _ => .take _ (.inl hphase)
      rw [takeMark_eq, remember_eq]
      rfl
  | reject hq hphase => exact hset hq rfl fun _ => .reject (.inl rfl) hphase
  | check hq hphase hcache => exact hset hq rfl fun _ => .check hphase
  | checkCached hq hphase hcache =>
      refine hset hq ?_ fun _ => .take _ (.inr ⟨hphase, hcache⟩)
      rw [takeMark_eq]
  | creator hq hphase => exact hset hq rfl fun _ => .creator hphase
  | persist hq hphase => exact hset hq rfl fun _ => .persist hphase
  | count r => exact .inl hq'
  | child room r => exact .inl hq'
  | join hnew => exact .inl hq'
  | leave hthere => exact .inl hq'
  | back hleft => exact .inl hq'
  | glance hanswer => exact .inl hq'
  | settle hanswer =>
      rw [remember_eq] at hq'
      exact .inl hq'
  | restart =>
      rw [getElem?_restarted] at hq'
      obtain ⟨q, hq, rfl⟩ := Option.map_eq_some_iff.1 hq'
      unfold Request.dropped
      split
      · exact .inl hq
      · rename_i hphase
        exact .inr (.inr ⟨q, hq, rfl, .reject (.inr rfl) hphase⟩)

end SpaceGuard
end Liza
