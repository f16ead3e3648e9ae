/-
# The homeserver under a module

What the operations of a module do when their await completes, and the events
that reach it: the transition system whose runs are all interleavings of the
module's callbacks and background jobs with the events of all clients.

Any operation may raise (the choice `raises`): a refusal by power levels or join
rules, a lost connection, a database error.  Where the module API refuses for a
reason of its own (`update_room_membership` and `create_and_send_event_into_room`
in `servers/synapse/src/synapse/module_api`: the sender is not local, is not in
the room, or the target is in it already or banned), the operation raises
whatever the choice.  An event the module sends reaches its own callback, as
every event does.
-/

import Liza.Synapse.Api

set_option autoImplicit false

namespace Liza
namespace Synapse

open Lib

/-- A module: the job of its `on_new_event` callback, what it starts when it is
loaded, the operations of its table (which may read the rooms), and the code of
its jobs on a homeserver of the given name. -/
structure Module (Job Own : Type) (OwnRes : Own → Type) (Store : Type) where
  onNewEvent : Event → Job
  onStartup : List Job
  own : Rooms → Store → (op : Own) → Store × Option (OwnRes op)
  code : PyStr → Job → Code Job OwnRes Unit

/-- What the operations read and write. -/
structure World (Store : Type) where
  rooms : Rooms
  /-- The global account data `com.liza.user_role` of each user. -/
  roles : UserId → Option Dict
  /-- The mute rules of `push_rules`, by user and room. -/
  muted : List (UserId × Json)
  /-- The content each state event has replaced. -/
  prev : EventId → Option Dict
  /-- The module's own table. -/
  store : Store
  /-- The messages and redactions the module has sent, latest first. -/
  sent : List Event
  /-- The number of events the module has sent. -/
  count : ℕ

/-- The id of the `n`-th event the module sends. -/
def sentId (n : ℕ) : EventId := py "$" ++ List.replicate n (codePoint '~')

namespace World

variable {Store : Type}

/-- A state event of a room; only a `str` names one. -/
def state (w : World Store) (room : Json) (type : PyStr) : Option StateEvent :=
  match room with
  | .str r => w.rooms.state r type []
  | _ => none

/-- The users of a room with a given membership. -/
def usersIn (w : World Store) (room : Json) (m : Membership) : List UserId :=
  match room with
  | .str r => w.rooms.usersWith r m
  | _ => []

/-- The `com.liza.chat.type` of a room. -/
def chatType (w : World Store) (room : RoomId) : Json :=
  (((w.rooms.state room createState []).map StateEvent.content).getD []).get chatTypeKey

/-- The sender of the creation event of a room. -/
def creator (w : World Store) (room : RoomId) : Option UserId :=
  (w.rooms.state room createState []).map StateEvent.sender

/-- The power level of a user in a room. -/
def power (w : World Store) (room : RoomId) (user : UserId) : ℤ :=
  match w.rooms.state room "m.room.power_levels" [] with
  | none => if w.creator room = some user then 100 else 0
  | some pl =>
      match pl.content.get "users", pl.content.get "users_default" with
      | .obj users, other =>
          match Dict.get users user, other with
          | .int n, _ => n
          | _, .int n => n
          | _, _ => 0
      | _, .int n => n
      | _, _ => 0

/-- An event is persisted. -/
def persist (w : World Store) (e : Event) : World Store :=
  { w with
    rooms := w.rooms.persist e
    prev := fun id =>
      if id = e.eventId then
        e.stateKey.bind fun key => (w.rooms.state e.roomId e.type key).map StateEvent.content
      else w.prev id }

/-- The event of an operation is persisted and recorded. -/
def create (w : World Store) (e : Event) : World Store :=
  { w.persist e with
    sent := if e.stateKey.isNone then e :: w.sent else w.sent
    count := w.count + 1 }

/-- The homeserver with the given state events (of the state key `""`) and
memberships, and an empty table. -/
def ofLists (store : Store) (state : List (RoomId × PyStr × StateEvent))
    (members : List (RoomId × UserId × Membership)) : World Store where
  rooms :=
    { ids := (state.filter fun x => x.2.1 = createState).map fun x => x.1
      state := fun room type key =>
        if key = [] then (state.find? fun x => x.1 = room ∧ x.2.1 = type).map fun x => x.2.2
        else none
      members := fun room => (members.filter fun x => x.1 = room).map fun x => x.2 }
  roles := fun _ => none
  muted := []
  prev := fun _ => none
  store := store
  sent := []
  count := 0

end World

section Operations

variable {Job Own : Type} {OwnRes : Own → Type} {Store : Type}

/-- May `sender` change the membership of a `target` whose membership is `cur`?
The checks of `update_membership` that do not depend on power levels. -/
def mayUpdate (cur : Option Membership) (sender target : UserId) : Membership → Bool
  | .invite => cur ≠ some .join && cur ≠ some .ban
  | .join => sender = target && cur ≠ some .ban
  | .leave => true
  | _ => false

/-- The event an operation creates when it succeeds. -/
def createdEvent (host : PyStr) (w : World Store) : Op Job Own → Option Event
  | .updateRoomMembership sender target (.str room) action _ =>
      if isMine host sender ∧ (action = .join ∨ w.rooms.membership room sender = some .join) ∧
          mayUpdate (w.rooms.membership room target) sender target action then
        some
          { eventId := sentId w.count
            type := "m.room.member"
            roomId := room
            sender
            stateKey := some target
            content := [("membership", .str action.text)]
            redacts := none }
      else none
  | .sendEvent d =>
      match d.room with
      | .str room =>
          if isMine host d.sender ∧ w.rooms.membership room d.sender = some .join then
            some
              { eventId := sentId w.count
                type := d.type
                roomId := room
                sender := d.sender
                stateKey := d.stateKey
                content := d.content
                redacts := d.redacts }
          else none
      | _ => none
  | _ => none

/-- `run_as_background_process` does not raise. -/
def Op.mayRaise : Op Job Own → Bool
  | .background _ => false
  | _ => true

/-- An operation that does not raise of itself. -/
def complete (M : Module Job Own OwnRes Store) (host : PyStr) (w : World Store) :
    (op : Op Job Own) → World Store × Option (Res OwnRes op) × List Job
  | .stateEvent room type => (w, some (w.state room type), [])
  | .userRole user => (w, some (w.roles user), [])
  | .usersInRoom room m => (w, some (w.usersIn room m), [])
  | .updateRoomMembership sender target room action hosts =>
      match createdEvent host w
          (.updateRoomMembership sender target room action hosts : Op Job Own) with
      | some e => (w.create e, some (), [M.onNewEvent e])
      | none => (w, none, [])
  | .sendEvent d =>
      match createdEvent host w (.sendEvent d : Op Job Own) with
      | some e => (w.create e, some e.eventId, [M.onNewEvent e])
      | none => (w, none, [])
  | .hasMuteRule user room => (w, some ((user, room) ∈ w.muted), [])
  | .addMuteRule user room => ({ w with muted := (user, room) :: w.muted }, some (), [])
  | .prevContent eventId => (w, some (w.prev eventId), [])
  | .sleep => (w, some (), [])
  | .background job => (w, some (), [job])
  | .own op => ({ w with store := (M.own w.rooms w.store op).1 }, (M.own w.rooms w.store op).2, [])

/-- An operation completes, or raises. -/
def perform (M : Module Job Own OwnRes Store) (host : PyStr) (w : World Store) (op : Op Job Own)
    (raises : Bool) : World Store × Option (Res OwnRes op) × List Job :=
  if raises && op.mayRaise then (w, none, []) else complete M host w op

/-- What reaches the module from outside: an event of any room by anybody, a new
role in a user's account data, and a restart of the homeserver.  A room whose last
user of this server has left it, by an event from outside or by a kick of the
module, is emptied; the callback of that event may find the room as it was or
empty. -/
inductive Ev where
  | newEvent (event : Event)
  | emptied (room : RoomId)
  | setRole (user : UserId) (data : Option Dict)
  | restart

/-- The world after an outside event, and the tasks it starts. -/
def arrive (M : Module Job Own OwnRes Store) (w : World Store) : Ev → World Store × List Job
  | .newEvent e => (w.persist e, [M.onNewEvent e])
  | .emptied room => ({ w with rooms := w.rooms.emptied room }, [])
  | .setRole user data =>
      ({ w with roles := fun u => if u = user then data else w.roles u }, [])
  | .restart => (w, M.onStartup)

/-- A restart ends every task. -/
def drops : Ev → Bool
  | .restart => true
  | _ => false

/-- The module on a homeserver. -/
def Module.system (M : Module Job Own OwnRes Store) (host : PyStr) :
    System (World Store) Ev Bool Job (Op Job Own) (Res OwnRes) where
  code := M.code host
  arrive := arrive M
  drops := drops
  perform := perform M host

/-- Before any event: the given world, and no task. -/
def start (w : World Store) : Loop (World Store) Ev Job (Op Job Own) (Res OwnRes) :=
  ⟨w, [], [], []⟩

/-- The operations that change no room and start nothing. -/
def Op.quiet : Op Job Own → Bool
  | .updateRoomMembership _ _ _ _ _ => false
  | .sendEvent _ => false
  | .background _ => false
  | _ => true

variable {M : Module Job Own OwnRes Store} {host : PyStr} {w : World Store} {op : Op Job Own}
  {raises : Bool}

/-- **What an operation can do to the rooms, and what it starts:** it leaves the
rooms as they are and starts at most its background job, or it persists the
event it creates and starts the callback of that event. -/
theorem perform_cases (M : Module Job Own OwnRes Store) (host : PyStr) (w : World Store)
    (op : Op Job Own) (raises : Bool) :
    ((perform M host w op raises).1.rooms = w.rooms ∧
      ∀ j ∈ (perform M host w op raises).2.2, op = .background j) ∨
    ∃ e, createdEvent host w op = some e ∧
      (perform M host w op raises).1.rooms = w.rooms.persist e ∧
      (perform M host w op raises).2.2 = [M.onNewEvent e] := by
  unfold perform
  split
  · exact .inl ⟨rfl, by simp⟩
  · cases op with
    | updateRoomMembership sender target room action hosts =>
        simp only [complete]
        split
        · rename_i e he
          exact .inr ⟨e, he, rfl, rfl⟩
        · exact .inl ⟨rfl, by simp⟩
    | sendEvent d =>
        simp only [complete]
        split
        · rename_i e he
          exact .inr ⟨e, he, rfl, rfl⟩
        · exact .inl ⟨rfl, by simp⟩
    | background job => exact .inl ⟨rfl, by simp [complete]⟩
    | _ => exact .inl ⟨rfl, by simp [complete]⟩

/-- The event that `create_and_send_event_into_room` creates. -/
theorem createdEvent_sendEvent {d : EventDict} {e : Event}
    (he : createdEvent host w (.sendEvent d : Op Job Own) = some e) :
    d.room = .str e.roomId ∧ e.type = d.type ∧ e.sender = d.sender ∧ e.stateKey = d.stateKey ∧
      e.content = d.content := by
  simp only [createdEvent] at he
  split at he
  · rename_i room hroom
    split at he
    · obtain rfl := Option.some.inj he
      exact ⟨hroom, rfl, rfl, rfl, rfl⟩
    · cases he
  · cases he

/-- The event that `update_room_membership` creates. -/
theorem createdEvent_membership {sender target : UserId} {room : Json} {action : Membership}
    {hosts : Option (List PyStr)} {e : Event}
    (he : createdEvent host w
      (.updateRoomMembership sender target room action hosts : Op Job Own) = some e) :
    room = .str e.roomId ∧ e.type = py "m.room.member" ∧ e.stateKey = some target ∧
      Rooms.membershipOf e.content = some action ∧
      mayUpdate (w.rooms.membership e.roomId target) sender target action = true := by
  cases room with
  | str r =>
      simp only [createdEvent] at he
      split at he
      · rename_i hmay
        obtain rfl := Option.some.inj he
        refine ⟨rfl, rfl, rfl, ?_, hmay.2.2⟩
        cases action <;> rfl
      · cases he
  | _ => cases he

/-- An operation that answers has persisted its event. -/
theorem perform_of_created {e : Event} (he : createdEvent host w op = some e)
    (hs : (perform M host w op raises).2.1.isSome = true) :
    (perform M host w op raises).1.rooms = w.rooms.persist e ∧
      (perform M host w op raises).2.2 = [M.onNewEvent e] := by
  unfold perform at hs ⊢
  split at hs
  · simp at hs
  · rename_i hr
    rw [if_neg hr]
    cases op with
    | updateRoomMembership sender target room action hosts =>
        simp only [complete, he]
        exact ⟨rfl, trivial⟩
    | sendEvent d =>
        simp only [complete, he]
        exact ⟨rfl, trivial⟩
    | _ => cases he

/-- An operation that creates events and answers has created one. -/
theorem created_of_isSome (hc : (∃ d, op = .sendEvent d) ∨
      ∃ sender target room action hosts,
        op = .updateRoomMembership sender target room action hosts)
    (hs : (perform M host w op raises).2.1.isSome = true) :
    ∃ e, createdEvent host w op = some e := by
  unfold perform at hs
  split at hs
  · simp at hs
  · rcases hc with ⟨d, rfl⟩ | ⟨sender, target, room, action, hosts, rfl⟩
    · simp only [complete] at hs
      split at hs
      · rename_i e he
        exact ⟨e, he⟩
      · simp at hs
    · simp only [complete] at hs
      split at hs
      · rename_i e he
        exact ⟨e, he⟩
      · simp at hs

/-- No operation of a module changes a role. -/
theorem perform_roles (M : Module Job Own OwnRes Store) (host : PyStr) (w : World Store)
    (op : Op Job Own) (raises : Bool) : (perform M host w op raises).1.roles = w.roles := by
  unfold perform
  split
  · rfl
  · cases op with
    | updateRoomMembership sender target room action hosts =>
        simp only [complete]
        split <;> rfl
    | sendEvent d =>
        simp only [complete]
        split <;> rfl
    | _ => rfl

/-- An operation that raises leaves the rooms as they are. -/
theorem perform_rooms_of_none (h : (perform M host w op raises).2.1 = none) :
    (perform M host w op raises).1.rooms = w.rooms := by
  rcases perform_cases M host w op raises with ⟨hr, -⟩ | ⟨e, he, -, -⟩
  · exact hr
  · unfold perform at h ⊢
    split at h
    · rename_i hraise
      rw [if_pos hraise]
    · cases op with
      | updateRoomMembership sender target room action hosts =>
          simp only [complete, he] at h
          cases h
      | sendEvent d =>
          simp only [complete, he] at h
          cases h
      | _ => cases he

/-- A read of the state answers with the state. -/
theorem perform_stateEvent (room : Json) (type : PyStr) :
    (perform M host w (.stateEvent room type) raises).2.1 =
      if raises then none else some (w.state room type) := by
  cases raises <;> rfl

/-- A background process always starts. -/
theorem perform_background (job : Job) :
    perform M host w (.background job) raises = (w, some (), [job]) := by
  cases raises <;> rfl

/-- A quiet operation. -/
theorem perform_quiet (hq : op.quiet = true) :
    (perform M host w op raises).1.rooms = w.rooms ∧ (perform M host w op raises).2.2 = [] := by
  unfold perform
  split
  · exact ⟨rfl, rfl⟩
  · cases op with
    | updateRoomMembership _ _ _ _ _ => simp [Op.quiet] at hq
    | sendEvent d => simp [Op.quiet] at hq
    | background j => simp [Op.quiet] at hq
    | _ => exact ⟨rfl, rfl⟩

end Operations

end Synapse
end Liza
