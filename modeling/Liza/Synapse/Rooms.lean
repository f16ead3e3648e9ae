/-
# Rooms as the modules see them

The modules read and write rooms through a handful of calls of the module API:
`get_current_state_event(room_id, type, "")`, `get_users_in_room`,
`get_invited_users_in_room`, `update_room_membership` and
`create_and_send_event_into_room` (`servers/synapse/src/synapse/module_api`).
`Rooms` is what these calls act on: the current state events by type and state
key, and, apart from them, the membership of every user.  The room history is
not kept.  What is current of a room goes when its last user of this server
leaves it.
-/

import Liza.Lib.Json

set_option autoImplicit false

namespace Liza
namespace Synapse

open Lib

/-- A Matrix user id, `@localpart:server`. -/
abbrev UserId := PyStr

/-- A Matrix room id. -/
abbrev RoomId := PyStr

/-- A Matrix event id. -/
abbrev EventId := PyStr

/-- `synapse.api.constants.Membership`. -/
inductive Membership where
  | invite
  | join
  | knock
  | leave
  | ban
deriving DecidableEq, Repr

/-- The `membership` text of an event. -/
def Membership.text : Membership → PyStr
  | .invite => "invite"
  | .join => "join"
  | .knock => "knock"
  | .leave => "leave"
  | .ban => "ban"

/-- The membership a text stands for. -/
def Membership.ofText (t : PyStr) : Option Membership :=
  [invite, join, knock, leave, ban].find? fun m => m.text = t

@[simp]
theorem Membership.ofText_text (m : Membership) : ofText m.text = some m := by
  cases m <;> rfl

/-- In the room, or asked into it. -/
def Membership.isIn : Membership → Bool
  | .join => true
  | .invite => true
  | _ => false

/-- What is read of a current state event. -/
structure StateEvent where
  sender : UserId
  content : Dict
deriving DecidableEq

/-- An event as the `on_new_event` callbacks receive it. -/
structure Event where
  eventId : EventId
  type : PyStr
  roomId : RoomId
  sender : UserId
  stateKey : Option PyStr
  content : Dict
  redacts : Option EventId

/-- The current state (by room, type and state key) and the memberships of all
rooms; `ids` lists the rooms that exist. -/
structure Rooms where
  ids : List RoomId
  state : RoomId → PyStr → PyStr → Option StateEvent
  members : RoomId → List (UserId × Membership)

namespace Rooms

/-- The membership of a user, `none` before the first membership event. -/
def membership (r : Rooms) (room : RoomId) (user : UserId) : Option Membership :=
  ((r.members room).find? fun p => p.1 = user).map Prod.snd

/-- Joined to the room or invited to it. -/
def isIn (r : Rooms) (room : RoomId) (user : UserId) : Bool :=
  (r.membership room user).any Membership.isIn

/-- The users with a given membership, as `get_users_in_room` (`join`) and
`get_invited_users_in_room` (`invite`) list them. -/
def usersWith (r : Rooms) (room : RoomId) (m : Membership) : List UserId :=
  ((r.members room).filter fun p => p.2 = m).map Prod.fst

/-- A state event becomes current. -/
def setState (r : Rooms) (room : RoomId) (type key : PyStr) (e : StateEvent) : Rooms :=
  { r with state := fun x t k =>
      if x = room ∧ t = type ∧ k = key then some e else r.state x t k }

/-- A membership event becomes current. -/
def setMember (r : Rooms) (room : RoomId) (user : UserId) (m : Membership) : Rooms :=
  { r with members := fun x =>
      if x = room then (user, m) :: (r.members x).filter fun p => p.1 ≠ user
      else r.members x }

/-- `content.get("membership")` as a membership. -/
def membershipOf (content : Dict) : Option Membership :=
  match content.get "membership" with
  | .str t => Membership.ofText t
  | _ => none

/-- The current state of a room goes, its members with it: Synapse deletes it when no user
of this server is joined to the room any more (`no_longer_in_room`). -/
def emptied (r : Rooms) (room : RoomId) : Rooms where
  ids := r.ids.filter fun x => x ≠ room
  state := fun x t k => if x = room then none else r.state x t k
  members := fun x => if x = room then [] else r.members x

/-- A persisted event becomes current, where it is a state event, and a user of this
server is joined to its room (`emptied` follows it where none is left). -/
def persist (r : Rooms) (e : Event) : Rooms :=
  match e.stateKey with
  | none => r
  | some key =>
    if e.type = py "m.room.member" then
      match membershipOf e.content with
      | some m => r.setMember e.roomId key m
      | none => r
    else
      { r.setState e.roomId e.type key ⟨e.sender, e.content⟩ with
        ids := if e.type = py "m.room.create" ∧ e.roomId ∉ r.ids then r.ids ++ [e.roomId]
          else r.ids }

variable (r : Rooms) (room room' : RoomId) (user user' : UserId) (type type' key key' : PyStr)

@[simp]
theorem setState_members (e : StateEvent) :
    (r.setState room type key e).members = r.members := rfl

@[simp]
theorem setMember_state (m : Membership) : (r.setMember room user m).state = r.state := rfl

theorem setState_state (e : StateEvent) :
    (r.setState room type key e).state room' type' key' =
      if room' = room ∧ type' = type ∧ key' = key then some e else r.state room' type' key' := rfl

@[simp]
theorem setState_membership (e : StateEvent) :
    (r.setState room type key e).membership room' user' = r.membership room' user' := rfl

/-- **A membership event changes the membership of its user in its room only.** -/
theorem setMember_membership (m : Membership) :
    (r.setMember room user m).membership room' user' =
      if room' = room ∧ user' = user then some m else r.membership room' user' := by
  unfold membership setMember
  by_cases hr : room' = room
  · subst hr
    by_cases hu : user' = user
    · subst hu
      simp
    · have hne : ¬user = user' := fun h => hu h.symm
      simp only [if_true, hu, and_false, if_false, List.find?_cons, hne, decide_false,
        List.find?_filter]
      congr 2
      funext p
      by_cases hp : p.1 = user'
      · simp [hp, hu]
      · simp [hp]
  · simp [hr]

/-- Who has a membership is listed with it. -/
theorem mem_usersWith {m : Membership} (h : r.membership room user = some m) :
    user ∈ r.usersWith room m := by
  obtain ⟨p, hp, rfl⟩ := Option.map_eq_some_iff.1 h
  have hmem := List.mem_of_find?_eq_some hp
  have hfst : p.1 = user := by simpa using List.find?_some hp
  exact List.mem_map.2 ⟨p, List.mem_filter.2 ⟨hmem, by simp⟩, hfst⟩

/-- A persisted event changes the state of its own room, type and key only. -/
theorem persist_state_of_ne (e : Event)
    (h : ¬(e.roomId = room ∧ e.type = type ∧ e.stateKey = some key)) :
    (r.persist e).state room type key = r.state room type key := by
  unfold persist
  split
  · rfl
  · rename_i k hk
    split
    · split <;> rfl
    · show (r.setState e.roomId e.type k ⟨e.sender, e.content⟩).state room type key = _
      rw [setState_state, if_neg]
      rintro ⟨rfl, rfl, rfl⟩
      exact h ⟨rfl, rfl, hk⟩

/-- A persisted state event is current afterwards. -/
theorem persist_state_self (e : Event) (hk : e.stateKey = some key)
    (ht : e.type ≠ py "m.room.member") :
    (r.persist e).state e.roomId e.type key = some ⟨e.sender, e.content⟩ := by
  simp [persist, hk, ht, setState]

/-- A persisted event changes the membership of its state key in its own room
only. -/
theorem persist_membership_of_ne (e : Event)
    (h : ¬(e.roomId = room ∧ e.type = py "m.room.member" ∧ e.stateKey = some user)) :
    (r.persist e).membership room user = r.membership room user := by
  unfold persist
  split
  · rfl
  · rename_i k hk
    split
    · rename_i ht
      split
      · rw [setMember_membership, if_neg]
        rintro ⟨rfl, rfl⟩
        exact h ⟨rfl, ht, hk⟩
      · rfl
    · rfl

/-- A persisted membership event is current afterwards. -/
theorem persist_membership_self (e : Event) {m : Membership} (hk : e.stateKey = some user)
    (ht : e.type = py "m.room.member") (hm : membershipOf e.content = some m) :
    (r.persist e).membership e.roomId user = some m := by
  simp [persist, hk, ht, hm, setMember_membership]

/-- Who is in a room after a membership event. -/
theorem persist_isIn (e : Event) {m : Membership} (hk : e.stateKey = some user)
    (ht : e.type = py "m.room.member") (hm : membershipOf e.content = some m) :
    (r.persist e).isIn e.roomId user' = if user' = user then m.isIn else r.isIn e.roomId user' := by
  unfold isIn
  split
  · rename_i hu
    rw [hu, persist_membership_self r user e hk ht hm]
    rfl
  · rename_i hu
    rw [persist_membership_of_ne]
    rintro ⟨-, -, hk'⟩
    exact hu (Option.some.inj (hk'.symm.trans hk))

/-- Who is listed with a membership after a membership event. -/
theorem mem_usersWith_persist (e : Event) {m m' : Membership} (hk : e.stateKey = some user)
    (ht : e.type = py "m.room.member") (hm : membershipOf e.content = some m) :
    user' ∈ (r.persist e).usersWith e.roomId m' ↔
      user' = user ∧ m' = m ∨ user' ≠ user ∧ user' ∈ r.usersWith e.roomId m' := by
  simp only [persist, hk, ht, hm, if_true, usersWith, setMember, List.mem_map, List.mem_filter,
    List.mem_cons, decide_eq_true_eq]
  constructor
  · rintro ⟨p, ⟨rfl | ⟨hp, hne⟩, hpm⟩, rfl⟩
    · exact .inl ⟨rfl, hpm.symm⟩
    · exact .inr ⟨hne, p, ⟨hp, hpm⟩, rfl⟩
  · rintro (⟨rfl, rfl⟩ | ⟨hne, p, ⟨hp, hpm⟩, rfl⟩)
    · exact ⟨(user', m'), ⟨.inl rfl, rfl⟩, rfl⟩
    · exact ⟨p, ⟨.inr ⟨hp, hne⟩, hpm⟩, rfl⟩

/-- Any other event leaves the lists of a room alone. -/
theorem usersWith_persist_of_ne (e : Event) (m : Membership)
    (h : ¬(e.roomId = room ∧ e.type = py "m.room.member")) :
    (r.persist e).usersWith room m = r.usersWith room m := by
  unfold persist
  split
  · rfl
  · split
    · rename_i ht
      split
      · have hne : room ≠ e.roomId := fun hroom => h ⟨hroom.symm, ht⟩
        simp only [usersWith, setMember, if_neg hne]
      · rfl
    · rfl

theorem persist_isIn_of_ne (e : Event) (h : e.roomId ≠ room) :
    (r.persist e).isIn room user = r.isIn room user := by
  unfold isIn
  rw [persist_membership_of_ne]
  exact fun h' => h h'.1

end Rooms

end Synapse
end Liza
