/-
# The auth rules over the life of a room

`synapse/event_auth.py`: `_is_membership_change_allowed`, and `_check_power_levels` with
`_can_send_event` and the levels they read; `EventAuth` has `get_user_power_level` and what a power
levels event has to pass by itself.

A room is the state that these rules read, and a step is an event that they accept in it: a change
of a membership, of the power levels or of the join rules.  Each event is checked against the state
it is sent in, so the history has no forks.  What verifies a third-party invite is not read here, an
event has the answer; and `events` or `notifications` that are no mapping are not compared, which
only accepts more.
-/

import Liza.Lib.Assoc
import Liza.Lib.Run
import Liza.Synapse.EventAuth
import Liza.Synapse.Rooms
import Mathlib.Data.Option.Basic

set_option autoImplicit false

namespace Liza
namespace Synapse
namespace EventAuth

open Lib

/-! ### The room -/

/-- The flags of a room version that are read here and not in `RoomVersion`. -/
structure AuthFlags where
  limitNotificationsPowerLevels : Bool
  knockJoinRule : Bool
  restrictedJoinRule : Bool
  knockRestrictedJoinRule : Bool

/-- The state that the rules read, and how many events followed the one that created the room. -/
structure Room where
  create : CreateEvent
  powerLevels : Option Content
  joinRules : Option Dict
  members : Assoc UserId Membership
  events : ℕ

/-- A membership event: its sender and its state key, the `membership`,
`_verify_third_party_invite` where there is a `third_party_invite`, and
`join_authorised_via_users_server`. -/
structure MemberEvent where
  sender : UserId
  target : UserId
  membership : Membership
  thirdPartyInvite : Option Bool
  authorisingUser : Option UserId
deriving DecidableEq

/-- An event that changes the state. -/
inductive RoomEvent where
  | member (e : MemberEvent)
  | powerLevels (sender : UserId) (content : Content)
  | joinRules (sender : UserId) (content : Dict)

/-- The sender of an event. -/
def RoomEvent.sender : RoomEvent → UserId
  | .member e => e.sender
  | .powerLevels sender _ => sender
  | .joinRules sender _ => sender

/-! ### The levels -/

/-- `get_named_level`. -/
def getNamedLevel (p : PyInt) (powerLevels : Option Content) (name : PyStr) (default : ℤ) :
    Option ℤ :=
  match powerLevels with
  | none => some default
  | some content =>
      if Dict.get content.dict name = .null then some default
      else p.int (Dict.get content.dict name)

/-- `get_send_level`, for a state event. -/
def getSendLevel (p : PyInt) (powerLevels : Option Content) (etype : PyStr) : Option ℤ := do
  let content := (powerLevels.map Content.dict).getD []
  let level ← getOf ((Dict.get? content "events").getD (.obj [])) etype
  p.int (if level = .null then (Dict.get? content "state_default").getD (.int 50) else level)

/-- `get_domain_from_id`. -/
def getDomainFromId (id : PyStr) : Option PyStr := (split1 (codePoint ':') id).2

/-- `_can_federate`. -/
def canFederate (create : CreateEvent) : Bool :=
  (Dict.get? create.content "m.federate").getD (.bool true) = .bool true

/-- The check for `m.federate`. -/
def checkFederate (create : CreateEvent) (id : PyStr) : Option Unit := do
  let creatingDomain ← getDomainFromId create.sender
  let domain ← getDomainFromId id
  guard (creatingDomain = domain ∨ canFederate create)

namespace Room

variable (p : PyInt) (flags : AuthFlags) (s : Room)

/-- `get_user_power_level` in the room. -/
def level (user : UserId) : Option ℤ := getUserPowerLevel p s.create s.powerLevels user

/-- `_check_joined_room`. -/
def isJoined (user : UserId) : Bool := s.members.get? user = some .join

/-- `_can_send_event`, for a state event that is not a user's own. -/
def canSendEvent (sender : UserId) (etype : PyStr) : Option Unit := do
  let sendLevel ← getSendLevel p s.powerLevels etype
  let userLevel ← s.level p sender
  guard (sendLevel ≤ userLevel)

/-! ### Memberships -/

/-- `join_rule`. -/
def joinRule : Json :=
  match s.joinRules with
  | none => .str (py "invite")
  | some content => (Dict.get? content "join_rule").getD (.str (py "invite"))

/-- The rules for a `join`. -/
def joinAllowed (e : MemberEvent) (inviteLevel : ℤ) : Option Unit := do
  guard (e.sender = e.target)
  guard (s.members.get? e.target ≠ some .ban)
  let inOrInvited := s.members.get? e.sender = some .join ∨ s.members.get? e.sender = some .invite
  if s.joinRule = .str (py "public") then some ()
  else if (flags.restrictedJoinRule ∧ s.joinRule = .str (py "restricted")) ∨
      (flags.knockRestrictedJoinRule ∧ s.joinRule = .str (py "knock_restricted")) then
    if inOrInvited then some ()
    else do
      let authorisingUser ← e.authorisingUser
      guard (s.isJoined authorisingUser)
      let authorisingUserLevel ← s.level p authorisingUser
      guard (inviteLevel ≤ authorisingUserLevel)
  else if s.joinRule = .str (py "invite") ∨
      (flags.knockJoinRule ∧ s.joinRule = .str (py "knock")) then guard inOrInvited
  else none

/-- The rules for the membership itself. -/
def membershipAllowed (e : MemberEvent) (userLevel targetLevel inviteLevel banLevel : ℤ) :
    Option Unit :=
  let targetBanned := s.members.get? e.target = some .ban
  match e.membership with
  | .invite =>
      guard (¬targetBanned ∧ s.members.get? e.target ≠ some .join ∧ inviteLevel ≤ userLevel)
  | .join => s.joinAllowed p flags e inviteLevel
  | .leave =>
      if targetBanned ∧ userLevel < banLevel then none
      else if e.target = e.sender then some ()
      else do
        let kickLevel ← getNamedLevel p s.powerLevels "kick" 50
        guard (kickLevel ≤ userLevel ∧ targetLevel < userLevel)
  | .ban => guard (banLevel ≤ userLevel ∧ targetLevel < userLevel)
  | .knock =>
      guard (flags.knockJoinRule ∧
        (s.joinRule = .str (py "knock") ∨
          (flags.knockRestrictedJoinRule ∧ s.joinRule = .str (py "knock_restricted"))) ∧
        e.target = e.sender ∧ s.members.get? e.target ≠ some .join ∧
        s.members.get? e.sender ≠ some .invite ∧ ¬targetBanned)

/-- The event is the creator's, who joins first. -/
def creatorJoins (e : MemberEvent) : Option Bool :=
  if s.events = 0 ∧ e.membership = .join then
    (roomCreator s.create).map fun creator => creator = .str e.target
  else some false

/-- `_is_membership_change_allowed`. -/
def isMembershipChangeAllowed (e : MemberEvent) : Option Unit := do
  let creatorJoins ← s.creatorJoins e
  if creatorJoins then some ()
  else do
    checkFederate s.create e.target
    let userLevel ← s.level p e.sender
    let targetLevel ← s.level p e.target
    let inviteLevel ← getNamedLevel p s.powerLevels "invite" 0
    let banLevel ← getNamedLevel p s.powerLevels "ban" 50
    if e.membership = .invite ∧ e.thirdPartyInvite.isSome then
      guard (e.thirdPartyInvite = some true ∧ s.members.get? e.target ≠ some .ban)
    else if e.membership = .leave ∧ e.target = e.sender ∧
        (s.members.get? e.sender = some .invite ∨
          (flags.knockJoinRule ∧ s.members.get? e.sender = some .knock)) then some ()
    else do
      -- all but a join or a knock is for those in the room
      guard (e.membership = .join ∨ e.membership = .knock ∨ s.isJoined e.sender)
      s.membershipAllowed p flags e userLevel targetLevel inviteLevel banLevel

/-! ### Power levels -/

end Room

/-- `int` of a level that may not be there; `none` for an exception. -/
def intOf (p : PyInt) : Option Json → Option (Option ℤ)
  | none => some none
  | some v => (p.int v).map some

/-- One level of `levels_to_check`: may it change as it does?  `guarded` is for the levels of the
other users. -/
def changeAllowed (p : PyInt) (userLevel : ℤ) (guarded : Bool) (old new : Option Json) : Bool :=
  match intOf p old, intOf p new with
  | some oldLevel, some newLevel =>
      (oldLevel.isSome ∧ newLevel = oldLevel) ∨
        ((guarded = false ∨ oldLevel ≠ some userLevel) ∧
          (∀ l ∈ oldLevel, l ≤ userLevel) ∧ ∀ l ∈ newLevel, l ≤ userLevel)
  | _, _ => false

/-- The levels of a mapping. -/
def levelsOf (content : Dict) (key : PyStr) : Dict :=
  match (Dict.get? content key).getD (.obj []) with
  | .obj d => d
  | _ => []

/-- The levels of a mapping that is in the old content and the new one. -/
def mappingAllowed (p : PyInt) (userLevel : ℤ) (guarded : PyStr → Bool) (old new : Dict) : Bool :=
  (old ++ new).all fun e =>
    changeAllowed p userLevel (guarded e.1) (Dict.get? old e.1) (Dict.get? new e.1)

/-- `_check_power_levels`, the comparison with the current power levels. -/
def levelsAllowed (p : PyInt) (flags : AuthFlags) (sender : UserId) (userLevel : ℤ)
    (current content : Dict) : Bool :=
  (levelKeys.all fun key =>
      changeAllowed p userLevel false (Dict.get? current key) (Dict.get? content key)) &&
    mappingAllowed p userLevel (fun user => user ≠ sender) (levelsOf current "users")
      (levelsOf content "users") &&
    mappingAllowed p userLevel (fun _ => false) (levelsOf current "events")
      (levelsOf content "events") &&
    (!flags.limitNotificationsPowerLevels ||
      mappingAllowed p userLevel (fun _ => false) (levelsOf current "notifications")
        (levelsOf content "notifications"))

namespace Room

variable (p : PyInt) (flags : AuthFlags) (s : Room)

/-- `check_state_dependent_auth_rules` for a state event of the room, up to what its type asks. -/
def stateEventAllowed (sender : UserId) (etype : PyStr) : Option Unit := do
  checkFederate s.create sender
  guard (s.isJoined sender)
  s.canSendEvent p sender etype

/-- `check_state_dependent_auth_rules` for power levels. -/
def powerLevelsAllowed (sender : UserId) (content : Content) : Option Unit := do
  s.stateEventAllowed p sender "m.room.power_levels"
  guard (checkPowerLevels p s.create content)
  match s.powerLevels with
  | none => some ()
  | some current => do
      let userLevel ← s.level p sender
      guard (levelsAllowed p flags sender userLevel current.dict content.dict)

/-- One more event of the room, which the rules accept. -/
def step (s : Room) : RoomEvent → Option Room
  | .member e => do
      checkFederate s.create e.sender
      s.isMembershipChangeAllowed p flags e
      some { s with members := s.members.set e.target e.membership, events := s.events + 1 }
  | .powerLevels sender content => do
      s.powerLevelsAllowed p flags sender content
      some { s with powerLevels := some content, events := s.events + 1 }
  | .joinRules sender content => do
      s.stateEventAllowed p sender "m.room.join_rules"
      some { s with joinRules := some content, events := s.events + 1 }

end Room

/-! ### The level of a user -/

variable {p : PyInt} {flags : AuthFlags} {s t : Room} {a : RoomEvent} {user sender : UserId}
  {content : Content} {k l n : ℤ} {A : UserId → Prop}

/-- The level of those who are not listed. -/
def defaultLevel (p : PyInt) (content : Dict) : Option ℤ :=
  let level := (Dict.get? content "users_default").getD (.int 0)
  if level = .null then some 0 else p.int level

theorem int_null (p : PyInt) : p.int .null = none := rfl

/-- A user who is listed has that level, and the others have the default. -/
theorem levelIn_eq_some_iff :
    levelIn p content user = some n ↔
      ∃ users, (Dict.get? content.dict "users").getD (.obj []) = .obj users ∧
        ((∃ v, Dict.get? users user = some v ∧ p.int v = some n) ∨
          Dict.get users user = .null ∧ defaultLevel p content.dict = some n) := by
  unfold levelIn defaultLevel
  generalize (Dict.get? content.dict "users").getD (.obj []) = users
  cases users with
  | obj users =>
      have hgetOf : getOf (.obj users) user = some (Dict.get users user) := rfl
      rw [hgetOf, Option.bind_eq_bind, Option.bind_some]
      simp only [Json.obj.injEq, exists_eq_left']
      by_cases hnull : Dict.get users user = .null
      · have hnone (v : Json) (hv : Dict.get? users user = some v) : v = .null := by
          rwa [Dict.get, hv] at hnull
        rw [if_pos hnull]
        constructor
        · exact fun h => .inr ⟨hnull, h⟩
        · rintro (⟨v, hv, hn⟩ | ⟨-, h⟩)
          · rw [hnone v hv, int_null] at hn
            cases hn
          · exact h
      · rw [if_neg hnull, if_neg hnull]
        constructor
        · intro h
          cases hv : Dict.get? users user with
          | none => exact absurd (by rw [Dict.get, hv]; rfl) hnull
          | some v =>
              rw [Dict.get, hv] at h
              exact .inl ⟨v, rfl, h⟩
        · rintro (⟨v, hv, hn⟩ | ⟨h, -⟩)
          · rw [Dict.get, hv]
            exact hn
          · exact absurd h hnull
  | _ =>
      constructor
      · intro h
        cases h
      · rintro ⟨users, h, -⟩
        cases h

/-- The level of a user in a room with power levels: the creator's, or the one that is listed. -/
theorem level_eq_some_iff (hlevels : s.powerLevels = some content) :
    s.level p user = some n ↔
      (hasCreatorPower s.create user = some true ∧ n = creatorPowerLevel) ∨
        hasCreatorPower s.create user = some false ∧ levelIn p content user = some n := by
  unfold Room.level getUserPowerLevel
  rw [hlevels]
  cases hcreator : hasCreatorPower s.create user with
  | none => simp
  | some b =>
      cases b with
      | true => simp [eq_comm]
      | false => simp

/-! ### What may change -/

/-- A level that changes is at most the sender's, before and after. -/
theorem changeAllowed_iff {userLevel : ℤ} {guarded : Bool} {old new : Option Json}
    (h : changeAllowed p userLevel guarded old new = true) :
    ∃ oldLevel newLevel, intOf p old = some oldLevel ∧ intOf p new = some newLevel ∧
      ((oldLevel.isSome = true ∧ newLevel = oldLevel) ∨
        ((guarded = false ∨ oldLevel ≠ some userLevel) ∧
          (∀ l ∈ oldLevel, l ≤ userLevel) ∧ ∀ l ∈ newLevel, l ≤ userLevel)) := by
  unfold changeAllowed at h
  split at h
  · rename_i oldLevel newLevel hold hnew
    exact ⟨oldLevel, newLevel, hold, hnew, of_decide_eq_true h⟩
  · cases h

/-- A level that is there afterwards was the same before, or is at most the sender's. -/
theorem new_of_changeAllowed {userLevel : ℤ} {guarded : Bool} {old : Option Json} {v : Json}
    (h : changeAllowed p userLevel guarded old (some v) = true) (hn : p.int v = some n) :
    (∃ w, old = some w ∧ p.int w = some n) ∨ n ≤ userLevel := by
  obtain ⟨oldLevel, newLevel, hold, hnew, hcases⟩ := changeAllowed_iff h
  have hnew : newLevel = some n := by
    rw [intOf, hn] at hnew
    exact (Option.some.inj hnew).symm
  subst hnew
  rcases hcases with ⟨-, rfl⟩ | ⟨-, -, hle⟩
  · left
    cases old with
    | none => cases hold
    | some w =>
        obtain ⟨m, hm, heq⟩ := Option.map_eq_some_iff.1 hold
        exact ⟨w, rfl, hm.trans heq⟩
  · exact .inr (hle n rfl)

/-- A level that no one below it may touch: what was there is there, with the same level. -/
theorem old_of_changeAllowed {userLevel : ℤ} {new : Option Json} {v : Json}
    (h : changeAllowed p userLevel true (some v) new = true) (hn : p.int v = some n)
    (hle : userLevel ≤ n) : ∃ w, new = some w ∧ p.int w = some n := by
  obtain ⟨oldLevel, newLevel, hold, hnew, hcases⟩ := changeAllowed_iff h
  have hold : oldLevel = some n := by
    rw [intOf, hn] at hold
    exact (Option.some.inj hold).symm
  subst hold
  rcases hcases with ⟨-, rfl⟩ | ⟨hguard, hold, -⟩
  · cases new with
    | none => cases hnew
    | some w =>
        obtain ⟨m, hm, heq⟩ := Option.map_eq_some_iff.1 hnew
        exact ⟨w, rfl, hm.trans heq⟩
  · -- it is the sender's level, and then the guard is for it
    have heq : n = userLevel := Int.le_antisymm (hold n rfl) hle
    rcases hguard with hfalse | hne
    · cases hfalse
    · exact absurd (congrArg some heq) hne

/-- A mapping with something in it is what is there. -/
theorem getD_of_levelsOf {content : Dict} {key : PyStr} {v : Json}
    (h : Dict.get? (levelsOf content key) user = some v) :
    (Dict.get? content key).getD (.obj []) = .obj (levelsOf content key) := by
  unfold levelsOf at h ⊢
  split at h
  · assumption
  · cases h

theorem mappingAllowed_iff {userLevel : ℤ} {guarded : PyStr → Bool} {old new : Dict} {key : PyStr}
    (h : mappingAllowed p userLevel guarded old new = true)
    (hkey : (Dict.get? old key).isSome = true ∨ (Dict.get? new key).isSome = true) :
    changeAllowed p userLevel (guarded key) (Dict.get? old key) (Dict.get? new key) = true := by
  have hall := List.all_eq_true.1 h
  rcases hkey with hkey | hkey
  · obtain ⟨v, hv⟩ := Option.isSome_iff_exists.1 hkey
    exact hall _ (List.mem_append_left _ (Dict.mem_of_get? hv))
  · obtain ⟨v, hv⟩ := Option.isSome_iff_exists.1 hkey
    exact hall _ (List.mem_append_right _ (Dict.mem_of_get? hv))

/-! ### What an event may do -/

/-- What the rules ask of power levels that come after others. -/
theorem powerLevels_cases {current : Content}
    (h : s.step p flags (.powerLevels sender content) = some t)
    (hcurrent : s.powerLevels = some current) :
    t = { s with powerLevels := some content, events := s.events + 1 } ∧
      checkPowerLevels p s.create content = true ∧
      ∃ userLevel, s.level p sender = some userLevel ∧
        levelsAllowed p flags sender userLevel current.dict content.dict = true := by
  obtain ⟨_, hallowed, h⟩ := Option.bind_eq_some_iff.1 h
  obtain ⟨_, -, hallowed⟩ := Option.bind_eq_some_iff.1 hallowed
  obtain ⟨_, hcheck, hallowed⟩ := Option.bind_eq_some_iff.1 hallowed
  rw [hcurrent] at hallowed
  obtain ⟨userLevel, hlevel, hallowed⟩ := Option.bind_eq_some_iff.1 hallowed
  exact ⟨(Option.some.inj h).symm, of_guard hcheck, userLevel, hlevel, of_guard hallowed⟩

/-- The other events leave the power levels as they are. -/
theorem powerLevels_kept (h : s.step p flags a = some t)
    (ha : ∀ sender content, a ≠ .powerLevels sender content) :
    t.create = s.create ∧ t.powerLevels = s.powerLevels := by
  cases a with
  | member e =>
      obtain ⟨-, -, h⟩ := Option.bind_eq_some_iff.1 h
      obtain ⟨-, -, h⟩ := Option.bind_eq_some_iff.1 h
      cases h
      exact ⟨rfl, rfl⟩
  | powerLevels sender content => exact absurd rfl (ha sender content)
  | joinRules sender content =>
      obtain ⟨-, -, h⟩ := Option.bind_eq_some_iff.1 h
      cases h
      exact ⟨rfl, rfl⟩

/-- The levels of the users, in power levels that are accepted. -/
theorem users_of_check {create : CreateEvent} (h : checkPowerLevels p create content = true) :
    ∃ users, (Dict.get? content.dict "users").getD (.obj []) = .obj users ∧
      levelsOf content.dict "users" = users ∧
      ∀ v, Dict.get? users user = some v → (p.int v).isSome = true := by
  unfold checkPowerLevels at h
  unfold levelsOf
  cases husers : (Dict.get? content.dict "users").getD (.obj []) with
  | obj users =>
      rw [husers] at h
      simp only [Bool.and_eq_true, List.all_eq_true] at h
      exact ⟨users, rfl, rfl, fun v hv => (h.1.1 _ (Dict.mem_of_get? hv)).2⟩
  | _ =>
      rw [husers] at h
      cases h

/-! ### No one is raised without those above -/

/-- Everyone but the members of `A` is below `k`, and so are those who are not listed. -/
structure Below (p : PyInt) (k : ℤ) (A : UserId → Prop) (s : Room) : Prop where
  levels : s.powerLevels.isSome = true
  user : ∀ user n, ¬A user → s.level p user = some n → n < k
  newcomer : ∀ content ∈ s.powerLevels, ∀ n, defaultLevel p content.dict = some n → n < k

/-- The default of power levels that are accepted from someone below `k`. -/
theorem default_lt {current : Content} {userLevel : ℤ} (hk : 0 < k) (huser : userLevel < k)
    (hold : ∀ n, defaultLevel p current.dict = some n → n < k)
    (h : levelsAllowed p flags sender userLevel current.dict content.dict = true)
    (hn : defaultLevel p content.dict = some n) : n < k := by
  have hchange : changeAllowed p userLevel false (Dict.get? current.dict "users_default")
      (Dict.get? content.dict "users_default") = true := by
    unfold levelsAllowed at h
    simp only [Bool.and_eq_true, List.all_eq_true] at h
    exact h.1.1.1 _ List.mem_cons_self
  unfold defaultLevel at hn
  cases hget : Dict.get? content.dict "users_default" with
  | none =>
      rw [hget] at hn
      obtain rfl : 0 = n := Option.some.inj hn
      exact hk
  | some v =>
      rw [hget] at hn hchange
      by_cases hnull : v = .null
      · obtain rfl : 0 = n := by simpa [hnull] using hn
        exact hk
      · have hn : p.int v = some n := by simpa [hnull] using hn
        rcases new_of_changeAllowed hchange hn with ⟨w, hw, hn⟩ | hle
        · -- it is the default that there was
          refine hold n ?_
          have hwnull : w ≠ .null := by
            rintro rfl
            cases hn
          simp [defaultLevel, hw, hwnull, hn]
        · exact Int.lt_of_le_of_lt hle huser

theorem Below.kept (hs : Below p k A s) (hcreate : t.create = s.create)
    (hpower : t.powerLevels = s.powerLevels) : Below p k A t where
  levels := hpower ▸ hs.levels
  user user n hA hlevel := by
    rw [Room.level, hcreate, hpower] at hlevel
    exact hs.user user n hA hlevel
  newcomer content hcontent := hs.newcomer content (hpower ▸ hcontent)

/-- The level that is listed after an event from someone below `k`. -/
theorem listed_lt {current : Content} {userLevel : ℤ} {users : Dict} {v : Json}
    (hcheck : levelsOf content.dict "users" = users) (huser : userLevel < k)
    (hallowed : levelsAllowed p flags sender userLevel current.dict content.dict = true)
    (hv : Dict.get? users user = some v) (hn : p.int v = some n)
    (hold : levelIn p current user = some n → n < k) : n < k := by
  have hchange : changeAllowed p userLevel (user ≠ sender)
      (Dict.get? (levelsOf current.dict "users") user) (some v) = true := by
    unfold levelsAllowed at hallowed
    simp only [Bool.and_eq_true] at hallowed
    rw [hcheck] at hallowed
    rw [← hv]
    exact mappingAllowed_iff hallowed.1.1.2 (.inr (Option.isSome_of_eq_some hv))
  rcases new_of_changeAllowed hchange hn with ⟨w, hw, hn⟩ | hle
  · exact hold (levelIn_eq_some_iff.2 ⟨_, getD_of_levelsOf hw, .inl ⟨w, hw, hn⟩⟩)
  · exact Int.lt_of_le_of_lt hle huser

theorem Below.step (hk : 0 < k) (hs : Below p k A s) (hsender : ¬A a.sender)
    (h : s.step p flags a = some t) : Below p k A t := by
  cases a with
  | member e =>
      obtain ⟨hcreate, hpower⟩ := powerLevels_kept h (by simp)
      exact hs.kept hcreate hpower
  | joinRules sender content =>
      obtain ⟨hcreate, hpower⟩ := powerLevels_kept h (by simp)
      exact hs.kept hcreate hpower
  | powerLevels sender content =>
      obtain ⟨current, hcurrent⟩ := Option.isSome_iff_exists.1 hs.levels
      obtain ⟨rfl, hcheck, userLevel, hlevel, hallowed⟩ := powerLevels_cases h hcurrent
      have huser : userLevel < k := hs.user sender userLevel hsender hlevel
      have hdefault (n : ℤ) (hn : defaultLevel p content.dict = some n) : n < k :=
        default_lt hk huser (hs.newcomer current hcurrent) hallowed hn
      refine ⟨rfl, fun user n hA hn => ?_, fun content' hcontent' n hn => ?_⟩
      · rcases (level_eq_some_iff rfl).1 hn with ⟨hcreator, rfl⟩ | ⟨hcreator, hn⟩
        · exact hs.user user _ hA ((level_eq_some_iff hcurrent).2 (.inl ⟨hcreator, rfl⟩))
        · obtain ⟨users, husers, hcases⟩ := levelIn_eq_some_iff.1 hn
          obtain ⟨users', husers', hlevels, -⟩ := @users_of_check p user content _ hcheck
          obtain rfl : users' = users := Json.obj.inj (husers'.symm.trans husers)
          rcases hcases with ⟨v, hv, hn⟩ | ⟨-, hn⟩
          · exact listed_lt hlevels huser hallowed hv hn fun hn =>
              hs.user user n hA ((level_eq_some_iff hcurrent).2 (.inr ⟨hcreator, hn⟩))
          · exact hdefault n hn
      · cases hcontent'
        exact hdefault n hn

/-! ### No one is brought down but from above -/

/-- The user has the level by their own name: they are a creator, or listed. -/
def HasOwnLevel (p : PyInt) (user : UserId) (l : ℤ) (s : Room) : Prop :=
  (hasCreatorPower s.create user = some true ∧ l = creatorPowerLevel) ∨
    hasCreatorPower s.create user = some false ∧ ∃ content v, s.powerLevels = some content ∧
      Dict.get? (levelsOf content.dict "users") user = some v ∧ p.int v = some l

theorem HasOwnLevel.level_eq (h : HasOwnLevel p user l s) : s.level p user = some l := by
  rcases h with ⟨hcreator, rfl⟩ | ⟨hcreator, content, v, hcontent, hv, hl⟩
  · unfold Room.level getUserPowerLevel
    rw [hcreator]
    rfl
  · exact (level_eq_some_iff hcontent).2
      (.inr ⟨hcreator, levelIn_eq_some_iff.2 ⟨_, getD_of_levelsOf hv, .inl ⟨v, hv, hl⟩⟩⟩)

theorem HasOwnLevel.kept (h : HasOwnLevel p user l s) (hcreate : t.create = s.create)
    (hpower : t.powerLevels = s.powerLevels) : HasOwnLevel p user l t := by
  unfold HasOwnLevel
  rw [hcreate, hpower]
  exact h

/-- An event of someone else who is not above the user. -/
structure NotAbove (p : PyInt) (user : UserId) (l : ℤ) (s : Room) (a : RoomEvent) : Prop where
  other : a.sender ≠ user
  level_le : ∀ n, s.level p a.sender = some n → n ≤ l

theorem HasOwnLevel.step (hs : HasOwnLevel p user l s) (ha : NotAbove p user l s a)
    (h : s.step p flags a = some t) : HasOwnLevel p user l t := by
  cases a with
  | member e =>
      obtain ⟨hcreate, hpower⟩ := powerLevels_kept h (by simp)
      exact hs.kept hcreate hpower
  | joinRules sender content =>
      obtain ⟨hcreate, hpower⟩ := powerLevels_kept h (by simp)
      exact hs.kept hcreate hpower
  | powerLevels sender content =>
      rcases hs with hcreator | ⟨hcreator, current, v, hcurrent, hv, hl⟩
      · obtain ⟨_, -, h⟩ := Option.bind_eq_some_iff.1 h
        cases h
        exact .inl hcreator
      · obtain ⟨rfl, hcheck, userLevel, hlevel, hallowed⟩ := powerLevels_cases h hcurrent
        have hchange : changeAllowed p userLevel (user ≠ sender) (some v)
            (Dict.get? (levelsOf content.dict "users") user) = true := by
          unfold levelsAllowed at hallowed
          simp only [Bool.and_eq_true] at hallowed
          rw [← hv]
          exact mappingAllowed_iff hallowed.1.1.2 (.inl (Option.isSome_of_eq_some hv))
        have hguarded : decide (user ≠ sender) = true := decide_eq_true fun h => ha.other h.symm
        rw [hguarded] at hchange
        obtain ⟨w, hw, hl⟩ := old_of_changeAllowed hchange hl (ha.level_le userLevel hlevel)
        exact .inr ⟨hcreator, content, w, rfl, hw, hl⟩

/-- What another user can do to the membership of someone in the room: nothing, to invite them by a
third party, or to act from above. -/
theorem member_cases {e : MemberEvent} (h : s.isMembershipChangeAllowed p flags e = some ())
    (hjoined : s.members.get? e.target = some .join) (hother : e.target ≠ e.sender) :
    e.membership = .join ∨ e.thirdPartyInvite = some true ∨
      ∃ userLevel targetLevel, s.level p e.sender = some userLevel ∧
        s.level p e.target = some targetLevel ∧ targetLevel < userLevel := by
  obtain ⟨creatorJoins, hcreator, h⟩ := Option.bind_eq_some_iff.1 h
  cases creatorJoins with
  | true =>
      refine .inl ?_
      unfold Room.creatorJoins at hcreator
      split at hcreator
      · rename_i hjoin
        exact hjoin.2
      · cases hcreator
  | false =>
      obtain ⟨_, -, h⟩ := Option.bind_eq_some_iff.1 h
      obtain ⟨userLevel, huser, h⟩ := Option.bind_eq_some_iff.1 h
      obtain ⟨targetLevel, htarget, h⟩ := Option.bind_eq_some_iff.1 h
      obtain ⟨inviteLevel, -, h⟩ := Option.bind_eq_some_iff.1 h
      obtain ⟨banLevel, -, h⟩ := Option.bind_eq_some_iff.1 h
      split at h
      · exact .inr (.inl (of_guard h).1)
      · split at h
        · rename_i hleave
          exact absurd hleave.2.1 hother
        · obtain ⟨_, -, h⟩ := Option.bind_eq_some_iff.1 h
          unfold Room.membershipAllowed at h
          dsimp only at h
          split at h
          · exact absurd hjoined (of_guard h).2.1
          · rename_i hmembership
            exact .inl hmembership
          · rw [if_neg hother] at h
            split at h
            · cases h
            · obtain ⟨kickLevel, -, h⟩ := Option.bind_eq_some_iff.1 h
              exact .inr (.inr ⟨userLevel, targetLevel, huser, htarget, (of_guard h).2⟩)
          · exact .inr (.inr ⟨userLevel, targetLevel, huser, htarget, (of_guard h).2⟩)
          · exact absurd (of_guard h).2.2.1 hother

/-- The event invites the user by a third party. -/
def InvitesByThirdParty (user : UserId) (a : RoomEvent) : Prop :=
  ∃ e, a = .member e ∧ e.target = user ∧ e.thirdPartyInvite = some true

theorem joined_step (hs : HasOwnLevel p user l s) (hjoined : s.members.get? user = some .join)
    (ha : NotAbove p user l s a) (hinvite : ¬InvitesByThirdParty user a)
    (h : s.step p flags a = some t) : t.members.get? user = some .join := by
  cases a with
  | powerLevels sender content =>
      obtain ⟨_, -, h⟩ := Option.bind_eq_some_iff.1 h
      cases h
      exact hjoined
  | joinRules sender content =>
      obtain ⟨_, -, h⟩ := Option.bind_eq_some_iff.1 h
      cases h
      exact hjoined
  | member e =>
      obtain ⟨_, -, h⟩ := Option.bind_eq_some_iff.1 h
      obtain ⟨_, hallowed, h⟩ := Option.bind_eq_some_iff.1 h
      cases h
      by_cases htarget : e.target = user
      · subst htarget
        rcases member_cases hallowed hjoined (fun h => ha.other h.symm) with
          hjoin | hthird | ⟨userLevel, targetLevel, huser, htarget, hlt⟩
        · rw [hjoin]
          exact Assoc.get?_set_self _ _ _
        · exact absurd ⟨e, rfl, rfl, hthird⟩ hinvite
        · have hl : l = targetLevel := Option.some.inj (hs.level_eq.symm.trans htarget)
          have := ha.level_le userLevel huser
          omega
      · rwa [Assoc.get?_set_of_ne _ _ (Ne.symm htarget)]

section Runs

variable {as bs : List RoomEvent}

/-- A room of three: Ann made it, Bob is a moderator, and Cat is neither. -/
def shopRoom : Room where
  create := ⟨⟨false, false, true⟩, "@ann:liza", [(py "creator", .str (py "@ann:liza"))]⟩
  powerLevels := some ⟨false, [(py "users",
    .obj [(py "@ann:liza", .int 100), (py "@bob:liza", .int 50)])]⟩
  joinRules := none
  members := [("@ann:liza", .join), ("@bob:liza", .join), ("@cat:liza", .join)]
  events := 5

/-- Bob makes Cat a moderator. -/
def catRaised : RoomEvent :=
  .powerLevels "@bob:liza" ⟨false, [(py "users", .obj [(py "@ann:liza", .int 100),
    (py "@bob:liza", .int 50), (py "@cat:liza", .int 50)])]⟩

/-- Levels are integers. -/
def onlyInts : PyInt := ⟨fun _ => none, fun _ => none⟩

/-- The flags of a room version with knocks. -/
def shopFlags : AuthFlags := ⟨true, true, true, true⟩

/-- **No one is brought down but from above.**  Someone in the room who has a level by their own
name keeps both in every run of events that the rules accept, while they send none, no one above
that level does, and no one invites them by a third party: there is no other way. -/
theorem not_brought_down (hlevel : HasOwnLevel p user l s)
    (hjoined : s.members.get? user = some .join)
    (h : Exec (Room.step p flags)
      (fun s a => NotAbove p user l s a ∧ ¬InvitesByThirdParty user a) s as t) :
    t.level p user = some l ∧ t.members.get? user = some .join := by
  have ht : HasOwnLevel p user l t ∧ t.members.get? user = some .join :=
    h.invariant (I := fun s => HasOwnLevel p user l s ∧ s.members.get? user = some .join)
      ⟨hlevel, hjoined⟩ fun _ _ _ hs ha hstep =>
        ⟨hs.1.step ha.1 hstep, joined_step hs.1 hs.2 ha.1 ha.2 hstep⟩
  exact ⟨ht.1.level_eq, ht.2⟩

/-- Ann keeps her level when Bob changes the others. -/
theorem ann_stays :
    ∃ t, Room.step onlyInts shopFlags shopRoom catRaised = some t ∧
      t.level onlyInts "@ann:liza" = some 100 ∧
        t.members.get? (py "@ann:liza") = some Membership.join := by
  have hown : HasOwnLevel onlyInts "@ann:liza" 100 shopRoom := .inr ⟨rfl, _, _, rfl, rfl, rfl⟩
  have hbob : NotAbove onlyInts "@ann:liza" 100 shopRoom catRaised := by
    refine ⟨by decide, fun n hn => ?_⟩
    obtain rfl : 50 = n := Option.some.inj hn
    decide
  have hinvite : ¬InvitesByThirdParty "@ann:liza" catRaised := by
    rintro ⟨e, he, -⟩
    cases he
  obtain ⟨t, ht⟩ := Option.isSome_iff_exists.1
    (by decide : (Room.step onlyInts shopFlags shopRoom catRaised).isSome = true)
  exact ⟨t, ht, not_brought_down hown rfl (.cons ⟨hbob, hinvite⟩ ht (.nil t))⟩

end Runs

end EventAuth
end Synapse
end Liza
