/-
# Who is told of a request to join

`modules/knock_notify`: when a user knocks at a room, the members of it on this server who have the
level of a moderator are told.  They are found in the state that the knock has left, by the level
that the module reads itself, and it is the auth rules that decide whether they can let the user in.
What a push says is left out, and so is the sending, of which every exception is caught.
-/

import Liza.Lib.Lines
import Liza.PowerLevels.Readers
import Liza.Synapse.RoomAuth
import Mathlib.Data.List.Dedup

set_option autoImplicit false

namespace Liza
namespace PowerLevels
namespace Knock

open Lib Synapse Synapse.EventAuth

/-- `MODERATOR_POWER_LEVEL`. -/
def moderatorPowerLevel : ℤ := 50

/-- `knock_reviewers`. -/
def knockReviewers (p : PyInt) (isLocal : UserId → Bool) (members : List (UserId × Membership))
    (powerLevels : Option Content) (knocker : UserId) (minLevel : ℤ) : List UserId :=
  sortedStrs (((members.filter fun m => m.2 = .join && m.1 ≠ knocker && isLocal m.1 &&
    minLevel ≤ userPowerLevel p m.1 powerLevels).map Prod.fst).dedup)

/-- `_on_new_event` of a knock: those who are told, by the state of the room. -/
def told (p : PyInt) (isLocal : UserId → Bool) (s : Room) (knocker : UserId) : List UserId :=
  knockReviewers p isLocal s.members s.powerLevels knocker moderatorPowerLevel

/-- The state that power levels are read from. -/
def levels (s : Room) : RoomState := ⟨s.create, s.powerLevels⟩

/-- A state of a room: the auth rules have accepted it, its contents are plain dictionaries, and a
user has one membership. -/
structure Sound (p : PyInt) (s : Room) : Prop where
  accepted : (levels s).Accepted p
  plain : ∀ content, s.powerLevels = some content → content.frozen = false
  keyed : s.members.Keyed

section

variable {p : PyInt} {flags : AuthFlags} {isLocal : UserId → Bool} {s t : Room}
  {user knocker r : UserId} {e : MemberEvent} {n : ℤ}

theorem mem_told (hs : Sound p s) : user ∈ told p isLocal s knocker ↔
    s.members.get? user = some .join ∧ user ≠ knocker ∧ isLocal user = true ∧
      moderatorPowerLevel ≤ userPowerLevel p user s.powerLevels := by
  unfold told knockReviewers
  rw [(sortedStrs_perm _).mem_iff, List.mem_dedup, List.mem_map]
  constructor
  · rintro ⟨m, hm, rfl⟩
    obtain ⟨hmem, htest⟩ := List.mem_filter.1 hm
    simp only [Bool.and_eq_true, decide_eq_true_eq] at htest
    obtain ⟨⟨⟨hjoin, hne⟩, hlocal⟩, hlevel⟩ := htest
    exact ⟨hs.keyed.get?_of_mem (hjoin ▸ hmem), hne, hlocal, hlevel⟩
  · rintro ⟨hjoin, hne, hlocal, hlevel⟩
    refine ⟨(user, .join), List.mem_filter.2 ⟨Assoc.mem_of_get? hjoin, ?_⟩, rfl⟩
    simp [hne, hlocal, hlevel]

/-- The module reads a level above 0 where the auth rules read it as well. -/
theorem userPowerLevel_of_level (hs : Sound p s) (hcreator : ¬(levels s).HasCreatorLevel user) :
    moderatorPowerLevel ≤ userPowerLevel p user s.powerLevels ↔
      ∃ n, s.level p user = some n ∧ moderatorPowerLevel ≤ n := by
  have hread : userPowerLevel p user s.powerLevels =
      (p.int (storedLevel s.powerLevels user)).getD 0 := userPowerLevel_eq (s := levels s)
    hs.accepted hs.plain
  have hlevel : s.level p user = if storedLevel s.powerLevels user = .null then some 0
      else p.int (storedLevel s.powerLevels user) :=
    getUserPowerLevel_eq (s := levels s) hs.accepted hs.plain hcreator
  rw [hread, hlevel]
  unfold moderatorPowerLevel
  by_cases hnull : storedLevel s.powerLevels user = .null
  · simp [hnull, PyInt.int]
  · rw [if_neg hnull]
    cases p.int (storedLevel s.powerLevels user) with
    | none => simp
    | some n => simp

/-- A moderator for the module is one for the auth rules. -/
theorem level_of_userPowerLevel (hs : Sound p s)
    (hlevel : moderatorPowerLevel ≤ userPowerLevel p user s.powerLevels) :
    ∃ n, s.level p user = some n ∧ moderatorPowerLevel ≤ n := by
  by_cases hcreator : (levels s).HasCreatorLevel user
  · rcases hcreator with hpower | ⟨hnone, -⟩
    · refine ⟨creatorPowerLevel, ?_, by decide⟩
      have hpower' : hasCreatorPower s.create user = some true := hpower
      unfold Room.level getUserPowerLevel
      rw [hpower']
      rfl
    · have hnone' : s.powerLevels = none := hnone
      rw [hnone'] at hlevel
      have hzero : userPowerLevel p user none = 0 := rfl
      rw [hzero] at hlevel
      exact absurd hlevel (by decide)
  · exact (userPowerLevel_of_level hs hcreator).1 hlevel

/-- **Who is told of a knock.**  In a room whose state the auth rules have accepted, those who are
told are the other users of this server in the room who have the level of a moderator by the auth
rules; a user with a level for being a creator is told for the level that is stored. -/
theorem told_iff (hs : Sound p s) (hcreator : ¬(levels s).HasCreatorLevel user) :
    user ∈ told p isLocal s knocker ↔
      s.members.get? user = some .join ∧ user ≠ knocker ∧ isLocal user = true ∧
        ∃ n, s.level p user = some n ∧ moderatorPowerLevel ≤ n := by
  rw [mem_told hs, userPowerLevel_of_level hs hcreator]

/-- Ann made the room, Bob is a moderator, and Cat is neither; one can knock. -/
def clubRoom : Room where
  create := ⟨⟨false, false, true⟩, "@ann:liza", [(py "creator", .str (py "@ann:liza"))]⟩
  powerLevels := some ⟨false, [(py "users",
    .obj [(py "@ann:liza", .int 100), (py "@bob:liza", .int 50)])]⟩
  joinRules := some [(py "join_rule", .str (py "knock"))]
  members := [("@ann:liza", .join), ("@bob:liza", .join), ("@cat:liza", .join)]
  events := 5

theorem sound_clubRoom : Sound onlyInts clubRoom where
  accepted := by
    refine ⟨by decide, fun content hcontent => ?_⟩
    obtain rfl := Option.some.inj hcontent
    decide
  plain content hcontent := by
    obtain rfl := Option.some.inj hcontent
    rfl
  keyed := by
    unfold Assoc.Keyed
    decide

/-- Bob is told that Dan knocks. -/
theorem bob_is_told : py "@bob:liza" ∈ told onlyInts (fun _ => true) clubRoom "@dan:liza" := by
  have hcreator : ¬(levels clubRoom).HasCreatorLevel (py "@bob:liza") := by
    rintro (hpower | ⟨hnone, -⟩)
    · cases hpower
    · cases hnone
  exact (told_iff sound_clubRoom hcreator).2 ⟨by decide, by decide, rfl, 50, by decide, by decide⟩

/-! ### Letting the user in -/

/-- `r` invites `user`. -/
def inviteOf (r user : UserId) : MemberEvent := ⟨r, user, .invite, none, none⟩

/-- `user` joins. -/
def joinOf (user : UserId) : MemberEvent := ⟨user, user, .join, none, none⟩

/-- The levels that are read for any change of a membership can be read. -/
structure Readable (p : PyInt) (s : Room) (user : UserId) : Prop where
  federates : checkFederate s.create user = some ()
  level : (s.level p user).isSome = true
  invite : (getNamedLevel p s.powerLevels "invite" 0).isSome = true
  ban : (getNamedLevel p s.powerLevels "ban" 50).isSome = true

/-- The join rule is one that a user can knock with. -/
def Knockable (flags : AuthFlags) (s : Room) : Prop :=
  flags.knockJoinRule = true ∧ (s.joinRule = .str (py "knock") ∨
    (flags.knockRestrictedJoinRule = true ∧ s.joinRule = .str (py "knock_restricted")))

/-- What a knock that the rules accept says of the room, and leaves in it. -/
theorem knock_cases (h : s.step p flags (.member e) = some t) (he : e.membership = .knock) :
    t = { s with members := s.members.set e.target .knock, events := s.events + 1 } ∧
      Readable p s e.target ∧ Knockable flags s := by
  obtain ⟨_, -, h⟩ := Option.bind_eq_some_iff.1 h
  obtain ⟨_, hallowed, h⟩ := Option.bind_eq_some_iff.1 h
  obtain ⟨creatorJoins, hcreator, hallowed⟩ := Option.bind_eq_some_iff.1 hallowed
  have hfalse : s.creatorJoins e = some false := by
    unfold Room.creatorJoins
    rw [if_neg]
    rintro ⟨-, hjoin⟩
    rw [he] at hjoin
    cases hjoin
  obtain rfl : false = creatorJoins := Option.some.inj (hfalse.symm.trans hcreator)
  obtain ⟨_, hfederate, hallowed⟩ := Option.bind_eq_some_iff.1 hallowed
  obtain ⟨userLevel, huser, hallowed⟩ := Option.bind_eq_some_iff.1 hallowed
  obtain ⟨targetLevel, htarget, hallowed⟩ := Option.bind_eq_some_iff.1 hallowed
  obtain ⟨inviteLevel, hinvite, hallowed⟩ := Option.bind_eq_some_iff.1 hallowed
  obtain ⟨banLevel, hban, hallowed⟩ := Option.bind_eq_some_iff.1 hallowed
  rw [if_neg (by rw [he]; rintro ⟨hmembership, -⟩; cases hmembership),
    if_neg (by rw [he]; rintro ⟨hmembership, -⟩; cases hmembership)] at hallowed
  obtain ⟨_, -, hallowed⟩ := Option.bind_eq_some_iff.1 hallowed
  unfold Room.membershipAllowed at hallowed
  rw [he] at hallowed h
  have hrule := of_guard hallowed
  refine ⟨(Option.some.inj h).symm, ⟨hfederate, ?_, ?_, ?_⟩, hrule.1, hrule.2.1⟩
  · rw [htarget]
    rfl
  · rw [hinvite]
    rfl
  · rw [hban]
    rfl

/-- A member of the room with the level for it may invite a user who is not in it. -/
theorem invite_step (hr : checkFederate s.create r = some ()) (hlevel : s.level p r = some n)
    (huser : Readable p s user)
    (hinvite : ∀ l, getNamedLevel p s.powerLevels "invite" 0 = some l → l ≤ n)
    (hjoined : s.members.get? r = some .join) (hknocks : s.members.get? user = some .knock) :
    s.step p flags (.member (inviteOf r user)) =
      some { s with members := s.members.set user .invite, events := s.events + 1 } := by
  obtain ⟨userLevel, hu⟩ := Option.isSome_iff_exists.1 huser.level
  obtain ⟨l, hl⟩ := Option.isSome_iff_exists.1 huser.invite
  obtain ⟨banLevel, hban⟩ := Option.isSome_iff_exists.1 huser.ban
  have hle := hinvite l hl
  unfold Room.step Room.isMembershipChangeAllowed Room.creatorJoins Room.membershipAllowed inviteOf
  simp [hr, hlevel, huser.federates, hu, hl, hban, Room.isJoined, hjoined, hknocks, hle, guard]

/-- An invited user may join where users can knock. -/
theorem join_step (huser : Readable p s user) (hrule : Knockable flags s) (hevents : s.events ≠ 0)
    (hinvited : s.members.get? user = some .invite) :
    s.step p flags (.member (joinOf user)) =
      some { s with members := s.members.set user .join, events := s.events + 1 } := by
  obtain ⟨userLevel, hu⟩ := Option.isSome_iff_exists.1 huser.level
  obtain ⟨l, hl⟩ := Option.isSome_iff_exists.1 huser.invite
  obtain ⟨banLevel, hban⟩ := Option.isSome_iff_exists.1 huser.ban
  obtain ⟨hflag, hrule⟩ := hrule
  have hjoin : s.joinAllowed p flags ⟨user, user, .join, none, none⟩ l = some () := by
    unfold Room.joinAllowed
    rcases hrule with hrule | ⟨hrestricted, hrule⟩
    · simp [hinvited, hrule, hflag, guard]
    · simp [hinvited, hrule, hrestricted, guard]
  unfold Room.step Room.isMembershipChangeAllowed Room.creatorJoins Room.membershipAllowed joinOf
  simp [huser.federates, hevents, hu, hl, hban, hjoin, guard]

/-- **Who is told can let the user in.**  After a knock that the rules accept, in a room where a
moderator may invite: each of those who are told, on a server that may take part in the room, can
invite the user, and the user can then join. -/
theorem told_can_let_in (hs : Sound p s) (h : s.step p flags (.member e) = some t)
    (he : e.membership = .knock) (hr : r ∈ told p isLocal t e.target)
    (hfederate : checkFederate s.create r = some ())
    (hinvite : ∀ l, getNamedLevel p s.powerLevels "invite" 0 = some l → l ≤ moderatorPowerLevel) :
    ∃ t' t'', t.step p flags (.member (inviteOf r e.target)) = some t' ∧
      t'.step p flags (.member (joinOf e.target)) = some t'' ∧
      t''.members.get? e.target = some .join := by
  obtain ⟨rfl, huser, hrule⟩ := knock_cases h he
  have ht : Sound p { s with members := s.members.set e.target .knock, events := s.events + 1 } :=
    ⟨hs.accepted, hs.plain, hs.keyed.set _ _⟩
  obtain ⟨hjoined, hne, -, hlevel⟩ := (mem_told ht).1 hr
  obtain ⟨n, hn, hle⟩ := level_of_userPowerLevel ht hlevel
  have hknocks : (s.members.set e.target .knock).get? e.target = some .knock :=
    Assoc.get?_set_self _ _ _
  refine ⟨_, _, invite_step hfederate hn ⟨huser.1, huser.2, huser.3, huser.4⟩
    (fun l hl => Int.le_trans (hinvite l hl) hle) hjoined hknocks,
    join_step ⟨huser.1, huser.2, huser.3, huser.4⟩ hrule (Nat.succ_ne_zero _)
      (Assoc.get?_set_self _ _ _), Assoc.get?_set_self _ _ _⟩

/-- Dan knocks. -/
def danKnocks : MemberEvent := ⟨"@dan:liza", "@dan:liza", .knock, none, none⟩

/-- Bob lets Dan in. -/
theorem bob_lets_dan_in : ∃ t t' t'',
    clubRoom.step onlyInts shopFlags (.member danKnocks) = some t ∧
      t.step onlyInts shopFlags (.member (inviteOf "@bob:liza" danKnocks.target)) = some t' ∧
      t'.step onlyInts shopFlags (.member (joinOf danKnocks.target)) = some t'' ∧
      t''.members.get? danKnocks.target = some .join := by
  obtain ⟨t, ht⟩ := Option.isSome_iff_exists.1
    (by decide : (clubRoom.step onlyInts shopFlags (.member danKnocks)).isSome = true)
  have hbob : py "@bob:liza" ∈ told onlyInts (fun _ => true) t danKnocks.target := by
    obtain ⟨rfl, -⟩ := knock_cases ht rfl
    decide
  have hinvite : ∀ l, getNamedLevel onlyInts clubRoom.powerLevels "invite" 0 = some l →
      l ≤ moderatorPowerLevel := by
    rintro l hl
    obtain rfl : 0 = l := Option.some.inj hl
    decide
  obtain ⟨t', t'', hrun⟩ := told_can_let_in sound_clubRoom ht rfl hbob (by decide) hinvite
  exact ⟨t, t', t'', ht, hrun⟩

end

end Knock
end PowerLevels
end Liza
