/-
# The audience of a stories room

A guest should be in the stories room of a local user exactly when the two share a direct
chat: both are joined to a room that is listed in `m.direct` of the owner.  The module
invites a guest when it sees a join in what it takes for a direct chat.  It never takes a
guest out again: `_room_is_registered_dm` looks for a `dict` of `list`s in what `get_global`
returns, which is an `immutabledict` of `tuple`s.  So the audience is right in the runs in
which two users who share a direct chat go on doing so, and begin to by such a join.
-/

import Liza.StoriesMembership.Module

set_option autoImplicit false

namespace Liza
namespace StoriesMembership

open Lib Synapse

/-- The guest is joined or invited to the stories room of the owner. -/
def World.inAudience (w : World) (owner guest : UserId) : Bool :=
  (w.storiesRoom owner).any fun room => w.rooms.isIn room guest

/-- The room is listed in `m.direct` of the user. -/
def World.listed (w : World) (user : UserId) (room : RoomId) : Bool :=
  (w.direct user).any fun direct => direct.any fun item =>
    match item.2 with
    | .arr rooms => .str room ∈ rooms
    | _ => false

/-- Both are joined to a room that is listed in `m.direct` of the first. -/
def World.shares (w : World) (owner guest : UserId) : Bool :=
  w.rooms.ids.any fun room => w.rooms.membership room owner = some .join &&
    w.rooms.membership room guest = some .join && w.listed owner room

/-- The callback for an event invites the guest to the stories room of the owner. -/
def subscribes (cfg : Config) (w : World) (e : Event) (owner guest : UserId) : Bool :=
  !eventRoomIsHidden w.rooms e.roomId &&
    isDirectMembershipJoin e.type e.content (isDirect w.rooms e) &&
    !isAiUser cfg w owner && !isAiUser cfg w guest &&
    ((memberOf e = owner && guest ∈ otherMembers w.rooms e.roomId (memberOf e)) ||
      (memberOf e = guest && owner ∈ otherMembers w.rooms e.roomId (memberOf e)))

/-- `subscribes` for what happens. -/
def Ev.subscribes (cfg : Config) (w : World) (ev : Ev) (owner guest : UserId) : Bool :=
  match ev with
  | .event e => StoriesMembership.subscribes cfg (arrive w ev) e owner guest
  | .direct _ _ => false

/-- What a run consists of: events in other rooms than the stories rooms, joins of who was
invited to a stories room, and writes of `m.direct`. -/
def Ordinary (w : World) : Ev → Prop
  | .event e => (∀ p ∈ w.stories, e.roomId ≠ p.2) ∨
      (e.type = py "m.room.member" ∧ Rooms.membershipOf e.content = some .join ∧
        ∃ user, e.stateKey = some user ∧ w.rooms.isIn e.roomId user = true)
  | .direct _ _ => True

/-- Two users who share a direct chat go on doing so, and they begin to exactly where the
callback invites. -/
def Steady (cfg : Config) (w : World) (ev : Ev) : Prop :=
  ∀ owner guest, isMine cfg.host owner = true → guest ≠ owner →
    (arrive w ev).shares owner guest = (w.shares owner guest || ev.subscribes cfg w owner guest)

/-- The stories rooms are there, are hidden, and belong to one user each. -/
structure World.WellFormed (w : World) : Prop where
  exists_ : ∀ p ∈ w.stories, p.2 ∈ w.rooms.ids
  hidden : ∀ p ∈ w.stories, ∃ s, w.rooms.state p.2 SyncGate.topologyState "" = some s ∧
    s.content.get "hidden" = .bool true
  distinct : ∀ p ∈ w.stories, ∀ q ∈ w.stories, p.2 = q.2 → p.1 = q.1

/-! ### Nobody is taken out -/

/-- **No direct chat is registered.**  What `get_global` returns is no `dict`. -/
theorem roomIsRegisteredDm_eq_false (cfg : Config) (w : World) (user : UserId) (room : RoomId) :
    roomIsRegisteredDm cfg w user room = false := by
  unfold roomIsRegisteredDm
  split
  · rfl
  · cases w.direct user with
    | none => rfl
    | some direct => rfl

/-- A callback invites, or does nothing. -/
theorem onNewEvent_eq (cfg : Config) (w : World) (e : Event) :
    onNewEvent cfg w e =
      if !eventRoomIsHidden w.rooms e.roomId &&
          isDirectMembershipJoin e.type e.content (isDirect w.rooms e) then
        (otherMembers w.rooms e.roomId (memberOf e)).foldl
          (fun w other => subscribePair cfg w (memberOf e) other) w
      else w := by
  unfold onNewEvent
  rw [roomIsRegisteredDm_eq_false]
  cases eventRoomIsHidden w.rooms e.roomId with
  | true => rfl
  | false =>
      cases isDirectMembershipJoin e.type e.content (isDirect w.rooms e) with
      | true => rfl
      | false =>
          simp only [Bool.false_eq_true, if_false, Bool.not_false, Bool.and_false]
          split <;> rfl

/-! ### Inviting -/

section Invite

variable {cfg : Config} {w : World} {owner guest o g : UserId} {room room' : RoomId} {r : Rooms}

theorem storiesRoom_mem (h : w.storiesRoom o = some room) : (o, room) ∈ w.stories := by
  obtain ⟨p, hp, rfl⟩ := Option.map_eq_some_iff.1 h
  have ho : p.1 = o := by simpa using List.find?_some hp
  rw [← ho]
  exact List.mem_of_find?_eq_some hp

/-- Who is in a room after an invite. -/
theorem isIn_invite : (invite r room guest).isIn room' g =
    (r.isIn room' g || (room' = room && g = guest)) := by
  unfold invite
  by_cases hin : r.isIn room guest = true
  · rw [if_pos hin]
    by_cases hsame : room' = room ∧ g = guest
    · obtain ⟨rfl, rfl⟩ := hsame
      simp [hin]
    · have : (decide (room' = room) && decide (g = guest)) = false := by
        simpa using hsame
      simp [this]
  · rw [if_neg hin]
    unfold Rooms.isIn
    rw [Rooms.setMember_membership]
    by_cases hsame : room' = room ∧ g = guest
    · simp [hsame, Membership.isIn]
    · have : (decide (room' = room) && decide (g = guest)) = false := by
        simpa using hsame
      rw [if_neg hsame, this, Bool.or_false]

/-- An invite joins nobody. -/
theorem join_invite : (invite r room guest).membership room' g = some .join ↔
    r.membership room' g = some .join := by
  unfold invite
  split
  · rfl
  · rename_i hin
    rw [Rooms.setMember_membership]
    split
    · rename_i hsame
      obtain ⟨rfl, rfl⟩ := hsame
      constructor
      · intro h
        cases h
      · intro h
        exact absurd (by simp [Rooms.isIn, h, Membership.isIn]) hin
    · rfl

/-- The second world is the first one with the pairs of `S` invited, and nothing else that
matters here has changed. -/
structure Invites (w w' : World) (S : UserId → UserId → Bool) : Prop where
  wellFormed : w'.WellFormed
  roles : w'.roles = w.roles
  shares : ∀ o g, g ≠ o → w'.shares o g = w.shares o g
  audience : ∀ o g, g ≠ o → w'.inAudience o g = (w.inAudience o g || S o g)

theorem Invites.refl (hw : w.WellFormed) : Invites w w fun _ _ => false :=
  ⟨hw, rfl, fun _ _ _ => rfl, fun _ _ _ => (Bool.or_false _).symm⟩

theorem Invites.trans {w' w'' : World} {S T : UserId → UserId → Bool} (h : Invites w w' S)
    (h' : Invites w' w'' T) : Invites w w'' fun o g => S o g || T o g where
  wellFormed := h'.wellFormed
  roles := h'.roles.trans h.roles
  shares := fun o g hne => (h'.shares o g hne).trans (h.shares o g hne)
  audience := by
    intro o g hne
    rw [h'.audience o g hne, h.audience o g hne, Bool.or_assoc]

theorem Invites.congr {w' : World} {S T : UserId → UserId → Bool} (h : Invites w w' S)
    (hST : ∀ o g, S o g = T o g) : Invites w w' T := by
  refine ⟨h.wellFormed, h.roles, h.shares, fun o g hne => ?_⟩
  rw [h.audience o g hne, hST]

theorem membership_createRoom (r : Rooms) (room room' : RoomId) (o g : UserId) :
    (createRoom r room o).membership room' g =
      if room' = room then if g = o then some .join else none else r.membership room' g := by
  unfold Rooms.membership createRoom
  by_cases hroom : room' = room
  · by_cases hg : g = o
    · simp [hroom, hg]
    · have hog : ¬o = g := fun h => hg h.symm
      simp [hroom, hg, hog]
  · simp [hroom]

/-- A new stories room has nobody in it but its owner. -/
theorem invites_ensureStoriesRoom (cfg : Config) (hw : w.WellFormed) (owner : UserId) :
    Invites w (ensureStoriesRoom cfg w owner).1 (fun _ _ => false) ∧
      (ensureStoriesRoom cfg w owner).1.storiesRoom owner =
        some (ensureStoriesRoom cfg w owner).2 := by
  unfold ensureStoriesRoom
  cases hroom : w.storiesRoom owner with
  | some room => exact ⟨.refl hw, hroom⟩
  | none =>
      have hfresh := cfg.newRoomId_fresh w.rooms.ids
      generalize cfg.newRoomId w.rooms.ids = room at hfresh
      have hne : ∀ p ∈ w.stories, p.2 ≠ room := by
        rintro p hp rfl
        exact hfresh (hw.exists_ p hp)
      refine ⟨⟨⟨?_, ?_, ?_⟩, rfl, ?_, ?_⟩, by simp [World.storiesRoom]⟩
      · intro p hp
        show p.2 ∈ w.rooms.ids ++ [room]
        rcases List.mem_cons.1 hp with rfl | hp
        · simp
        · exact List.mem_append_left _ (hw.exists_ p hp)
      · intro p hp
        rcases List.mem_cons.1 hp with rfl | hp
        · exact ⟨⟨owner, [("hidden", .bool true)]⟩, by simp [createRoom, storiesState,
            SyncGate.topologyState, py], rfl⟩
        · simp only [createRoom, hne p hp, if_false]
          exact hw.hidden p hp
      · intro p hp q hq hpq
        rcases List.mem_cons.1 hp with rfl | hp
        · rcases List.mem_cons.1 hq with rfl | hq
          · rfl
          · exact absurd hpq.symm (hne q hq)
        · rcases List.mem_cons.1 hq with rfl | hq
          · exact absurd hpq (hne p hp)
          · exact hw.distinct p hp q hq hpq
      · intro o g hog
        -- The new room is shared by nobody, and the others are as they were.
        have hnew : ¬((createRoom w.rooms room owner).membership room o = some .join ∧
            (createRoom w.rooms room owner).membership room g = some .join) := by
          simp only [membership_createRoom, if_true]
          rintro ⟨ho, hg⟩
          have ho : o = owner := by
            by_contra h
            simp [h] at ho
          have hg : g = owner := by
            by_contra h
            simp [h] at hg
          exact hog (hg.trans ho.symm)
        have hold : ∀ x ∈ w.rooms.ids, ∀ u,
            (createRoom w.rooms room owner).membership x u = w.rooms.membership x u := by
          intro x hx u
          rw [membership_createRoom, if_neg]
          rintro rfl
          exact hfresh hx
        rw [Bool.eq_iff_iff]
        simp only [World.shares, World.listed, List.any_eq_true, Bool.and_eq_true, decide_eq_true_eq]
        constructor
        · rintro ⟨x, hx, ⟨ho, hg⟩, hlisted⟩
          rcases List.mem_append.1 hx with hx | hx
          · rw [hold x hx] at ho hg
            exact ⟨x, hx, ⟨ho, hg⟩, hlisted⟩
          · obtain rfl := List.mem_singleton.1 hx
            exact absurd ⟨ho, hg⟩ hnew
        · rintro ⟨x, hx, ⟨ho, hg⟩, hlisted⟩
          refine ⟨x, List.mem_append_left _ hx, ⟨?_, ?_⟩, hlisted⟩
          · rw [hold x hx]
            exact ho
          · rw [hold x hx]
            exact hg
      · intro o g hog
        rw [Bool.or_false]
        by_cases ho : owner = o
        · subst ho
          have hfind : w.inAudience owner g = false := by simp [World.inAudience, hroom]
          rw [hfind]
          simp [World.inAudience, World.storiesRoom, Rooms.isIn, membership_createRoom, hog]
        · have hsame : (({ w with
              rooms := createRoom w.rooms room owner
              stories := (owner, room) :: w.stories } : World)).storiesRoom o = w.storiesRoom o := by
            simp [World.storiesRoom, ho]
          unfold World.inAudience
          rw [hsame]
          cases hR : w.storiesRoom o with
          | none => rfl
          | some R =>
              have hRne : R ≠ room := hne _ (storiesRoom_mem hR)
              simp [Rooms.isIn, membership_createRoom, hRne]

/-- An invite to a stories room. -/
theorem invites_invite (hw : w.WellFormed) (hroom : w.storiesRoom owner = some room) :
    Invites w { w with rooms := invite w.rooms room guest }
      fun o g => owner = o && guest = g := by
  have hids : (invite w.rooms room guest).ids = w.rooms.ids := by
    unfold invite
    split <;> rfl
  have hstate : (invite w.rooms room guest).state = w.rooms.state := by
    unfold invite
    split <;> rfl
  refine ⟨⟨fun p hp => ?_, fun p hp => ?_, hw.distinct⟩, rfl, fun o g hne => ?_, fun o g hne => ?_⟩
  · show p.2 ∈ (invite w.rooms room guest).ids
    rw [hids]
    exact hw.exists_ p hp
  · show ∃ s, (invite w.rooms room guest).state p.2 _ _ = some s ∧ _
    rw [hstate]
    exact hw.hidden p hp
  · show ((invite w.rooms room guest).ids.any fun x => _) = _
    rw [hids]
    simp only [World.shares, join_invite]
    rfl
  · unfold World.inAudience
    show (w.storiesRoom o).any _ = _
    cases hR : w.storiesRoom o with
    | none =>
        have ho : owner ≠ o := by
          rintro rfl
          rw [hroom] at hR
          cases hR
        simp [ho]
    | some R =>
        have hsame : R = room ↔ owner = o := by
          constructor
          · rintro rfl
            exact hw.distinct _ (storiesRoom_mem hroom) _ (storiesRoom_mem hR) rfl
          · rintro rfl
            exact Option.some.inj (hR.symm.trans hroom)
        simp only [Option.any_some, isIn_invite]
        rw [decide_eq_decide.2 hsame, decide_eq_decide.2 (eq_comm (a := g) (b := guest))]

/-- `_invite_into_owner_room` invites for a local owner. -/
theorem invites_inviteIntoOwnerRoom (cfg : Config) (hw : w.WellFormed) (owner guest : UserId) :
    Invites w (inviteIntoOwnerRoom cfg w owner guest)
      fun o g => isMine cfg.host owner && (owner = o && guest = g) := by
  unfold inviteIntoOwnerRoom
  cases hmine : isMine cfg.host owner with
  | false => exact .refl hw
  | true =>
      obtain ⟨hensure, hroom⟩ := invites_ensureStoriesRoom cfg hw owner
      exact (hensure.trans (invites_invite hensure.wellFormed hroom)).congr fun _ _ => rfl

/-- The pairs that `subscribe_pair` invites. -/
def pairSubscribes (cfg : Config) (w : World) (a b o g : UserId) : Bool :=
  !isAiUser cfg w a && !isAiUser cfg w b && isMine cfg.host o &&
    ((a = o && b = g) || (b = o && a = g))

theorem isAiUser_congr {w w' : World} (h : w'.roles = w.roles) (user : UserId) :
    isAiUser cfg w' user = isAiUser cfg w user := by
  unfold isAiUser
  rw [h]

/-- `subscribe_pair` invites both sides. -/
theorem invites_subscribePair (cfg : Config) (hw : w.WellFormed) (a b : UserId) :
    Invites w (subscribePair cfg w a b) (pairSubscribes cfg w a b) := by
  unfold subscribePair
  cases hai : isAiUser cfg w a || isAiUser cfg w b with
  | true =>
      refine (Invites.refl hw).congr fun o g => ?_
      have hai : isAiUser cfg w a = true ∨ isAiUser cfg w b = true := by simpa using hai
      rcases hai with ha | hb
      · simp [pairSubscribes, ha]
      · simp [pairSubscribes, hb]
  | false =>
      obtain ⟨ha, hb⟩ := (Bool.or_eq_false_iff).1 hai
      have hfirst := invites_inviteIntoOwnerRoom cfg hw a b
      have hsecond := invites_inviteIntoOwnerRoom cfg hfirst.wellFormed b a
      refine (hfirst.trans hsecond).congr fun o g => ?_
      simp only [pairSubscribes, ha, hb, Bool.not_false, Bool.true_and]
      by_cases hao : a = o
      · by_cases hbo : b = o
        · simp [hao, hbo]
        · simp [hao, hbo]
      · by_cases hbo : b = o
        · simp [hao, hbo]
        · simp [hao, hbo]

/-- The loop over the other members. -/
theorem invites_foldl (cfg : Config) (hw : w.WellFormed) (user : UserId) (others : List UserId) :
    Invites w (others.foldl (fun w other => subscribePair cfg w user other) w)
      fun o g => others.any fun other => pairSubscribes cfg w user other o g := by
  induction others generalizing w with
  | nil => exact .refl hw
  | cons other others ih =>
      have hfirst := invites_subscribePair cfg hw user other
      have hrest := ih hfirst.wellFormed
      refine (hfirst.trans hrest).congr fun o g => ?_
      simp only [List.any_cons, pairSubscribes, isAiUser_congr hfirst.roles]

/-- **What a callback does**: it invites the pairs it should, and nobody else. -/
theorem invites_onNewEvent (cfg : Config) (hw : w.WellFormed) (e : Event) :
    Invites w (onNewEvent cfg w e)
      fun o g => isMine cfg.host o && subscribes cfg w e o g := by
  rw [onNewEvent_eq]
  unfold subscribes
  cases hjoin : !eventRoomIsHidden w.rooms e.roomId &&
      isDirectMembershipJoin e.type e.content (isDirect w.rooms e) with
  | false => exact (Invites.refl hw).congr fun o g => by simp
  | true =>
      refine (invites_foldl cfg hw (memberOf e) _).congr fun o g => ?_
      rw [Bool.eq_iff_iff]
      simp only [pairSubscribes, List.any_eq_true, Bool.and_eq_true, Bool.or_eq_true,
        decide_eq_true_eq, Bool.true_and]
      constructor
      · rintro ⟨other, hmem, ⟨⟨ha, hb⟩, hmine⟩, ⟨rfl, rfl⟩ | ⟨rfl, rfl⟩⟩
        · exact ⟨hmine, ⟨ha, hb⟩, .inl ⟨rfl, hmem⟩⟩
        · exact ⟨hmine, ⟨hb, ha⟩, .inr ⟨rfl, hmem⟩⟩
      · rintro ⟨hmine, ⟨ho, hg⟩, ⟨rfl, hmem⟩ | ⟨rfl, hmem⟩⟩
        · exact ⟨g, hmem, ⟨⟨ho, hg⟩, hmine⟩, .inl ⟨rfl, rfl⟩⟩
        · exact ⟨o, hmem, ⟨⟨hg, ho⟩, hmine⟩, .inr ⟨rfl, rfl⟩⟩

end Invite

/-! ### Over a run -/

section Run

variable {cfg : Config} {w w' : World} {ev : Ev} {evs : List Ev} {o g : UserId}

/-- What arrives leaves the stories rooms as they are. -/
theorem wellFormed_arrive (hw : w.WellFormed) (hord : Ordinary w ev) :
    (arrive w ev).WellFormed := by
  cases ev with
  | direct user content => exact ⟨hw.exists_, hw.hidden, hw.distinct⟩
  | event e =>
      refine ⟨fun p hp => ?_, fun p hp => ?_, hw.distinct⟩
      · have hmem := hw.exists_ p hp
        show p.2 ∈ (w.rooms.persist e).ids
        unfold Rooms.persist
        split
        · exact hmem
        · split
          · split <;> exact hmem
          · show p.2 ∈ if _ then _ else _
            split
            · exact List.mem_append_left _ hmem
            · exact hmem
      · have hsame : (w.rooms.persist e).state p.2 SyncGate.topologyState "" =
            w.rooms.state p.2 SyncGate.topologyState "" := by
          refine Rooms.persist_state_of_ne _ _ _ _ e ?_
          rintro ⟨hroom, htype, -⟩
          rcases hord with hother | ⟨hmember, -⟩
          · exact hother p hp hroom
          · rw [hmember] at htype
            exact absurd htype (by decide)
        show ∃ s, (w.rooms.persist e).state p.2 SyncGate.topologyState "" = some s ∧ _
        rw [hsame]
        exact hw.hidden p hp

/-- What arrives changes no audience. -/
theorem inAudience_arrive (hord : Ordinary w ev) :
    (arrive w ev).inAudience o g = w.inAudience o g := by
  cases ev with
  | direct user content => rfl
  | event e =>
      show ((w.storiesRoom o).any fun room => (w.rooms.persist e).isIn room g) = _
      unfold World.inAudience
      cases hR : w.storiesRoom o with
      | none => rfl
      | some R =>
          show (w.rooms.persist e).isIn R g = w.rooms.isIn R g
          by_cases hroom : e.roomId = R
          · rcases hord with hother | ⟨htype, hjoin, user, hkey, hin⟩
            · exact absurd hroom (hother _ (storiesRoom_mem hR))
            · subst hroom
              rw [Rooms.persist_isIn _ user g e hkey htype hjoin]
              split
              · rename_i hg
                rw [hg, hin]
                rfl
              · rfl
          · exact Rooms.persist_isIn_of_ne _ _ _ e hroom

/-- The audiences are right: a guest is in the stories room of a local owner exactly when
the two share a direct chat. -/
structure Right (cfg : Config) (w : World) : Prop where
  wellFormed : w.WellFormed
  audience : ∀ o g, isMine cfg.host o = true → g ≠ o → w.inAudience o g = w.shares o g

/-- **A steady step keeps the audiences right.** -/
theorem right_step (hw : Right cfg w) (hord : Ordinary w ev) (hsteady : Steady cfg w ev)
    (h : step cfg w ev = some w') : Right cfg w' := by
  have hwf := wellFormed_arrive hw.wellFormed hord
  have harrive : ∀ o g, isMine cfg.host o = true → g ≠ o →
      ((arrive w ev).inAudience o g || ev.subscribes cfg w o g) = (arrive w ev).shares o g := by
    intro o g hmine hne
    rw [inAudience_arrive hord, hw.audience o g hmine hne, hsteady o g hmine hne]
  cases ev with
  | direct user content =>
      obtain rfl := Option.some.inj h
      refine ⟨hwf, fun o g hmine hne => ?_⟩
      have := harrive o g hmine hne
      rwa [Ev.subscribes, Bool.or_false] at this
  | event e =>
      obtain rfl := Option.some.inj h
      have hinv := invites_onNewEvent cfg hwf e
      refine ⟨hinv.wellFormed, fun o g hmine hne => ?_⟩
      rw [hinv.audience o g hne, hinv.shares o g hne, hmine, Bool.true_and]
      exact harrive o g hmine hne

/-- **The audience of a stories room.**  From any state in which the audiences are right
(such as the empty one), after every run of events and writes of `m.direct`, each processed
to its end, in which two users who share a direct chat go on doing so and begin to exactly
where the callback invites: a guest is joined or invited to the stories room of a local
owner exactly when both are joined to a room that is listed in `m.direct` of the owner. -/
theorem audience_iff_shares (hw : Right cfg w)
    (h : Exec (step cfg) (fun w ev => Ordinary w ev ∧ Steady cfg w ev) w evs w')
    (owner guest : UserId) (hmine : isMine cfg.host owner = true) (hne : guest ≠ owner) :
    w'.inAudience owner guest = true ↔ w'.shares owner guest = true := by
  have hright : Right cfg w' :=
    h.invariant hw fun w ev w' hw hc hstep => right_step hw hc.1 hc.2 hstep
  rw [hright.audience owner guest hmine hne]

end Run

/-! ### A direct chat that ends -/

section Check

variable {cfg : Config} {w : World} {ev : Ev} {o g : UserId}

instance (w : World) : (ev : Ev) → Decidable (Ordinary w ev)
  | .event e =>
      have : Decidable (∃ user, e.stateKey = some user ∧ w.rooms.isIn e.roomId user = true) :=
        decidable_of_iff (e.stateKey.any fun user => w.rooms.isIn e.roomId user) (by
          cases e.stateKey <;> simp)
      inferInstanceAs (Decidable ((∀ p ∈ w.stories, e.roomId ≠ p.2) ∨ _ ∧ _ ∧ _))
  | .direct _ _ => .isTrue trivial

/-- The users with a membership in some room. -/
def people (w : World) : List UserId :=
  w.rooms.ids.flatMap fun room => (w.rooms.members room).map Prod.fst

/-- The users of an event. -/
def Ev.people (w : World) : Ev → List UserId
  | .event e => memberOf e :: ((w.rooms.persist e).members e.roomId).map Prod.fst
  | .direct _ _ => []

/-- `Steady` for the users that there are. -/
def steadyCheck (cfg : Config) (w : World) (ev : Ev) : Bool :=
  let users := people w ++ people (arrive w ev) ++ ev.people w
  users.all fun o => users.all fun g => !isMine cfg.host o || g = o ||
    (arrive w ev).shares o g = (w.shares o g || ev.subscribes cfg w o g)

theorem mem_people {room : RoomId} {m : Membership} (hroom : room ∈ w.rooms.ids)
    (h : w.rooms.membership room o = some m) : o ∈ people w := by
  obtain ⟨p, hp, -⟩ := Option.map_eq_some_iff.1 h
  have ho : p.1 = o := by simpa using List.find?_some hp
  exact List.mem_flatMap.2 ⟨room, hroom, List.mem_map.2 ⟨p, List.mem_of_find?_eq_some hp, ho⟩⟩

/-- Who shares a direct chat is there. -/
theorem mem_people_of_shares (h : w.shares o g = true) : o ∈ people w ∧ g ∈ people w := by
  simp only [World.shares, List.any_eq_true, Bool.and_eq_true, decide_eq_true_eq] at h
  obtain ⟨room, hroom, ⟨ho, hg⟩, -⟩ := h
  exact ⟨mem_people hroom ho, mem_people hroom hg⟩

/-- Who is invited is there. -/
theorem mem_people_of_subscribes (h : ev.subscribes cfg w o g = true) :
    o ∈ ev.people w ∧ g ∈ ev.people w := by
  cases ev with
  | direct user content => cases h
  | event e =>
      have hother : ∀ u, u ∈ otherMembers (arrive w (.event e)).rooms e.roomId (memberOf e) →
          u ∈ Ev.people w (.event e) := by
        intro u hu
        obtain ⟨p, hp, rfl⟩ := List.mem_map.1 hu
        exact List.mem_cons_of_mem _ (List.mem_map.2 ⟨p, (List.mem_filter.1 hp).1, rfl⟩)
      simp only [Ev.subscribes, subscribes, Bool.and_eq_true, Bool.or_eq_true,
        decide_eq_true_eq] at h
      rcases h.2 with ⟨ho, hg⟩ | ⟨hg, ho⟩
      · exact ⟨ho ▸ List.mem_cons_self, hother g hg⟩
      · exact ⟨hother o ho, hg ▸ List.mem_cons_self⟩

/-- It is enough to look at the users that there are. -/
theorem steady_of_check (h : steadyCheck cfg w ev = true) : Steady cfg w ev := by
  intro o g hmine hne
  by_cases hpeople : (o ∈ people w ++ people (arrive w ev) ++ ev.people w) ∧
      g ∈ people w ++ people (arrive w ev) ++ ev.people w
  · have hog := List.all_eq_true.1 (List.all_eq_true.1 h o hpeople.1) g hpeople.2
    simpa [hmine, hne] using hog
  · have hafter : (arrive w ev).shares o g = false := by
      by_contra hs
      obtain ⟨ho, hg⟩ := mem_people_of_shares (eq_true_of_ne_false hs)
      exact hpeople ⟨by simp [ho], by simp [hg]⟩
    have hbefore : w.shares o g = false := by
      by_contra hs
      obtain ⟨ho, hg⟩ := mem_people_of_shares (eq_true_of_ne_false hs)
      exact hpeople ⟨by simp [ho], by simp [hg]⟩
    have hinvited : ev.subscribes cfg w o g = false := by
      by_contra hs
      obtain ⟨ho, hg⟩ := mem_people_of_subscribes (eq_true_of_ne_false hs)
      exact hpeople ⟨by simp [ho], by simp [hg]⟩
    rw [hafter, hbefore, hinvited]
    rfl

end Check

/-- A name that is longer than all others is new. -/
def longerName (ids : List RoomId) : RoomId := ids.flatten ++ [codePoint 'r']

theorem longerName_fresh (ids : List RoomId) : longerName ids ∉ ids := by
  intro h
  have hle : (longerName ids).length ≤ ids.flatten.length := (List.sublist_flatten_of_mem h).length_le
  simp only [longerName, List.length_append, List.length_singleton] at hle
  omega

/-- A server without rooms. -/
def config : Config := ⟨"h", ["liza", "gpt", "deepseek"], longerName, longerName_fresh⟩

/-- Nothing has happened yet. -/
def blank : World := ⟨⟨[], fun _ _ _ => none, fun _ => []⟩, fun _ => none, fun _ => none, []⟩

/-- Nobody is in an audience, and nobody shares a direct chat. -/
theorem right_blank (cfg : Config) : Right cfg blank :=
  ⟨⟨by simp [blank], by simp [blank], by simp [blank]⟩, fun _ _ _ _ => rfl⟩

/-- A membership event in the direct chat. -/
def memberEvent (user : UserId) (membership : PyStr) : Ev :=
  .event ⟨"$e", "m.room.member", "!dm:h", user, some user,
    [("membership", .str membership), ("is_direct", .bool true)], none⟩

/-- A user invites another to a direct chat, who joins it. -/
def meeting : List Ev :=
  [.event ⟨"$c", "m.room.create", "!dm:h", "@alice:h", some "", [], none⟩,
    memberEvent "@alice:h" "join",
    .direct "@alice:h" [("@bob:h", .arr [.str "!dm:h"])],
    memberEvent "@bob:h" "invite",
    .direct "@bob:h" [("@alice:h", .arr [.str "!dm:h"])],
    memberEvent "@bob:h" "join"]

/-- **Who leaves the only direct chat stays in the audience.** -/
theorem audience_outlives_chat : ∃ w, Exec (step config) Ordinary blank
    (meeting ++ [memberEvent "@bob:h" "leave"]) w ∧ w.inAudience "@alice:h" "@bob:h" = true ∧
      w.shares "@alice:h" "@bob:h" = false :=
  exists_exec_of_runs (f := step config) (C := Ordinary) (s := blank)
    (l := meeting ++ [memberEvent "@bob:h" "leave"]) (by decide +kernel)

/-- Up to then the audience is right. -/
theorem meeting_audience : ∃ w, Exec (step config) (fun w ev => Ordinary w ev ∧ Steady config w ev)
    blank meeting w ∧ w.shares "@alice:h" "@bob:h" = true ∧
      w.inAudience "@alice:h" "@bob:h" = true := by
  obtain ⟨w, hrun, hshares⟩ := exists_exec_of_runs (f := step config)
    (C := fun w ev => Ordinary w ev ∧ steadyCheck config w ev = true) (s := blank) (l := meeting)
    (p := fun w => w.shares "@alice:h" "@bob:h" = true) (by decide +kernel)
  have hrun := hrun.mono fun w ev hc => And.imp_right steady_of_check hc
  exact ⟨w, hrun, hshares, (audience_iff_shares (right_blank config) hrun "@alice:h" "@bob:h"
    (by decide) (by decide)).2 hshares⟩

end StoriesMembership
end Liza
