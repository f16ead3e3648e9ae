/-
# The gate at the creation of a room and the gate of its invites

`create_room` of `handlers/room.py` asks `_on_create_room` before there is a room, and sends the
invites of the request when the room is there; `_check_event_allowed` looks at each of them then.
If it rejected one, the room would stay behind with the invites sent so far.

The two callbacks decide by different things: the one by the request (`is_direct` is something
true, `invite` is a list), the other by the event and the room (`is_direct` is `True`, the room is
not exempt).  `creation_gates_agree` says that the second never rejects what the first lets pass,
where `invite` is a list.  Where it is an object, `create_room` invites its keys, and the first
callback does not see them (`object_of_invites`).

What else may keep a room from being created, or an invite from being sent, is a parameter; so is
the state that an invite is checked against.  The other modules' callbacks change the creation
content at most, and that only goes into this state.
-/

import Liza.BlockGuard.Module

set_option autoImplicit false

namespace Liza
namespace BlockGuard

open Lib Synapse

/-- The homeserver, as far as the creation of a room depends on it. -/
structure Server where
  cfg : Config
  data : AccountData
  shadowBanned : UserId → Bool
  isGuest : UserId → Bool
  /-- `parse_and_validate_server_name` returns. -/
  validServerName : PyStr → Bool
  /-- Some other check refuses the request, before there is a room. -/
  refuses : UserId → Dict → Bool
  newRoom : RoomId
  displayname : UserId → Option Json
  avatarUrl : UserId → Option Json
  /-- `lookup_3pid`. -/
  lookup3pid : Dict → Option UserId
  /-- The content of an `m.room.third_party_invite`. -/
  content3pid : Dict → Dict
  /-- The state of the new room when some invites have been sent. -/
  state : UserId → Dict → List Event → State
  /-- Something other than `_check_event_allowed` keeps the event from being sent. -/
  fails : Event → Bool

/-! ### The request -/

/-- What a `for` loop goes over; `None` where it raises. -/
def iterated : Json → Option (List Json)
  | .arr l => some l
  | .obj d => some (d.map fun e => .str e.1)
  | .str s => some (s.map fun c => .str [c])
  | _ => none

/-- `config.get(key, [])`. -/
def listOf (config : Dict) (key : PyStr) : Option (List Json) :=
  iterated ((Dict.get? config key).getD (.arr []))

/-- `key in v`; `None` where it raises. -/
def isIn (key : PyStr) : Json → Option Bool
  | .obj d => some (Dict.contains d key)
  | .arr l => some (.str key ∈ l)
  | .str s => some (key <:+: s)
  | _ => none

/-- The check of an entry of `invite_3pid`. -/
def valid3pid (v : Json) : Bool :=
  [py "medium", "address", "id_server", "id_access_token"].all fun key => isIn key v = some true

/-- The check of an entry of `invite`. -/
def validInvite (srv : Server) : Json → Bool
  | .str user =>
      EventAuth.userIdFromString user &&
        ((split1 (codePoint ':') user).2.map srv.validServerName).getD false
  | _ => false

/-! ### The invites -/

/-- `if key not in content: content[key] = v`, for a `v` that is not `None`. -/
def fillIn (content : Dict) (key : PyStr) : Option Json → Dict
  | some v => if Dict.contains content key then content else content.set key v
  | none => content

/-- The content that `update_membership_locked` and `_local_membership_update` make of the one
they are given. -/
def memberContent (srv : Server) (requester target : UserId) (content : Dict) : Dict :=
  let content := content.erase "join_authorised_via_users_server"
  let content := fillIn content "displayname" (srv.displayname target)
  let content := fillIn content "avatar_url" (srv.avatarUrl target)
  let content := content.set "membership" (.str "invite")
  if srv.isGuest requester then content.set "kind" (.str "guest") else content

/-- A membership event that invites a user. -/
def inviteEvent (srv : Server) (requester target : UserId) (content : Dict) : Event :=
  ⟨[], memberEventType, srv.newRoom, requester, some target,
    memberContent srv requester target content, none⟩

/-- The content with which the users of `invite` are invited. -/
def inviteContent (config : Dict) : Dict :=
  if (config.get "is_direct").truthy then [("is_direct", config.get "is_direct")] else []

/-- `do_3pid_invite`: whoever the identity server knows is invited, without a content.  An entry
that is no object raises. -/
def event3pid (srv : Server) (requester : UserId) : Json → Option Event
  | .obj entry =>
      match srv.lookup3pid entry with
      | some user => some (inviteEvent srv requester user [])
      | none =>
          some ⟨[], "m.room.third_party_invite", srv.newRoom, requester, some [],
            srv.content3pid entry, none⟩
  | _ => none

/-- The events that the request asks for when the room is there. -/
def requested (srv : Server) (creator : UserId) (config : Dict) : List (Option Event) :=
  (strings ((listOf config "invite").getD [])).map
      (fun user => some (inviteEvent srv creator user (inviteContent config))) ++
    ((listOf config "invite_3pid").getD []).map (event3pid srv creator)

/-! ### The creation -/

/-- How a request ends: without a room, with all its invites sent, or with a room in which one could
not be sent. -/
inductive Outcome where
  | refused
  | created (sent : List Event)
  | halfCreated (sent : List Event) (byGuard : Bool)

/-- The invites one after the other. -/
def sendInvites (srv : Server) (creator : UserId) (config : Dict) :
    List Event → List (Option Event) → Outcome
  | sent, [] => .created sent
  | sent, none :: _ => .halfCreated sent false
  | sent, some event :: rest =>
      if srv.fails event then .halfCreated sent false
      else if !checkEventAllowed srv.cfg srv.data event (srv.state creator config sent) then
        .halfCreated sent true
      else sendInvites srv creator config (sent ++ [event]) rest

/-- `create_room`. -/
def createRoom (srv : Server) (creator : UserId) (config : Dict) : Outcome :=
  if !onCreateRoom srv.cfg srv.data creator config then .refused
  else match listOf config "invite_3pid", listOf config "invite" with
    | some invite3pidList, some inviteList =>
        if !invite3pidList.all valid3pid || !inviteList.all (validInvite srv) then .refused
        else if srv.refuses creator config then .refused
        else if srv.shadowBanned creator then .created []
        else sendInvites srv creator config [] (requested srv creator config)
    | _, _ => .refused

/-! ### The two gates -/

section Gates

variable {srv : Server} {creator user : UserId} {config content : Dict} {event : Event}
  {state : State}

theorem get_erase_of_ne {d : Dict} {k l : PyStr} (h : l ≠ k) : (d.erase k).get l = d.get l := by
  unfold Dict.get Dict.erase
  induction d with
  | nil => rfl
  | cons e d ih =>
      obtain ⟨m, v⟩ := e
      by_cases hm : m = k
      · rw [List.filter_cons_of_neg (by simpa using hm), ih, Dict.get?_cons, if_neg]
        rw [hm]
        exact h.symm
      · rw [List.filter_cons_of_pos (by simpa using hm), Dict.get?_cons, Dict.get?_cons]
        split
        · rfl
        · exact ih

theorem get_set_of_ne {d : Dict} {k l : PyStr} {v : Json} (h : l ≠ k) :
    (d.set k v).get l = d.get l := by
  unfold Dict.get
  rw [Dict.get?_set_of_ne _ _ h]

theorem get_fillIn_of_ne {d : Dict} {k l : PyStr} {v : Option Json} (h : l ≠ k) :
    (fillIn d k v).get l = d.get l := by
  unfold fillIn
  split
  · split
    · rfl
    · exact get_set_of_ne h
  · rfl

/-- What is added to the content of an invite does not touch `is_direct`. -/
theorem isDirect_memberContent :
    (memberContent srv creator user content).get "is_direct" = content.get "is_direct" := by
  have hbase : ((fillIn (fillIn (content.erase "join_authorised_via_users_server") "displayname"
      (srv.displayname user)) "avatar_url" (srv.avatarUrl user)).set "membership"
        (.str "invite")).get "is_direct" = content.get "is_direct" := by
    rw [get_set_of_ne (by decide), get_fillIn_of_ne (by decide), get_fillIn_of_ne (by decide),
      get_erase_of_ne (by decide)]
  unfold memberContent
  dsimp only
  split
  · rw [get_set_of_ne (by decide)]
    exact hbase
  · exact hbase

/-- **What `_check_event_allowed` rejects among the membership events**: invites with `is_direct`,
of somebody who is not a service account and whom the other side ignores. -/
theorem rejected_member (htype : event.type = memberEventType)
    (h : checkEventAllowed srv.cfg srv.data event state = false) :
    srv.cfg.enabled = true ∧ event.content.get "is_direct" = .bool true ∧
      isServiceAccount srv.cfg srv.data event.sender = false ∧
      ∃ target, event.stateKey = some target ∧
        ignoresUser srv.cfg srv.data target event.sender = true := by
  unfold checkEventAllowed at h
  split at h
  · cases h
  · rename_i henabled
    split at h
    · cases h
    · rename_i hblockable
      have hdirect : event.content.get "is_direct" = .bool true := by
        unfold isBlockableEventType at hblockable
        rw [htype, if_neg (by decide), if_neg (by simp)] at hblockable
        simp only [Bool.not_eq_true', Bool.not_eq_false, Bool.and_eq_true,
          decide_eq_true_eq] at hblockable
        exact hblockable.2
      split at h
      · cases h
      · split at h
        · cases h
        · split at h
          · cases h
          · rename_i hservice
            split at h
            · cases h
            · rename_i target htarget
              split at h
              · cases h
              · refine ⟨by simpa using henabled, hdirect, by simpa using hservice, target,
                  htarget, ?_⟩
                simpa using h

theorem lookup_map {l : List UserId} {f : UserId → Bool} (h : user ∈ l) :
    (l.map fun u => (u, f u)).lookup user = some (f user) := by
  induction l with
  | nil => cases h
  | cons u l ih =>
      rw [List.map_cons, List.lookup_cons]
      split
      · rename_i heq
        rw [eq_of_beq heq]
      · rename_i hne
        refine ih ((List.mem_cons.1 h).resolve_left fun heq => ?_)
        rw [heq, beq_self_eq_true] at hne
        cases hne

/-- **What `_on_create_room` lets pass**: nobody who is invited ignores the creator. -/
theorem ignores_of_passed {invites : List Json} (henabled : srv.cfg.enabled = true)
    (hdirect : (config.get "is_direct").truthy = true)
    (hservice : isServiceAccount srv.cfg srv.data creator = false)
    (hinvites : config.get "invite" = .arr invites) (huser : user ∈ strings invites)
    (h : onCreateRoom srv.cfg srv.data creator config = true) :
    ignoresUser srv.cfg srv.data user creator = false := by
  unfold onCreateRoom at h
  rw [henabled, hdirect, hservice, if_neg (by decide), if_neg (by decide)] at h
  unfold blockedInvitees at h
  rw [hdirect, hinvites] at h
  dsimp only at h
  rw [if_neg (by decide), List.isEmpty_iff] at h
  have hnone := List.filter_eq_nil_iff.1 h user huser
  rw [lookup_map huser] at hnone
  simpa using hnone

/-- Somebody the identity server knows is never invited directly. -/
theorem allowed_3pid {v : Json} (h : event3pid srv creator v = some event) :
    checkEventAllowed srv.cfg srv.data event state = true := by
  unfold event3pid at h
  split at h
  · split at h
    · obtain rfl := Option.some.inj h
      by_contra hrejected
      have hdirect := (rejected_member rfl (by simpa using hrejected)).2.1
      unfold inviteEvent at hdirect
      rw [isDirect_memberContent] at hdirect
      exact absurd hdirect (by decide)
    · obtain rfl := Option.some.inj h
      set event : Event := ⟨[], "m.room.third_party_invite", srv.newRoom, creator, some [], _, none⟩
      have hother : isBlockableEventType event.type event.content = false := by
        rw [isBlockableEventType,
          if_neg (show py "m.room.third_party_invite" ∉ blockableMessageTypes by decide),
          if_pos (show py "m.room.third_party_invite" ≠ memberEventType by decide)]
      rw [checkEventAllowed, hother]
      exact ite_self true
  · cases h

/-- **No invite of a request that was let pass is rejected**, in whichever state. -/
theorem allowed_of_passed (hlist : ∀ v, Dict.get? config "invite" = some v → ∃ l, v = .arr l)
    (h : onCreateRoom srv.cfg srv.data creator config = true)
    (he : some event ∈ requested srv creator config) :
    checkEventAllowed srv.cfg srv.data event state = true := by
  rcases List.mem_append.1 he with hinvite | h3pid
  · obtain ⟨user, huser, heq⟩ := List.mem_map.1 hinvite
    obtain rfl := Option.some.inj heq
    by_contra hrejected
    obtain ⟨henabled, hdirect, hservice, target, htarget, hignores⟩ :=
      rejected_member rfl (by simpa using hrejected)
    obtain rfl := Option.some.inj htarget
    have htruthy : (config.get "is_direct").truthy = true := by
      unfold inviteEvent at hdirect
      rw [isDirect_memberContent, inviteContent] at hdirect
      split at hdirect
      · assumption
      · cases hdirect
    cases hinvites : Dict.get? config "invite" with
    | none =>
        rw [listOf, hinvites] at huser
        cases huser
    | some v =>
        obtain ⟨invites, rfl⟩ := hlist v hinvites
        have hget : config.get "invite" = .arr invites := by
          rw [Dict.get, hinvites]
          rfl
        rw [listOf, hinvites] at huser
        rw [ignores_of_passed henabled htruthy hservice hget huser h] at hignores
        cases hignores
  · obtain ⟨v, -, hv⟩ := List.mem_map.1 h3pid
    exact allowed_3pid hv

/-- Invites of which none is rejected leave no half-made room behind, as far as this gate goes. -/
theorem sendInvites_ne {sent : List Event} {events : List (Option Event)}
    (h : ∀ event state, some event ∈ events →
      checkEventAllowed srv.cfg srv.data event state = true) (sent' : List Event) :
    sendInvites srv creator config sent events ≠ .halfCreated sent' true := by
  induction events generalizing sent with
  | nil => exact nofun
  | cons event events ih =>
      have hrest := fun e s he => h e s (List.mem_cons_of_mem _ he)
      cases event with
      | none => simp [sendInvites]
      | some event =>
          rw [sendInvites]
          split
          · simp
          · rw [h event _ List.mem_cons_self, if_neg (by decide)]
            exact ih hrest

end Gates

/-- **The gate at the creation agrees with the gate of the invites.**  For every request whose
`invite` is missing or a list: when `_on_create_room` lets it pass, `_check_event_allowed` rejects
none of its invites, in whichever state of the room; no request ends with a room in which it has
rejected one; and where it would reject one, the request is refused before there is a room. -/
theorem creation_gates_agree (srv : Server) (creator : UserId) (config : Dict)
    (hlist : ∀ v, Dict.get? config "invite" = some v → ∃ l, v = .arr l) :
    (onCreateRoom srv.cfg srv.data creator config = true →
        ∀ event state, some event ∈ requested srv creator config →
          checkEventAllowed srv.cfg srv.data event state = true) ∧
      (∀ sent, createRoom srv creator config ≠ .halfCreated sent true) ∧
      (∀ event state, some event ∈ requested srv creator config →
        checkEventAllowed srv.cfg srv.data event state = false →
          createRoom srv creator config = .refused) := by
  refine ⟨fun h event state he => allowed_of_passed hlist h he, fun sent => ?_,
    fun event state he hrejected => ?_⟩
  · unfold createRoom
    split
    · simp
    · rename_i hpassed
      split
      · split
        · simp
        · split
          · simp
          · split
            · simp
            · exact sendInvites_ne (fun event state he =>
                allowed_of_passed hlist (by simpa using hpassed) he) sent
      · simp
  · unfold createRoom
    rw [if_pos]
    rw [Bool.not_eq_true']
    by_contra hpassed
    rw [allowed_of_passed hlist (by simpa using hpassed) he] at hrejected
    cases hrejected

/-- A server on which Bob ignores Alice. -/
def bobIgnoresAlice : Server where
  cfg := ⟨"h", true, [py "liza"]⟩
  data := fun user dataType =>
    if user = py "@bob:h" && dataType = py "m.ignored_user_list" then
      some [("ignored_users", .obj [("@alice:h", .obj [])])]
    else none
  shadowBanned := fun _ => false
  isGuest := fun _ => false
  validServerName := fun _ => true
  refuses := fun _ _ => false
  newRoom := "!new:h"
  displayname := fun _ => none
  avatarUrl := fun _ => none
  lookup3pid := fun _ => none
  content3pid := fun _ => []
  state := fun _ _ _ => []
  fails := fun _ => false

/-- Alice asks for a personal chat with Bob. -/
theorem creation_gates_agree_bob :
    createRoom bobIgnoresAlice "@alice:h"
      [("is_direct", .bool true), ("invite", .arr [.str "@bob:h"])] = .refused := by
  refine (creation_gates_agree bobIgnoresAlice "@alice:h"
    [("is_direct", .bool true), ("invite", .arr [.str "@bob:h"])] ?_).2.2
      (inviteEvent bobIgnoresAlice "@alice:h" "@bob:h" [("is_direct", .bool true)]) []
        List.mem_cons_self (by decide)
  intro v hv
  exact ⟨_, (Option.some.inj hv).symm⟩

/-- Where `invite` is an object, the room is there when the invite of its key is rejected. -/
theorem object_of_invites :
    createRoom bobIgnoresAlice "@alice:h"
      [("is_direct", .bool true), ("invite", .obj [("@bob:h", .null)])] = .halfCreated [] true := by
  rfl

end BlockGuard
end Liza
