/-
# Who gives a role

The role of a user is account data of that user, and other modules trust it.  It is
written by the callback for a new user, by the request of a server admin, and by the
user himself through the servlet for account data.  Apart from the last, nobody holds a
role that was not given to him.
-/

import Liza.UserRoles.Specs

set_option autoImplicit false

namespace Liza
namespace UserRoles

open Lib Synapse
open Lib.Task (Only Obeys)

/-- A request by which a user writes account data of the type of roles. -/
def Request.writesOwnRole (requester : UserId) : Request → Bool
  | .putAccountData user type _ => user = requester ∧ type = accountDataType
  | .deleteAccountData user type => user = requester ∧ type = accountDataType
  | _ => false

/-- The operation of a job that may change the role of a user: the callback for that user
writes the default role; a server admin has asked for the role that is written; or the
user writes account data of his own. -/
inductive Grants (cfg : Config) (admins : UserId → Bool) (user : UserId) : Job → Op → Prop
  | registered {content : Dict} (h : content.get "role" = .str cfg.defaultRole) :
      Grants cfg admins user (.registered user) (.putGlobal user content)
  | admin {requester : UserId} {body content : Dict} (ha : admins requester = true)
      (h : content.get "role" = body.get "role") :
      Grants cfg admins user (.request requester (.putRole user (.obj body)))
        (.putGlobal user content)
  | own {rq : Request} {op : Op} (h : rq.writesOwnRole user = true) :
      Grants cfg admins user (.request user rq) op

/-- **A job changes a role only as it may.** -/
theorem code_gives (cfg : Config) (admins : UserId → Bool) (job : Job) :
    Gives admins (fun op => op.writes = none ∨ ∃ user, op.writes = some user ∧
      Grants cfg admins user job op) (code cfg job) := by
  cases job with
  | registered user =>
      refine Only.orElse ((gives_enrich _).bind fun row => Only.call (.inr (.inr ⟨user, rfl, ?_⟩)))
        (.ret _)
      cases row with
      | none => exact .registered rfl
      | some row => exact .registered rfl
  | request requester rq =>
      refine Only.bind ?_ fun r => Only.call (.inr (.inl rfl))
      cases rq with
      | putAccountData user type body =>
          simp only [handler, onPutAccountData]
          split
          · exact .ret _
          · rename_i hown
            obtain rfl : user = requester := of_not_not hown
            have hgrant : type = accountDataType → ∀ op : Op, op.writes = some user →
                ∃ u, op.writes = some u ∧ Grants cfg admins u
                  (.request user (.putAccountData user type body)) op := by
              intro htype op hop
              exact ⟨user, hop, .own (by simp [Request.writesOwnRole, htype])⟩
            split
            · exact .ret _
            · split
              · exact gives_writeAccountData fun htype => .inr (hgrant htype _ rfl)
              · exact gives_writeAccountData fun htype => .inr (hgrant htype _ rfl)
      | deleteAccountData user type =>
          simp only [handler, onDeleteAccountData]
          split
          · exact .ret _
          · split
            · exact .ret _
            · rename_i hown
              obtain rfl : user = requester := of_not_not hown
              split
              · exact .ret _
              · refine gives_writeAccountData fun htype => .inr ⟨user, rfl, .own ?_⟩
                simp [Request.writesOwnRole, htype]
      | getRole user v2 => exact gives_getRole user v2
      | putRole user body =>
          refine gives_requireAdmin fun hadmin h => (setRole_obeys user body h).imp ?_
          rintro h' op (hquiet | ⟨b, content, rfl, rfl, hrole, -⟩)
          · exact .inl hquiet
          · exact .inr (.inr ⟨user, rfl, .admin hadmin hrole⟩)
      | createRole body => exact gives_requireAdmin fun _ => gives_create body
      | updateRole c body => exact gives_requireAdmin fun _ => gives_update c body
      | removeRole c => exact gives_requireAdmin fun _ => gives_remove c (.inl rfl)

/-! ### Over a run -/

section Run

variable {cfg : Config} {admins : UserId → Bool} {w : World} {s t : State} {as : List Act}
  {user : UserId}

/-- The event that a job goes back to. -/
def jobEvent : Job → Ev
  | .request requester rq => .request requester rq
  | .registered user => .registration user

/-- The law of the roles. -/
def roleLaw (cfg : Config) (admins : UserId → Bool) : System.Law World Ev Job Op Res where
  I := fun w => w.admins = admins
  J := fun es o job => es[o]? = some (jobEvent job)
  A := Answers admins
  P := fun job _ op => op.writes = none ∨ ∃ user, op.writes = some user ∧
    Grants cfg admins user job op

theorem roleLaw_keeps (cfg : Config) (admins : UserId → Bool) :
    (system cfg).Keeps (fun _ _ => True) (roleLaw cfg admins) where
  code := by
    intro _ _ job _
    refine (code_gives cfg admins job []).imp fun h op hop => ?_
    rcases hop with hquiet | hop
    · exact .inl (Op.writes_of_quiet hquiet)
    · exact hop
  later := by
    intro es o job e hjob ho
    show (es ++ [e])[o]? = _
    rw [List.getElem?_append_left ho]
    exact hjob
  event := by
    intro s e hw _
    cases e with
    | request requester rq =>
        refine ⟨hw, fun j hj => ?_⟩
        obtain rfl := List.mem_singleton.1 hj
        show (s.events ++ _)[s.events.length]? = _
        rw [List.getElem?_concat_length]
        rfl
    | registration u =>
        simp only [system, arrive]
        split
        · exact ⟨hw, by simp⟩
        · refine ⟨hw, fun j hj => ?_⟩
          obtain rfl := List.mem_singleton.1 hj
          show (s.events ++ _)[s.events.length]? = _
          rw [List.getElem?_concat_length]
          rfl
  op := by
    intro s i c o j op k hs _ _ _
    refine ⟨?_, answers_perform hs.world op c, by simp [system]⟩
    show (perform s.world op c).1.admins = admins
    rw [perform_admins]
    exact hs.world

/-- A change of a role is made by an operation that may make it. -/
theorem change_granted (hs : System.Lawful (roleLaw cfg admins) s) {a : Act}
    (h : (system cfg).step s a = some t)
    (hne : t.world.data user ≠ s.world.data user) :
    ∃ i raises o job op k, a = .step i raises ∧ s.threads[i]? = some ⟨o, job, .await op k⟩ ∧
      t.world = (perform s.world op raises).1 ∧ Grants cfg admins user job op := by
  rcases System.step_cases h with ⟨e, rfl, rfl⟩ | ⟨i, raises, o, job, op, k, rfl, hi, rfl⟩
  · exfalso
    apply hne
    cases e with
    | request requester rq => rfl
    | registration u =>
        simp only [system, arrive]
        split <;> rfl
  · refine ⟨i, raises, o, job, op, k, rfl, hi, rfl, ?_⟩
    rcases (hs.threads i _ hi).1 with hnone | ⟨u, hu, hgrant⟩
    · exact absurd (perform_data s.world raises (by rw [hnone]; simp)) hne
    · by_cases hw : op.writes = some user
      · obtain rfl := Option.some.inj (hu.symm.trans hw)
        exact hgrant
      · exact absurd (perform_data s.world raises hw) hne

/-- A user writes account data of the type of roles of his own. -/
def WritesOwnRole (user : UserId) : Ev → Prop
  | .request requester rq => requester = user ∧ rq.writesOwnRole user = true
  | .registration _ => False

instance (user : UserId) : (e : Ev) → Decidable (WritesOwnRole user e)
  | .request requester rq =>
      inferInstanceAs (Decidable (requester = user ∧ rq.writesOwnRole user = true))
  | .registration _ => .isFalse fun h => h

/-- The role was given to a user: as the default role of a new user, or by a server
admin. -/
def Given (cfg : Config) (w : World) (events : List Ev) (user : UserId) (role : Json) : Prop :=
  (.str cfg.defaultRole = role ∧ .registration user ∈ events) ∨
    ∃ requester body, w.admins requester = true ∧
      .request requester (.putRole user (.obj body)) ∈ events ∧ Dict.get body "role" = role

theorem Given.mono {events events' : List Ev} {role : Json} (h : Given cfg w events user role)
    (hsub : events ⊆ events') : Given cfg w events' user role := by
  rcases h with ⟨hrole, hmem⟩ | ⟨requester, body, ha, hmem, hrole⟩
  · exact .inl ⟨hrole, hsub hmem⟩
  · exact .inr ⟨requester, body, ha, hsub hmem, hrole⟩

/-- Where the user has not written it himself, his role is the first one or was given. -/
def Sourced (cfg : Config) (w : World) (user : UserId) (s : State) : Prop :=
  (∀ e ∈ s.events, ¬WritesOwnRole user e) →
    storedRole (s.world.data user) = storedRole (w.data user) ∨
      Given cfg w s.events user (storedRole (s.world.data user))

theorem sourced_step (hs : System.Lawful (roleLaw cfg w.admins) s) (hv : Sourced cfg w user s)
    {a : Act} (h : (system cfg).step s a = some t) : Sourced cfg w user t := by
  intro hown
  have hsub : s.events ⊆ t.events := by
    rcases System.step_cases h with ⟨e, rfl, rfl⟩ | ⟨i, c, o, j, op, k, rfl, -, rfl⟩
    · exact List.subset_append_left _ _
    · exact fun e he => he
  have hold := hv fun e he => hown e (hsub he)
  by_cases hne : t.world.data user = s.world.data user
  · rw [hne]
    exact hold.imp id fun hg => hg.mono hsub
  obtain ⟨i, raises, o, job, op, k, rfl, hi, ht, hgrant⟩ := change_granted hs h hne
  have hjob := (hs.jobs _ (List.mem_of_getElem? hi)).2
  have hev : jobEvent job ∈ t.events := hsub (List.mem_of_getElem? hjob)
  have hwritten : ∀ content, op = .putGlobal user content → t.world.data user = some content := by
    rintro content rfl
    rcases perform_putGlobal s.world content raises with hsame | hnew
    · rw [ht] at hne
      exact absurd hsame hne
    · rw [ht]
      exact hnew
  cases hgrant with
  | registered hrole =>
      refine .inr (.inl ⟨?_, hev⟩)
      rw [hwritten _ rfl]
      exact hrole.symm
  | admin ha hrole =>
      refine .inr (.inr ⟨_, _, ha, hev, ?_⟩)
      rw [hwritten _ rfl]
      exact hrole.symm
  | own hrq => exact absurd ⟨rfl, hrq⟩ (hown _ hev)

theorem sourced_run (user : UserId)
    (h : Exec (system cfg).step (fun _ _ => True) (start w) as s) :
    System.Lawful (roleLaw cfg w.admins) s ∧ Sourced cfg w user s := by
  refine h.invariant (I := fun s => System.Lawful (roleLaw cfg w.admins) s ∧ Sourced cfg w user s)
    ⟨System.lawful_start rfl, fun _ => .inl rfl⟩ ?_
  rintro s a t ⟨hs, hv⟩ _ hstep
  exact ⟨(roleLaw_keeps cfg w.admins).lawful_step hs trivial hstep, sourced_step hs hv hstep⟩

/-- **Roles are given, not taken.**  In every run of requests and registrations, a step
that changes the stored role of a user is the write of the default role by the callback
for that new user, the write of a role that a server admin has asked for, or the user's
own write of that account data.  And where the user has not made such a write, he has the
role `admin`, or passes the gate of channels with `admin` or `moderator`, only if he did
at the start or was given that role. -/
theorem role_is_given (h : Exec (system cfg).step (fun _ _ => True) (start w) as s)
    (user : UserId) :
    (∀ a t, (system cfg).step s a = some t →
      storedRole (t.world.data user) ≠ storedRole (s.world.data user) →
      ∃ i raises o job op k, a = .step i raises ∧ s.threads[i]? = some ⟨o, job, .await op k⟩ ∧
        Grants cfg w.admins user job op) ∧
    ((∀ e ∈ s.events, ¬WritesOwnRole user e) →
      (s.world.hasAdminRole user = true →
        w.hasAdminRole user = true ∨ Given cfg w s.events user (.str "admin")) ∧
      (s.world.mayCreateChannel user = true →
        w.mayCreateChannel user = true ∨ Given cfg w s.events user (.str "admin") ∨
          Given cfg w s.events user (.str "moderator"))) := by
  obtain ⟨hs, hv⟩ := sourced_run user h
  refine ⟨fun a t hstep hne => ?_, fun hown => ⟨fun hadmin => ?_, fun hgate => ?_⟩⟩
  · have hdata : t.world.data user ≠ s.world.data user := fun heq => hne (by rw [heq])
    obtain ⟨i, raises, o, job, op, k, ha, hi, -, hgrant⟩ := change_granted hs hstep hdata
    exact ⟨i, raises, o, job, op, k, ha, hi, hgrant⟩
  · have hrole : storedRole (s.world.data user) = .str "admin" := of_decide_eq_true hadmin
    rcases hv hown with hsame | hgiven
    · refine .inl (decide_eq_true ?_)
      rw [← hsame, hrole]
    · rw [hrole] at hgiven
      exact .inr hgiven
  · rcases hv hown with hsame | hgiven
    · refine .inl (decide_eq_true ?_)
      have hmem : s.world.channelRole user ∈ rolesAllowedToCreate := of_decide_eq_true hgate
      unfold World.channelRole at hmem ⊢
      rwa [← hsame]
    · refine .inr ?_
      have hmem : s.world.channelRole user ∈ rolesAllowedToCreate := of_decide_eq_true hgate
      unfold World.channelRole at hmem
      split at hmem
      · simp only [rolesAllowedToCreate, List.mem_cons, List.not_mem_nil, or_false] at hmem
        rcases hmem with hrole | hrole
        · rw [hrole] at hgiven
          exact .inl hgiven
        · rw [hrole] at hgiven
          exact .inr hgiven
      · simp [rolesAllowedToCreate, defaultRole] at hmem

end Run

/-! ### A moderator -/

/-- A server with one server admin and one other user, and with no role stored. -/
def staffed : World where
  users := ["@root:h", "@bob:h"]
  lower := id
  admins := fun user => user = py "@root:h"
  roleData := []
  catalog := [⟨"admin", "Admin", none⟩, ⟨"moderator", "Moderator", none⟩, ⟨"user", "User", none⟩]
  cache := []
  peers := fun _ => []

/-- The server admin makes the other user a moderator. -/
def promotion : List Act :=
  .event (.request "@root:h" (.putRole "@bob:h" (.obj [("role", .str "moderator")]))) ::
    List.replicate 8 (.step 0 false)

/-- The event asks for a role for a user. -/
def Ev.asksFor (user : UserId) (role : Json) : Ev → Bool
  | .request _ (.putRole u (.obj body)) => u = user ∧ Dict.get body "role" = role
  | _ => false

/-- **The gate of channels is open to moderators.**  A user who is no server admin, and to
whom nobody has given the role `admin`, passes it. -/
theorem moderator_passes_gate : ∃ s, Exec (system ⟨"user", false⟩).step (fun _ _ => True)
    (start staffed) promotion s ∧ s.world.mayCreateChannel "@bob:h" = true ∧
      s.world.admins "@bob:h" = false ∧
      ∀ e ∈ s.events, e.asksFor "@bob:h" (.str "admin") = false :=
  exists_exec_of_runs (f := (system ⟨"user", false⟩).step) (C := fun _ _ => True)
    (s := start staffed) (l := promotion) (by decide +kernel)

/-- On that run the gate is open because of a role that was given. -/
theorem moderator_is_given : ∃ s, Exec (system ⟨"user", false⟩).step (fun _ _ => True)
    (start staffed) promotion s ∧ s.world.mayCreateChannel "@bob:h" = true ∧
      (Given ⟨"user", false⟩ staffed s.events "@bob:h" (.str "admin") ∨
        Given ⟨"user", false⟩ staffed s.events "@bob:h" (.str "moderator")) := by
  obtain ⟨s, hs, hown, hgate⟩ := exists_exec_of_runs (f := (system ⟨"user", false⟩).step)
    (C := fun _ _ => True) (s := start staffed) (l := promotion)
    (p := fun s => (∀ e ∈ s.events, ¬WritesOwnRole "@bob:h" e) ∧
      s.world.mayCreateChannel "@bob:h" = true) (by decide +kernel)
  refine ⟨s, hs, hgate, ?_⟩
  rcases ((role_is_given hs "@bob:h").2 hown).2 hgate with hfirst | hgiven
  · exact absurd hfirst (by decide)
  · exact hgiven

end UserRoles
end Liza
