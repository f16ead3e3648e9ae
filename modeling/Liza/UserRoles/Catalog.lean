/-
# The roles that are stored and the catalog

A role that a user has should be in the catalog.  `set` stores only codes that it has seen
in the cache or among the roles of the user, and `remove` takes a code away only after it
has found nobody who has it.  Between what a request has seen and what it then does other
requests run, and `remove` looks for main roles only; so the roles stay in the catalog in
the runs in which neither matters.
-/

import Liza.UserRoles.Specs
import Liza.Lib.Since

set_option autoImplicit false

namespace Liza
namespace UserRoles

open Lib Synapse
open Lib.Task (Only Obeys)

/-- Some user has the code, as the main role or as an extra role. -/
def World.Bears (w : World) (c : PyStr) : Prop := ∃ user d, w.data user = some d ∧ c ∈ codes d

/-- Some user has the code as the main role. -/
def World.borneMain (w : World) (c : PyStr) : Bool :=
  w.roleData.any fun e => storedRole (w.data e.1) = .str c

/-- Some user has the code as an extra role. -/
def World.borneExtra (w : World) (c : PyStr) : Bool :=
  w.roleData.any fun e => c ∈ storedExtraRoles (w.data e.1)

/-- Every role that is stored is in the catalog, whose rows meet their constraints. -/
structure World.Integral (w : World) : Prop where
  stored : ∀ c, w.Bears c → w.has c = true
  table : ∀ r ∈ w.catalog, r.wellFormed = true

/-! ### Who is found -/

section Found

variable {w : World} {user : UserId} {d : Dict} {c : PyStr}

/-- What is stored for a user stands in the table. -/
theorem mem_roleData (h : w.data user = some d) : (user, Json.obj d) ∈ w.roleData := by
  unfold World.data at h
  split at h
  · rename_i d' hget
    obtain rfl := Option.some.inj h
    exact Dict.mem_of_get? hget
  · cases h

/-- A user with the code has it as the main role or as an extra role. -/
theorem mem_codes : c ∈ codes d ↔ storedRole (some d) = .str c ∨ c ∈ storedExtraRoles (some d) := by
  have hrole : storedRole (some d) = d.get "role" := rfl
  unfold codes
  rw [hrole]
  split
  · rename_i c' hc'
    rw [List.mem_cons, hc', Json.str.injEq]
    exact or_congr_left eq_comm
  · rename_i hno
    constructor
    · exact .inr
    · rintro (hc | hc)
      · exact absurd hc (hno c)
      · exact hc

/-- Who has the code has it as the main role or as an extra role. -/
theorem World.Bears.cases (h : w.Bears c) : w.borneMain c = true ∨ w.borneExtra c = true := by
  obtain ⟨user, d, hd, hc⟩ := h
  rcases mem_codes.1 hc with hmain | hextra
  · refine .inl (List.any_eq_true.2 ⟨_, mem_roleData hd, decide_eq_true ?_⟩)
    rw [hd]
    exact hmain
  · refine .inr (List.any_eq_true.2 ⟨_, mem_roleData hd, decide_eq_true ?_⟩)
    rw [hd]
    exact hextra

/-- The code of a row needs no escapes in JSON. -/
theorem isPlain_of_isCode (h : isCode c = true) : c.all isPlain = true := by
  simp only [isCode, decide_eq_true_eq] at h
  have hall := h.2.2
  rw [List.all_eq_true] at hall ⊢
  intro x hx
  have hx := hall x hx
  simp only [decide_eq_true_eq] at hx
  simp only [isPlain, decide_eq_true_eq]
  have ha : (codePoint 'a').val = 97 := by decide
  have hz : (codePoint 'z').val = 122 := by decide
  have h0 : (codePoint '0').val = 48 := by decide
  have h9 : (codePoint '9').val = 57 := by decide
  have hu : (codePoint '_').val = 95 := by decide
  have hq : (codePoint '"').val = 34 := by decide
  have hb : (codePoint '\\').val = 92 := by decide
  simp only [Fin.le_def, Fin.ext_iff, ne_eq] at hx ⊢
  omega

/-- **Who has the code as the main role is found.** -/
theorem World.Integral.bearers_ne_nil (hw : w.Integral) (h : w.borneMain c = true) :
    w.bearers c ≠ [] := by
  obtain ⟨e, he, hrole⟩ := List.any_eq_true.1 h
  have hrole : storedRole (w.data e.1) = .str c := of_decide_eq_true hrole
  cases hd : w.data e.1 with
  | none =>
      rw [hd] at hrole
      cases hrole
  | some d =>
      rw [hd] at hrole
      have hget : d.get? "role" = some (.str c) := by
        have hget : (d.get? "role").getD .null = .str c := hrole
        cases hv : d.get? "role" with
        | none =>
            rw [hv] at hget
            cases hget
        | some v =>
            rw [hv] at hget
            exact congrArg some hget
      -- The code is in the table, so its text in the content is the marker itself.
      obtain ⟨r, hr, hcode⟩ := List.any_eq_true.1 (hw.stored c ⟨e.1, d, hd, mem_codes.2 (.inl hrole)⟩)
      have hplain : c.all isPlain = true := by
        have hwf := hw.table r hr
        simp only [Role.wellFormed, Bool.and_eq_true] at hwf
        rw [← of_decide_eq_true hcode]
        exact isPlain_of_isCode hwf.1
      have hmarker : itemText "role" (.str c) = roleMarker c := by
        show quote (py "role") ++ py ":" ++ quote c = _
        rw [quote_of_plain hplain, quote_of_plain (by decide), roleMarker]
        rfl
      have hinfix : roleMarker c <:+: (Json.obj d).compact := hmarker ▸ item_infix_compact hget
      have hmem : e.1 ∈ w.bearers c :=
        List.mem_map.2 ⟨_, List.mem_filter.2 ⟨mem_roleData hd, decide_eq_true hinfix⟩, rfl⟩
      exact List.ne_nil_of_mem hmem

end Found

/-! ### What a run should keep to -/

/-- An entry of the log. -/
abbrev LogEntry := Entry World Job Op Res

/-- The request is one to remove a role. -/
def Job.removes : Job → Bool
  | .request _ (.removeRole _) => true
  | _ => false

/-- A row was deleted. -/
def deletes (c : PyStr) (e : LogEntry) : Bool :=
  match e.done with
  | ⟨.deleteRole c', some _⟩ => c' = c
  | _ => false

/-- A role was stored with the code among its codes. -/
def stores (c : PyStr) (e : LogEntry) : Bool :=
  match e.done with
  | ⟨.putGlobal _ content, some _⟩ => c ∈ codes content
  | _ => false

/-- The thread has found the code in the cache. -/
def finds (i : ℕ) (c : PyStr) (e : LogEntry) : Bool :=
  e.thread = i && match e.done with
  | ⟨.cached c', some (some (some _))⟩ => c' = c
  | _ => false

/-- The thread has read the code among the extra roles of a user. -/
def reads (i : ℕ) (user : UserId) (c : PyStr) (e : LogEntry) : Bool :=
  e.thread = i && match e.done with
  | ⟨.getGlobal u, some (some d)⟩ => u = user && c ∈ storedExtraRoles (some d)
  | _ => false

/-- A request to remove the code has found nobody who has it. -/
def clears (i : ℕ) (c : PyStr) (e : LogEntry) : Bool :=
  e.thread = i && e.job.removes && match e.done with
  | ⟨.usersWithRole c', some []⟩ => c' = c
  | _ => false

/-- The thread saw the code in the catalog or among the roles of the user. -/
def sees (i : ℕ) (user : UserId) (c : PyStr) (e : LogEntry) : Bool :=
  (finds i c e && e.before.has c) || reads i user c e

/-- The code was deleted, or the thread found it in a cache that was out of date. -/
def outdates (i : ℕ) (c : PyStr) (e : LogEntry) : Bool :=
  deletes c e || (finds i c e && !e.before.has c)

/-- The operation of a thread is in order: when `remove` looks for users with the code,
nobody has it as an extra role only; when it deletes the code, the code was not stored
since it looked; and when a role is stored, its codes were in the catalog when the
request last looked them up, and were not deleted since. -/
def inOrder (s : State) (i : ℕ) (job : Job) : Op → Bool
  | .usersWithRole c => !job.removes || !s.world.borneExtra c || s.world.borneMain c
  | .deleteRole c => Unspoiled (clears i c) (stores c) s.log
  | .putGlobal user content => (codes content).all fun c =>
      Unspoiled (sees i user c) (outdates i c) s.log
  | _ => true

/-- A request for a role or for the catalog. -/
def Request.forRoles : Request → Bool
  | .putAccountData _ _ _ => false
  | .deleteAccountData _ _ => false
  | _ => true

/-- The runs that are considered: requests for roles and for the catalog arrive, and
every operation is in order. -/
def Orderly (s : State) : Act → Bool
  | .event (.request _ rq) => rq.forRoles
  | .event (.registration _) => false
  | .step i _ =>
      match s.threads[i]? with
      | some ⟨_, job, .await op _⟩ => inOrder s i job op
      | _ => true

/-! ### What each request may do -/

section Code

variable {cfg : Config} {admins : UserId → Bool}

/-- What a job may do after its past: a role is stored with codes that were seen; a row is
deleted after nobody was found; and where somebody was found, `remove` answers 409. -/
def Allowed (job : Job) (h : List (Done Op Res)) (op : Op) : Prop :=
  op.quiet = true ∨
    (∃ requester user body, job = .request requester (.putRole user body) ∧
      MaySet user body h op) ∨
    (∃ requester c, job = .request requester (.removeRole c) ∧ op = .deleteRole c ∧
      ⟨.usersWithRole c, some []⟩ ∈ h) ∨
    ∃ response, op = .respond response ∧
      ∀ requester c, job = .request requester (.removeRole c) →
        ∀ ans, ⟨.usersWithRole c, ans⟩ ∈ h → ans ≠ some [] → response.1 = 409

/-- A quiet handler. -/
theorem Gives.allowed {job : Job} {t : Code Response} (hjob : job.removes = false)
    (ht : Gives admins (fun _ => False) t) :
    Obeys (Answers admins) (Allowed job) (fun _ _ => True) [] (t >>= fun r => call (.respond r)) := by
  refine Obeys.bind (Q := fun _ _ => True) ((ht []).imp fun _ op hop => ?_) (fun h r _ => ?_)
    fun _ _ => trivial
  · exact .inl (hop.resolve_right id)
  · refine Obeys.call (.inr (.inr (.inr ⟨r, rfl, ?_⟩))) fun _ _ => trivial
    rintro requester c rfl
    cases hjob

/-- `remove` deletes after nobody was found, and answers 409 otherwise. -/
theorem remove_obeys (requester : UserId) (c : PyStr) :
    Obeys (Answers admins) (Allowed (.request requester (.removeRole c))) (fun _ _ => True) []
      (requireAdmin requester (remove c) >>= fun r => call (.respond r)) := by
  refine Obeys.bind (Q := fun h r => ∀ response, r = some response →
    ∀ ans, ⟨.usersWithRole c, ans⟩ ∈ h → ans ≠ some [] → response.1 = 409) ?_ (fun h r hr => ?_)
    fun _ _ => trivial
  · refine ⟨.inl rfl, fun isAdmin _ => ?_⟩
    match isAdmin with
    | none => exact fun response hr => by cases hr
    | some false =>
        intro response _ ans hmem
        simp at hmem
    | some true =>
        refine ⟨.inl rfl, fun bearers _ => ?_⟩
        match bearers with
        | none => exact fun response hr => by cases hr
        | some (b :: bs) =>
            intro response hr ans _ _
            obtain rfl := Option.some.inj hr
            rfl
        | some [] =>
            -- From here on the only look for users has found none.
            have hquiet : ∀ (h : List (Done Op Res)), (∀ ans, ⟨.usersWithRole c, ans⟩ ∈ h →
                ans = some []) → ∀ r : Option Response, ∀ response, r = some response →
                  ∀ ans, ⟨.usersWithRole c, ans⟩ ∈ h → ans ≠ some [] → response.1 = 409 := by
              intro h hall r response _ ans hmem hne
              exact absurd (hall ans hmem) hne
            refine ⟨.inr (.inr (.inl ⟨requester, c, rfl, rfl, List.mem_cons_self⟩)),
              fun deleted _ => ?_⟩
            match deleted with
            | none => exact fun response hr => by cases hr
            | some false => exact hquiet _ (by simp) _
            | some true =>
                refine ⟨.inl rfl, fun rows _ => ?_⟩
                match rows with
                | none => exact fun response hr => by cases hr
                | some rows =>
                    refine ⟨.inl rfl, fun done _ => ?_⟩
                    match done with
                    | none => exact fun response hr => by cases hr
                    | some () => exact hquiet _ (by simp) _
  · refine Obeys.call (.inr (.inr (.inr ⟨r, rfl, ?_⟩))) fun _ _ => trivial
    intro requester' c' hjob ans hmem
    cases hjob
    exact hr r rfl ans hmem

/-- **Every request does what it may.** -/
theorem code_allowed (requester : UserId) (rq : Request) (hrq : rq.forRoles = true) :
    Obeys (Answers admins) (Allowed (.request requester rq)) (fun _ _ => True) []
      (code cfg (.request requester rq)) := by
  cases rq with
  | putAccountData user type body => cases hrq
  | deleteAccountData user type => cases hrq
  | getRole user v2 => exact Gives.allowed rfl (gives_getRole user v2)
  | createRole body => exact Gives.allowed rfl (gives_requireAdmin fun _ => gives_create body)
  | updateRole c body => exact Gives.allowed rfl (gives_requireAdmin fun _ => gives_update c body)
  | removeRole c => exact remove_obeys requester c
  | putRole user body =>
      refine Obeys.bind (Q := fun _ _ => True) ?_ (fun h r _ => ?_) fun _ _ => trivial
      · refine ⟨.inl rfl, fun isAdmin _ => ?_⟩
        match isAdmin with
        | none => exact trivial
        | some false => exact trivial
        | some true =>
            exact (setRole_obeys user body _).imp fun _ _ hop =>
              .inr (.inl ⟨requester, user, body, rfl, hop⟩)
      · refine Obeys.call (.inr (.inr (.inr ⟨r, rfl, ?_⟩))) fun _ _ => trivial
        intro requester' c hjob
        cases hjob

end Code

/-! ### Over a run -/

section Run

variable {cfg : Config} {admins : UserId → Bool} {w : World} {s t : State} {as : List Act}
  {c : PyStr} {i o : ℕ} {job : Job} {op : Op} {raises : Bool} {h : List (Done Op Res)}

/-- The entry of an operation. -/
def entry (i o : ℕ) (job : Job) (w : World) (op : Op) (raises : Bool) : LogEntry :=
  ⟨i, o, job, w, ⟨op, (perform w op raises).2⟩⟩

/-- A code that is not deleted stays in the table. -/
theorem has_perform (hc : w.has c = true) (hno : deletes c (entry i o job w op raises) = false) :
    (perform w op raises).1.has c = true := by
  cases raises with
  | true => exact hc
  | false =>
      obtain ⟨r, hr, hcode⟩ := List.any_eq_true.1 hc
      have hcode : r.code = c := of_decide_eq_true hcode
      cases op with
      | putGlobal u content =>
          simp only [perform_ok, complete]
          split <;> exact hc
      | removeAccountData u =>
          simp only [perform_ok, complete]
          split <;> exact hc
      | insertRole role =>
          simp only [perform_ok, complete]
          split
          · exact List.any_eq_true.2 ⟨r, List.mem_append_left _ hr, decide_eq_true hcode⟩
          · exact hc
      | patchRole c' displayName color clearColor =>
          have hpatched : (patchedCatalog w.catalog c' displayName color clearColor).any
              (fun r => r.code = c) = true := by
            refine List.any_eq_true.2 ⟨_, List.mem_map.2 ⟨r, hr, rfl⟩, decide_eq_true ?_⟩
            split <;> exact hcode
          simp only [perform_ok, complete]
          split
          · split
            · exact hpatched
            · exact hc
          · exact hc
      | deleteRole c' =>
          have hne : c' ≠ c := of_decide_eq_false hno
          refine List.any_eq_true.2 ⟨r, List.mem_filter.2 ⟨hr, decide_eq_true ?_⟩, decide_eq_true hcode⟩
          rw [hcode]
          exact hne.symm
      | _ => exact hc

/-- The rows keep to their constraints. -/
theorem table_perform (hw : ∀ r ∈ w.catalog, r.wellFormed = true) :
    ∀ r ∈ (perform w op raises).1.catalog, r.wellFormed = true := by
  cases raises with
  | true => exact hw
  | false =>
      cases op with
      | putGlobal u content =>
          simp only [perform_ok, complete]
          split <;> exact hw
      | removeAccountData u =>
          simp only [perform_ok, complete]
          split <;> exact hw
      | insertRole role =>
          simp only [perform_ok, complete]
          split
          · rename_i hrole
            intro r hr
            rcases List.mem_append.1 hr with hr | hr
            · exact hw r hr
            · obtain rfl := List.mem_singleton.1 hr
              exact hrole.1
          · exact hw
      | patchRole c' displayName color clearColor =>
          simp only [perform_ok, complete]
          split
          · split
            · rename_i hall
              exact List.all_eq_true.1 hall
            · exact hw
          · exact hw
      | deleteRole c' => exact fun r hr => hw r (List.mem_filter.1 hr).1
      | _ => exact hw

/-- What writes a role is `set`. -/
theorem Allowed.writes {user : UserId} (hop : Allowed job h op) (hw : op.writes = some user) :
    ∃ content, op = .putGlobal user content ∧ ∀ c ∈ codes content, Vouched user h c := by
  rcases hop with hquiet | ⟨_, _, _, -, hquiet | ⟨_, content, -, rfl, -, hseen⟩⟩ | ⟨_, _, -, rfl, -⟩ |
    ⟨_, rfl, -⟩
  · rw [Op.writes_of_quiet hquiet] at hw
    cases hw
  · rw [Op.writes_of_quiet hquiet] at hw
    cases hw
  · obtain rfl := Option.some.inj hw
    exact ⟨content, rfl, hseen⟩
  · cases hw
  · cases hw

/-- Who has a code after an operation had it before, or it was stored. -/
theorem bears_perform (hop : Allowed job h op) (hb : (perform w op raises).1.Bears c) :
    w.Bears c ∨ stores c (entry i o job w op raises) = true := by
  obtain ⟨user, d, hd, hc⟩ := hb
  by_cases hw : op.writes = some user
  · obtain ⟨content, rfl, -⟩ := hop.writes hw
    cases raises with
    | true => exact .inl ⟨user, d, hd, hc⟩
    | false =>
        simp only [entry, stores, perform_ok, complete] at hd ⊢
        split at hd
        · rename_i hmem
          have hcontent : content = d := by simpa [World.data] using hd
          rw [if_pos hmem, hcontent]
          exact .inr (decide_eq_true hc)
        · exact .inl ⟨user, d, hd, hc⟩
  · rw [perform_data w raises hw] at hd
    exact .inl ⟨user, d, hd, hc⟩

/-- The law of the requests for roles. -/
def catalogLaw (admins : UserId → Bool) : System.Law World Ev Job Op Res where
  I := fun w => w.admins = admins
  J := fun _ _ job => ∃ requester rq, job = .request requester rq ∧ rq.forRoles = true
  A := Answers admins
  P := Allowed

theorem catalogLaw_keeps (cfg : Config) (admins : UserId → Bool) :
    (system cfg).Keeps (fun s a => Orderly s a = true) (catalogLaw admins) where
  code := by
    rintro _ _ _ ⟨requester, rq, rfl, hrq⟩
    exact code_allowed requester rq hrq
  later := fun _ _ _ _ hjob _ => hjob
  event := by
    intro s e hw hc
    cases e with
    | request requester rq =>
        refine ⟨hw, fun j hj => ?_⟩
        obtain rfl := List.mem_singleton.1 hj
        exact ⟨requester, rq, rfl, hc⟩
    | registration u => cases hc
  op := by
    intro s i raises o j op k hs _ _ _
    refine ⟨?_, answers_perform hs.world op raises, by simp [system]⟩
    show (perform s.world op raises).1.admins = admins
    rw [perform_admins]
    exact hs.world

/-- What holds in every state of an orderly run: the roles are in the catalog; a code that
a thread has seen, and that was not outdated since, is in the catalog; a code that `remove`
has found nobody with, and that was not stored since, is nobody's; and so it was whenever a
code was deleted, while `remove` finds who has the code. -/
structure Coherent (s : State) : Prop where
  world : s.world.Integral
  seen : ∀ i user c, (∃ e ∈ s.log, sees i user c e = true ∨ outdates i c e = true) →
    Unspoiled (sees i user c) (outdates i c) s.log = true → s.world.has c = true
  cleared : ∀ i c, (∃ e ∈ s.log, clears i c e = true ∨ stores c e = true) →
    Unspoiled (clears i c) (stores c) s.log = true → ¬s.world.Bears c
  deleted : ∀ e ∈ s.log, ∀ c, deletes c e = true → ¬e.before.Bears c
  found : ∀ e ∈ s.log, ∀ c, e.job.removes = true → e.done = ⟨.usersWithRole c, some []⟩ →
    ¬e.before.Bears c

/-- What a thread has been vouched for stands in the log. -/
theorem exists_sees {user : UserId} (hv : Vouched user (System.past s.log i) c) :
    ∃ e ∈ s.log, sees i user c e = true ∨ outdates i c e = true := by
  rcases hv with ⟨row, hrow⟩ | ⟨d, hd, hc⟩
  · obtain ⟨e, he, rfl, hdone⟩ := System.mem_past hrow
    have hfinds : finds e.thread c e = true := by simp [finds, hdone]
    refine ⟨e, he, ?_⟩
    cases hhas : e.before.has c with
    | true => exact .inl (by simp [sees, hfinds, hhas])
    | false => exact .inr (by simp [outdates, hfinds, hhas])
  · obtain ⟨e, he, rfl, hdone⟩ := System.mem_past hd
    exact ⟨e, he, .inl (by simp [sees, reads, hdone, hc])⟩

/-- When `remove` finds nobody with the code, nobody has it. -/
theorem not_bears_of_found (hw : w.Integral) (hc : (!w.borneExtra c || w.borneMain c) = true)
    (hnil : w.bearers c = []) : ¬w.Bears c := by
  intro hb
  have hmain : w.borneMain c = true := by
    rcases hb.cases with hmain | hextra
    · exact hmain
    · simpa [hextra] using hc
  exact hw.bearers_ne_nil hmain hnil

/-! The entry of an operation says which operation it was and what it found. -/

/-- An operation that was answered did not raise. -/
theorem entry_done {op' : Op} {ans : Res op'}
    (h : (entry i o job w op raises).done = ⟨op', some ans⟩) :
    op = op' ∧ raises = false ∧ (complete w op').2 = some ans := by
  simp only [entry, Done.mk.injEq] at h
  obtain ⟨rfl, hans⟩ := h
  have hans := eq_of_heq hans
  cases raises with
  | true => cases hans
  | false => exact ⟨rfl, rfl, hans⟩

theorem clears_entry {l : ℕ} (h : clears l c (entry i o job w op raises) = true) :
    i = l ∧ job.removes = true ∧ op = .usersWithRole c ∧ w.bearers c = [] := by
  simp only [clears, Bool.and_eq_true] at h
  obtain ⟨⟨hi, hjob⟩, hdone⟩ := h
  split at hdone
  · rename_i c' heq
    obtain rfl : c' = c := of_decide_eq_true hdone
    obtain ⟨rfl, -, hans⟩ := entry_done heq
    exact ⟨of_decide_eq_true hi, hjob, rfl, Option.some.inj hans⟩
  · cases hdone

theorem deletes_entry (h : deletes c (entry i o job w op raises) = true) : op = .deleteRole c := by
  unfold deletes at h
  split at h
  · rename_i c' deleted heq
    obtain rfl : c' = c := of_decide_eq_true h
    exact (entry_done heq).1
  · cases h

theorem stores_entry (h : stores c (entry i o job w op raises) = true) :
    ∃ user content, op = .putGlobal user content ∧ c ∈ codes content := by
  unfold stores at h
  split at h
  · rename_i user content done heq
    exact ⟨user, content, (entry_done heq).1, of_decide_eq_true h⟩
  · cases h

/-- What a thread has just seen is in the catalog. -/
theorem sees_entry {l : ℕ} {user : UserId} (hw : w.Integral)
    (h : sees l user c (entry i o job w op raises) = true) :
    w.has c = true ∧ deletes c (entry i o job w op raises) = false := by
  simp only [sees, Bool.or_eq_true, Bool.and_eq_true] at h
  rcases h with ⟨hfinds, hhas⟩ | hreads
  · simp only [finds, Bool.and_eq_true] at hfinds
    obtain ⟨-, hdone⟩ := hfinds
    split at hdone
    · rename_i c' row heq
      obtain ⟨rfl, -, -⟩ := entry_done heq
      exact ⟨hhas, rfl⟩
    · cases hdone
  · simp only [reads, Bool.and_eq_true] at hreads
    obtain ⟨-, hdone⟩ := hreads
    split at hdone
    · rename_i u d heq
      simp only [Bool.and_eq_true] at hdone
      obtain ⟨rfl, -, hans⟩ := entry_done heq
      have hc : c ∈ codes d := mem_codes.2 (.inr (of_decide_eq_true hdone.2))
      exact ⟨hw.stored c ⟨u, d, Option.some.inj hans, hc⟩, rfl⟩
    · cases hdone

/-! ### One operation -/

/-- When `remove` has found nobody with a code, nobody has it. -/
theorem not_bears_of_clears {l : ℕ} (hs : Coherent s) (hc : inOrder s i job op = true)
    (hclears : clears l c (entry i o job s.world op raises) = true) : ¬s.world.Bears c := by
  obtain ⟨-, hjob, rfl, hnil⟩ := clears_entry hclears
  refine not_bears_of_found hs.world ?_ hnil
  simpa only [inOrder, hjob, Bool.not_true, Bool.false_or] using hc

section Step

variable (hs : Coherent s) (hl : System.Lawful (catalogLaw admins) s)
  {k : Option (Res op) → Code Unit}
  (hi : s.threads[i]? = some ⟨o, job, .await op k⟩) (hc : inOrder s i job op = true)

include hs hl hi hc

/-- A code is deleted when nobody has it. -/
theorem not_bears_of_deletes (ht : System.Traced (system cfg) s)
    (hdel : deletes c (entry i o job s.world op raises) = true) : ¬s.world.Bears c := by
  obtain rfl := deletes_entry hdel
  have hop : Allowed job (System.past s.log i) (.deleteRole c) := (hl.threads i _ hi).1
  rcases hop with hquiet | ⟨_, _, _, -, hquiet | ⟨_, _, -, hput, -⟩⟩ | ⟨requester, c', rfl, hop, hmem⟩ |
    ⟨_, hrespond, -⟩
  · cases hquiet
  · cases hquiet
  · cases hput
  · obtain rfl := Op.deleteRole.inj hop
    refine hs.cleared i c ?_ hc
    obtain ⟨e, he, hthread, hdone⟩ := System.mem_past hmem
    obtain ⟨u, hu, -, hjob⟩ := ht.entries e he
    rw [hthread, hi] at hu
    obtain rfl := Option.some.inj hu
    exact ⟨e, he, .inl (by simp [clears, hthread, hdone, ← hjob, Job.removes])⟩
  · cases hrespond

/-- What is stored is in the catalog. -/
theorem has_of_stores (hstores : stores c (entry i o job s.world op raises) = true) :
    s.world.has c = true := by
  obtain ⟨user, content, rfl, hcontent⟩ := stores_entry hstores
  have hop : Allowed job (System.past s.log i) (.putGlobal user content) := (hl.threads i _ hi).1
  obtain ⟨content', heq, hseen⟩ := hop.writes (show (Op.putGlobal user content).writes = some user from rfl)
  obtain rfl := (Op.putGlobal.inj heq).2
  exact hs.seen i user c (exists_sees (hseen c hcontent)) (List.all_eq_true.1 hc c hcontent)

/-- The roles stay in the catalog. -/
theorem integral_perform (ht : System.Traced (system cfg) s) :
    (perform s.world op raises).1.Integral := by
  refine ⟨fun c hb => ?_, table_perform hs.world.table⟩
  rcases bears_perform (i := i) (o := o) (hl.threads i _ hi).1 hb with hold | hstores
  · have hno : deletes c (entry i o job s.world op raises) = false := by
      by_contra hdel
      exact not_bears_of_deletes hs hl hi hc ht (eq_true_of_ne_false hdel) hold
    exact has_perform (hs.world.stored c hold) hno
  · obtain ⟨user, content, rfl, -⟩ := stores_entry hstores
    have hno : deletes c (entry i o job s.world (.putGlobal user content) raises) = false := by
      by_contra hdel
      cases deletes_entry (eq_true_of_ne_false hdel)
    exact has_perform (has_of_stores hs hl hi hc hstores) hno

/-- **An operation in order keeps the catalog coherent.** -/
theorem coherent_perform (ht : System.Traced (system cfg) s) (htw : t.world = (perform s.world op raises).1)
    (htl : t.log = entry i o job s.world op raises :: s.log) : Coherent t where
  world := by
    rw [htw]
    exact integral_perform hs hl hi hc ht
  seen := by
    intro l user c hex hun
    rw [htl] at hex hun
    rw [htw]
    rcases unspoiled_cons_cases hun hex with hsees | ⟨hno, hun, hex⟩
    · obtain ⟨hhas, hno⟩ := sees_entry hs.world hsees
      exact has_perform hhas hno
    · have hno : deletes c (entry i o job s.world op raises) = false := by
        simp only [outdates, Bool.or_eq_false_iff] at hno
        exact hno.1
      exact has_perform (hs.seen l user c hex hun) hno
  cleared := by
    intro l c hex hun hb
    rw [htl] at hex hun
    rw [htw] at hb
    have hop : Allowed job (System.past s.log i) op := (hl.threads i _ hi).1
    rcases unspoiled_cons_cases hun hex with hclears | ⟨hno, hun, hex⟩
    · rcases bears_perform (i := i) (o := o) hop hb with hold | hstores
      · exact not_bears_of_clears hs hc hclears hold
      · obtain ⟨-, -, rfl, -⟩ := clears_entry hclears
        obtain ⟨user, content, heq, -⟩ := stores_entry hstores
        cases heq
    · rcases bears_perform (i := i) (o := o) hop hb with hold | hstores
      · exact hs.cleared l c hex hun hold
      · rw [hno] at hstores
        cases hstores
  deleted := by
    intro e he c hdel
    rw [htl] at he
    rcases List.mem_cons.1 he with rfl | he
    · exact not_bears_of_deletes hs hl hi hc ht hdel
    · exact hs.deleted e he c hdel
  found := by
    intro e he c hjob hdone
    rw [htl] at he
    rcases List.mem_cons.1 he with rfl | he
    · have hjob : job.removes = true := hjob
      have hclears : clears i c (entry i o job s.world op raises) = true := by
        simp only [clears, hdone]
        simp [entry, hjob]
      exact not_bears_of_clears hs hc hclears
    · exact hs.found e he c hjob hdone

end Step

/-- **Every orderly move keeps the catalog coherent.** -/
theorem coherent_step {a : Act} (hs : Coherent s) (hl : System.Lawful (catalogLaw admins) s)
    (ht : System.Traced (system cfg) s) (hc : Orderly s a = true)
    (h : (system cfg).step s a = some t) : Coherent t := by
  rcases System.step_cases h with ⟨e, rfl, rfl⟩ | ⟨i, raises, o, job, op, k, rfl, hi, rfl⟩
  · cases e with
    | request requester rq => exact ⟨hs.world, hs.seen, hs.cleared, hs.deleted, hs.found⟩
    | registration user => cases hc
  · have hc : inOrder s i job op = true := by
      simpa only [Orderly, hi] using hc
    exact coherent_perform hs hl hi hc ht rfl rfl

/-- **The roles stay in the catalog.**  In every run of requests for roles and for the
catalog, whatever awaits raise, whose operations are in order: every code that is stored
for some user is in the catalog; no code is deleted while some user has it; and a request
to remove a code, when it has found some user who has it, is answered 409. -/
theorem catalog_stays (hw : w.Integral)
    (h : Exec (system cfg).step (fun s a => Orderly s a = true) (start w) as s) :
    (∀ user d c, s.world.data user = some d → c ∈ codes d → s.world.has c = true) ∧
    (∀ e ∈ s.log, ∀ c, e.done.op = .deleteRole c → e.done.ans ≠ none → ¬e.before.Bears c) ∧
    ∀ l₁ e l₂ requester c response, s.log = l₁ ++ e :: l₂ →
      e.job = .request requester (.removeRole c) → e.done.op = .respond response →
      ∀ e' ∈ l₂, e'.thread = e.thread → e'.done.op = .usersWithRole c → e'.before.Bears c →
        response.1 = 409 := by
  obtain ⟨hl, ht, hs⟩ : System.Lawful (catalogLaw w.admins) s ∧ System.Traced (system cfg) s ∧
      Coherent s := by
    refine h.invariant (I := fun s => System.Lawful (catalogLaw w.admins) s ∧
      System.Traced (system cfg) s ∧ Coherent s) ⟨System.lawful_start rfl, System.traced_start, ?_⟩ ?_
    · exact ⟨hw, by simp [start], by simp [start], by simp [start], by simp [start]⟩
    · rintro s a t ⟨hl, ht, hs⟩ hc hstep
      exact ⟨(catalogLaw_keeps cfg w.admins).lawful_step hl hc hstep, System.traced_step ht hstep,
        coherent_step hs hl ht hc hstep⟩
  refine ⟨fun user d c hd hc => hs.world.stored c ⟨user, d, hd, hc⟩, fun e he c hop hans => ?_, ?_⟩
  · refine hs.deleted e he c ?_
    obtain ⟨i, o, job, before, op, ans⟩ := e
    obtain rfl : op = .deleteRole c := hop
    cases ans with
    | none => exact absurd rfl hans
    | some deleted => simp [deletes]
  · intro l₁ e l₂ requester c response hlog hjob hop e' he' hthread hcheck hb
    have hmem : e ∈ s.log := by simp [hlog]
    have hmem' : e' ∈ s.log := by simp [hlog, he']
    have hremoves : e'.job.removes = true := by
      rw [ht.job_eq hmem' hmem hthread, hjob]
      rfl
    have hpast := System.done_mem_past he'
    have hfound := hs.found e' hmem' c hremoves
    have hallowed : Allowed e.job (System.past l₂ e.thread) e.done.op := hl.log.of_split hlog
    rw [hop, hjob, ← hthread] at hallowed
    obtain ⟨i, o, job, before, op, ans⟩ := e'
    obtain rfl : op = .usersWithRole c := hcheck
    rcases hallowed with hquiet | ⟨_, _, _, hput, -⟩ | ⟨_, _, -, hdelete, -⟩ | ⟨_, hrespond, h409⟩
    · cases hquiet
    · cases hput
    · cases hdelete
    · obtain rfl := Op.respond.inj hrespond
      refine h409 requester c rfl ans hpast ?_
      rintro rfl
      exact hfound rfl hb

end Run

/-! ### An extra role -/

/-- A server with a server admin, another user and three roles, none of them stored. -/
def team : World where
  users := ["@root:h", "@bob:h"]
  lower := id
  admins := fun user => user = py "@root:h"
  roleData := []
  catalog := [⟨"helper", "Helper", none⟩, ⟨"moderator", "Moderator", none⟩, ⟨"user", "User", none⟩]
  cache := []
  peers := fun _ => []

theorem team_integral : team.Integral := by
  refine ⟨fun c hb => ?_, by decide +kernel⟩
  obtain ⟨user, d, hd, -⟩ := hb
  cases hd

/-- Only requests for roles and for the catalog arrive. -/
def ForRoles : Act → Bool
  | .event (.request _ rq) => rq.forRoles
  | .event (.registration _) => false
  | .step _ _ => true

/-- The server admin gives the other user an extra role, and then removes that role from
the catalog. -/
def removal : List Act :=
  Move.event (Ev.request "@root:h" (.putRole "@bob:h" (.obj [("role", .str "user"),
    ("extra_roles", .arr [.str "helper"])]))) :: List.replicate 13 (.step 0 false : Act) ++
  Move.event (Ev.request "@root:h" (.removeRole "helper")) :: List.replicate 6 (.step 1 false : Act)

/-- The last operation answered a request with a status. -/
def answered (s : State) (status : ℕ) : Bool :=
  match s.log.head? with
  | some ⟨_, _, _, _, ⟨.respond response, _⟩⟩ => response.1 = status
  | _ => false

/-- **A role is removed that a user has.**  One request runs after the other; the role is
an extra one, and the removal is answered 204. -/
theorem extra_role_dangles : ∃ s, Exec (system ⟨"user", false⟩).step (fun _ a => ForRoles a = true)
    (start team) removal s ∧ s.world.borneExtra "helper" = true ∧ s.world.has "helper" = false ∧
      answered s 204 = true :=
  exists_exec_of_runs (f := (system ⟨"user", false⟩).step) (C := fun _ a => ForRoles a = true)
    (s := start team) (l := removal) (by decide +kernel)

/-- The same with a main role: the removal is refused. -/
def refusal : List Act :=
  Move.event (Ev.request "@root:h" (.putRole "@bob:h" (.obj [("role", .str "moderator")]))) ::
    List.replicate 13 (.step 0 false : Act) ++
  Move.event (Ev.request "@root:h" (.removeRole "moderator")) :: List.replicate 3 (.step 1 false : Act)

/-- The run is orderly, and the role stays in the catalog. -/
theorem main_role_stays : ∃ s, Exec (system ⟨"user", false⟩).step (fun s a => Orderly s a = true)
    (start team) refusal s ∧ answered s 409 = true ∧ s.world.borneMain "moderator" = true ∧
      ∀ user d c, s.world.data user = some d → c ∈ codes d → s.world.has c = true := by
  obtain ⟨s, hs, h409, hmain⟩ := exists_exec_of_runs (f := (system ⟨"user", false⟩).step)
    (C := fun s a => Orderly s a = true) (s := start team) (l := refusal)
    (p := fun s => answered s 409 = true ∧ s.world.borneMain "moderator" = true)
    (by decide +kernel)
  exact ⟨s, hs, h409, hmain, (catalog_stays team_integral hs).1⟩

end UserRoles
end Liza
