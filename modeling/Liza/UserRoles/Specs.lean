/-
# What the handlers do

One lemma for each function of the module.  `Gives P t` says that the task `t` performs
operations of `P` only, apart from quiet ones; `set` is described with what it has done
before it writes: it has found the main role and the given extra roles in the cache, and
has read the kept ones from what is stored.
-/

import Liza.UserRoles.Module

set_option autoImplicit false

namespace Liza
namespace UserRoles

open Lib Synapse
open Lib.Task (Only Obeys)

/-- An operation that writes no role, takes no row from the catalog and answers nothing. -/
def Op.quiet : Op → Bool
  | .putGlobal _ _ => false
  | .addAccountData _ _ => false
  | .removeAccountData _ => false
  | .deleteRole _ => false
  | .respond _ => false
  | _ => true

/-- What the operations answer: whether a user is a server admin does not change, and a
row of the catalog has the code that was asked for. -/
def Answers (admins : UserId → Bool) : (op : Op) → Option (Res op) → Prop
  | .isUserAdmin user, some b => b = admins user
  | .cached c, some (some (some row)) => row.code = c
  | _, _ => True

/-- The user whose role an operation writes. -/
def Op.writes : Op → Option UserId
  | .putGlobal user _ => some user
  | .addAccountData user _ => some user
  | .removeAccountData user => some user
  | _ => none

/-- A quiet operation writes no role. -/
theorem Op.writes_of_quiet {op : Op} (h : op.quiet = true) : op.writes = none := by
  cases op with
  | putGlobal user content => cases h
  | addAccountData user content => cases h
  | removeAccountData user => cases h
  | _ => rfl

section Code

variable {admins : UserId → Bool} {P : Op → Prop}

/-- The task performs quiet operations, and others only as `P` says. -/
abbrev Gives (admins : UserId → Bool) (P : Op → Prop) {α : Type} (t : Code α) : Prop :=
  Only (Answers admins) (fun op => op.quiet = true ∨ P op) t

theorem gives_reloadCache : Gives admins P reloadCache :=
  (Only.call (.inl rfl)).bind fun _ => Only.call (.inl rfl)

theorem gives_enrich (c : PyStr) : Gives admins P (enrich c) := by
  refine (Only.call (.inl rfl)).bind fun row => ?_
  cases row with
  | some row => exact .ret _
  | none => exact gives_reloadCache.bind fun _ => (Only.call (.inl rfl)).bind fun row => .ret _

theorem gives_enrichAny (v : Json) : Gives admins P (enrichAny v) := by
  cases v with
  | null => exact .ret _
  | str c => exact gives_enrich c
  | _ =>
      refine (gives_enrich []).bind fun row => ?_
      split
      · exact .ret _
      · exact .raised

theorem gives_enrichFrozen (v : Json) : Gives admins P (enrichFrozen v) := by
  cases v with
  | null => exact .ret _
  | str c => exact gives_enrich c
  | _ => exact (gives_enrich []).bind fun _ => .ret _

theorem gives_broadcastRoleChange (user : UserId) : Gives admins P (broadcastRoleChange user) := by
  refine (Only.call (.inl rfl)).bind fun data => (gives_enrichAny _).bind fun role => ?_
  exact (Only.call (.inl rfl)).bind fun peers => Only.call (.inl rfl)

theorem gives_getRole (user : UserId) (v2 : Bool) : Gives admins P (getRole user v2) := by
  refine (Only.call (.inl rfl)).bind fun found => ?_
  split
  · refine (Only.call (.inl rfl)).bind fun data => ?_
    cases v2 with
    | true => exact (gives_enrichFrozen _).bind fun role => .ret _
    | false => exact .ret _
  · exact .ret _

theorem gives_create (body : Json) : Gives admins P (create body) := by
  have hadd : ∀ role, Gives admins P (addRole role) := by
    intro role
    refine (gives_enrich role.code).bind fun known => ?_
    cases known with
    | some _ => exact .ret _
    | none =>
        refine Only.bind ?_ fun added => ?_
        · refine Only.orElse (Only.bind ?_ fun _ => .ret _) (.ret _)
          exact (Only.call (.inl rfl)).bind fun _ => gives_reloadCache
        · split
          · exact (gives_enrich role.code).bind fun row => .ret _
          · exact .ret _
  unfold create
  split
  · split
    · split
      · exact .ret _
      · split
        · split
          · exact .ret _
          · split
            · exact .ret _
            · exact hadd _
        · exact .ret _
    · exact .ret _
  · exact .raised

theorem gives_update (c : PyStr) (body : Json) : Gives admins P (update c body) := by
  have hpatch : ∀ displayName color clearColor,
      Gives admins P (patchCatalog c displayName color clearColor) := by
    intro displayName color clearColor
    refine Only.bind ((Only.call (.inl rfl)).bind fun existed => ?_) fun updated => ?_
    · split
      · exact gives_reloadCache.bind fun _ => .ret _
      · exact .ret _
    · split
      · refine Only.bind (Only.orElse ?_ (.ret _)) fun _ => (gives_enrich c).bind fun row => .ret _
        exact (Only.call (.inl rfl)).bind fun bearers => .forEach gives_broadcastRoleChange bearers
      · exact .ret _
  cases body with
  | obj b =>
      unfold update
      simp only
      split
      · split
        · exact hpatch _ _ _
        · exact .ret _
      · split
        · exact .ret _
        · split
          · exact hpatch _ _ _
          · exact .ret _
      · exact .ret _
  | _ => exact .raised

theorem gives_remove (c : PyStr) (hP : P (.deleteRole c)) : Gives admins P (remove c) := by
  refine (Only.call (.inl rfl)).bind fun bearers => ?_
  split
  · exact .ret _
  · refine Only.bind ?_ fun deleted => ?_
    · refine (Only.call (.inr hP)).bind fun deleted => ?_
      split
      · exact gives_reloadCache.bind fun _ => .ret _
      · exact .ret _
    · split <;> exact .ret _

/-- What only a server admin may do. -/
theorem gives_requireAdmin {requester : UserId} {t : Code Response}
    (ht : admins requester = true → Gives admins P t) :
    Gives admins P (requireAdmin requester t) := by
  refine Only.call_bind (.inl rfl) fun isAdmin hadmin => ?_
  cases isAdmin with
  | true => exact ht hadmin.symm
  | false => exact .ret _

/-- Account data is written by its user, and of other types it is not written here. -/
theorem gives_writeAccountData {type : PyStr} {op : Op} (hop : type = accountDataType → P op) :
    Gives admins P (writeAccountData type op) := by
  unfold writeAccountData
  split
  · rename_i htype
    exact (Only.call (.inr (hop htype))).bind fun _ => .ret _
  · exact .ret _

/-! ### Setting a role -/

/-- The codes that are stored: the main role and the extra roles. -/
def codes (d : Dict) : List PyStr :=
  match d.get "role" with
  | .str c => c :: storedExtraRoles (some d)
  | _ => storedExtraRoles (some d)

/-- A request for the role of a user has seen a code: in the cache of the catalog, or
among the extra roles that the user has. -/
def Vouched (user : UserId) (h : List (Done Op Res)) (c : PyStr) : Prop :=
  (∃ row, ⟨.cached c, some (some (some row))⟩ ∈ h) ∨
    ∃ d, ⟨.getGlobal user, some (some d)⟩ ∈ h ∧ c ∈ storedExtraRoles (some d)

theorem Vouched.mono {user : UserId} {h h' : List (Done Op Res)} {c : PyStr}
    (hv : Vouched user h c) (hsub : h ⊆ h') : Vouched user h' c := by
  rcases hv with ⟨row, hrow⟩ | ⟨d, hd, hc⟩
  · exact .inl ⟨row, hsub hrow⟩
  · exact .inr ⟨d, hsub hd, hc⟩

/-- The content that is stored has the role. -/
theorem role_roleContent (role : Role) (extras : List PyStr) :
    (roleContent role extras).get "role" = .str role.code := by
  simp [roleContent, Dict.get, Dict.get?_cons]

/-- What is stored are the role and extra roles of the list. -/
theorem mem_codes_roleContent {role : Role} {extras : List PyStr} {c : PyStr}
    (h : c ∈ codes (roleContent role extras)) : c = role.code ∨ c ∈ extras := by
  have hextra : c ∈ storedExtraRoles (some (roleContent role extras)) → c ∈ extras := by
    intro hc
    by_cases hnil : extras = []
    · simp [roleContent, hnil, storedExtraRoles, Dict.get, Dict.get?_cons, extraRolesKey] at hc
    · simp only [roleContent, hnil, if_false, storedExtraRoles, Dict.get, Dict.get?_cons,
        extraRolesKey, List.cons_append, List.nil_append] at hc
      simp only [show (py "role" = py "extra_roles") = False by decide,
        show (py "role_v2" = py "extra_roles") = False by decide, if_false, if_true,
        Option.getD_some, List.mem_filterMap, List.mem_map] at hc
      obtain ⟨v, ⟨r, hr, rfl⟩, hv⟩ := hc
      simp only [Option.ite_none_left_eq_some, Option.some.injEq] at hv
      rw [← hv.2]
      exact hr
  rw [codes, role_roleContent] at h
  rcases List.mem_cons.1 h with hc | hc
  · exact .inl hc
  · exact .inr (hextra hc)

/-- What `set` may do: it stores the role of the body, with codes it has seen. -/
def MaySet (target : UserId) (body : Json) (h : List (Done Op Res)) (op : Op) : Prop :=
  op.quiet = true ∨ ∃ b content, body = .obj b ∧ op = .putGlobal target content ∧
    content.get "role" = Dict.get b "role" ∧ ∀ c ∈ codes content, Vouched target h c

section SetRole

variable {target : UserId} {body : Json} {h : List (Done Op Res)}

/-- A quiet task is one that `set` may run; it does not forget what was done. -/
theorem Gives.maySet {α : Type} {t : Code α} (ht : Gives admins (fun _ => False) t) :
    Obeys (Answers admins) (MaySet target body) (fun h' _ => h ⊆ h') h t :=
  ((ht h).imp fun _ _ hop => .inl (hop.resolve_right id)).grows.mono fun _ _ hq => hq.1

/-- The row that `enrich` finds has the code, and was seen in the cache. -/
theorem enrich_obeys (c : PyStr) : Obeys (Answers admins) (MaySet target body)
    (fun h' r => h ⊆ h' ∧ ∀ row, r = some (some row) →
      row.code = c ∧ ⟨.cached c, some (some (some row))⟩ ∈ h') h (enrich c) := by
  refine Obeys.grows ?_
  unfold enrich
  refine ⟨.inl rfl, fun r hr => ?_⟩
  match r with
  | none => exact fun row hrow => by cases hrow
  | some (some none) => exact fun row hrow => by cases hrow
  | some (some (some row)) =>
      rintro row' hrow
      obtain rfl : row = row' := by simpa using hrow
      exact ⟨hr, List.mem_cons_self⟩
  | some none =>
      show Obeys _ _ _ _ (reloadCache >>= fun _ => call (.cached c) >>= fun row => .ret (row.getD none))
      refine Obeys.bind (Gives.maySet gives_reloadCache) (fun h' _ _ => ?_) fun _ _ row hrow => ?_
      · refine ⟨.inl rfl, fun r hr => ?_⟩
        match r with
        | none => exact fun row hrow => by cases hrow
        | some none => exact fun row hrow => by cases hrow
        | some (some none) => exact fun row hrow => by cases hrow
        | some (some (some row)) =>
            rintro row' hrow
            obtain rfl : row = row' := by simpa using hrow
            exact ⟨hr, List.mem_cons_self⟩
      · cases hrow

/-- Where no code is unknown, all have been seen. -/
theorem firstUnknown_obeys (l : List PyStr) : Obeys (Answers admins) (MaySet target body)
    (fun h' r => r = some none → ∀ c ∈ l, Vouched target h' c) h (firstUnknown l) := by
  induction l generalizing h with
  | nil =>
      intro _ c hc
      cases hc
  | cons c l ih =>
      refine (enrich_obeys c).bind (fun h' row hrow => ?_) fun _ _ hr => by cases hr
      cases row with
      | none => exact fun hr => by cases hr
      | some row =>
          refine ih.grows.mono ?_
          rintro h'' r ⟨hsub, hr⟩ hnone c' hc'
          rcases List.mem_cons.1 hc' with rfl | hc'
          · exact .inl ⟨row, hsub (hrow.2 row rfl).2⟩
          · exact hr hnone c' hc'

theorem givenExtras_obeys (raw : Json) : Obeys (Answers admins) (MaySet target body)
    (fun h' r => ∀ extras, r = some (.ok extras) → ∀ c ∈ extras, Vouched target h' c) h
    (givenExtras raw) := by
  have herror : ∀ (h' : List (Done Op Res)) (response : Response),
      ∀ extras : List PyStr, some (Except.error response) = some (Except.ok extras) →
        ∀ c ∈ extras, Vouched target h' c := by
    intro h' response extras hr
    cases hr
  unfold givenExtras
  split
  · split
    · exact herror h _
    · split
      · exact herror h _
      · rename_i extras _ _
        refine (firstUnknown_obeys extras).bind (fun h' unknown hseen => ?_)
          fun _ _ extras hr => by cases hr
        cases unknown with
        | some c => exact herror h' _
        | none =>
            intro extras' hr
            obtain rfl : extras = extras' := by simpa using hr
            exact hseen rfl
  · exact herror h _

theorem keptExtras_obeys (newRole : PyStr) : Obeys (Answers admins) (MaySet target body)
    (fun h' r => ∀ extras, r = some extras → ∀ c ∈ extras, Vouched target h' c) h
    (keptExtras target newRole) := by
  refine ⟨.inl rfl, fun r _ => ?_⟩
  match r with
  | none => exact fun extras hr => by cases hr
  | some stored =>
      show Obeys _ _ _ _ (if storedRole stored = .str newRole then .ret (storedExtraRoles stored)
        else .ret [])
      split
      · intro extras hr c hc
        obtain rfl : storedExtraRoles stored = extras := by simpa using hr
        cases stored with
        | none => cases hc
        | some d => exact .inr ⟨d, List.mem_cons_self, hc⟩
      · intro extras hr c hc
        obtain rfl : [] = extras := by simpa using hr
        cases hc

/-- The role is stored with codes that have been seen. -/
theorem storeRole_obeys {b : Dict} {role : Role} {extras : List PyStr} (hbody : body = .obj b)
    (hrole : Dict.get b "role" = .str role.code)
    (hseen : ∀ c, c = role.code ∨ c ∈ extras → Vouched target h c) :
    Obeys (Answers admins) (MaySet target body) (fun _ _ => True) h
      (storeRole target role extras) := by
  refine Obeys.bind (Q := fun _ _ => True) (Obeys.call ?_ fun _ _ => trivial) (fun h' _ _ => ?_)
    fun _ _ => trivial
  · refine .inr ⟨b, _, hbody, rfl, ?_, fun c hc => hseen c ?_⟩
    · rw [role_roleContent, hrole]
    · rcases mem_codes_roleContent hc with hmain | hextra
      · exact .inl hmain
      · exact .inr (List.mem_eraseDups.1 (List.mem_filter.1 hextra).1)
  · refine (Gives.maySet ?_).mono fun _ _ _ => trivial
    exact ((gives_broadcastRoleChange target).orElse (.ret _)).bind fun _ => .ret _

/-- **`set` stores the role of the body, with codes it has seen.** -/
theorem setRole_obeys (target : UserId) (body : Json) (h : List (Done Op Res)) :
    Obeys (Answers admins) (MaySet target body) (fun _ _ => True) h (setRole target body) := by
  cases body with
  | obj b =>
      simp only [setRole]
      split
      · rename_i newRole hnew
        split
        · exact trivial
        · refine Obeys.bind (Q := fun _ _ => True) (Obeys.call (.inl rfl) fun _ _ => trivial)
            (fun h₁ found _ => ?_) fun _ _ => trivial
          split
          · refine (enrich_obeys newRole).bind (fun h₂ row hrow => ?_) fun _ _ => trivial
            split
            · exact trivial
            · rename_i role
              obtain ⟨hcode, hmain⟩ := hrow.2 role rfl
              have hrole : Dict.get b "role" = .str role.code := by rw [hcode, hnew]
              -- The main role was seen before the extra roles were.
              have hseen : ∀ h' (extras : List PyStr), h₂ ⊆ h' → (∀ c ∈ extras, Vouched target h' c) →
                  ∀ c, c = role.code ∨ c ∈ extras → Vouched target h' c := by
                rintro h' extras hsub hextras c (rfl | hc)
                · rw [hcode]
                  exact .inl ⟨role, hsub hmain⟩
                · exact hextras c hc
              split
              · refine (givenExtras_obeys _).grows.bind (fun h' extras hex => ?_) fun _ _ => trivial
                split
                · exact trivial
                · rename_i extras
                  exact storeRole_obeys rfl hrole (hseen h' extras hex.1 (hex.2 extras rfl))
              · refine (keptExtras_obeys newRole).grows.bind (fun h' extras hex => ?_)
                  fun _ _ => trivial
                exact storeRole_obeys rfl hrole (hseen h' extras hex.1 (hex.2 extras rfl))
          · exact trivial
      · exact trivial
  | _ => exact trivial

end SetRole

end Code

/-! ### What the operations change -/

section World

variable {admins : UserId → Bool} {w : World} {user : UserId}

theorem perform_admins (w : World) (op : Op) (raises : Bool) :
    (perform w op raises).1.admins = w.admins := by
  cases raises with
  | true => rfl
  | false =>
      cases op with
      | putGlobal u content =>
          simp only [perform_ok, complete]
          split <;> rfl
      | removeAccountData u =>
          simp only [perform_ok, complete]
          split <;> rfl
      | insertRole role =>
          simp only [perform_ok, complete]
          split <;> rfl
      | patchRole c displayName color clearColor =>
          simp only [perform_ok, complete]
          split
          · split <;> rfl
          · rfl
      | _ => rfl

theorem answers_perform (hw : w.admins = admins) (op : Op) (raises : Bool) :
    Answers admins op (perform w op raises).2 := by
  cases raises with
  | true => cases op <;> exact trivial
  | false =>
      cases op with
      | isUserAdmin u =>
          show w.admins u = admins u
          rw [hw]
      | cached c =>
          simp only [perform_ok, complete]
          split
          · exact trivial
          · cases hfind : w.cache.find? (·.code = c) with
            | none => exact trivial
            | some row =>
                have hcode : row.code = c := by simpa using List.find?_some hfind
                exact hcode
      | _ => exact trivial

/-- The account data of a user is changed by writing it only. -/
theorem perform_data (w : World) {op : Op} (raises : Bool) (hop : op.writes ≠ some user) :
    (perform w op raises).1.data user = w.data user := by
  cases raises with
  | true => rfl
  | false =>
      cases op with
      | putGlobal u content =>
          have hne : user ≠ u := fun h => hop (by rw [h]; rfl)
          simp only [perform_ok, complete]
          split
          · simp [World.data, Dict.get?_set_of_ne _ _ hne]
          · rfl
      | addAccountData u content =>
          have hne : user ≠ u := fun h => hop (by rw [h]; rfl)
          simp [perform_ok, complete, World.data, Dict.get?_set_of_ne _ _ hne]
      | removeAccountData u =>
          have hne : user ≠ u := fun h => hop (by rw [h]; rfl)
          simp only [perform_ok, complete]
          split
          · simp [World.data, Dict.get?_set_of_ne _ _ hne]
          · rfl
      | insertRole role =>
          simp only [perform_ok, complete]
          split <;> rfl
      | patchRole c displayName color clearColor =>
          simp only [perform_ok, complete]
          split
          · split <;> rfl
          · rfl
      | _ => rfl

/-- A write of the module stores its content, or nothing. -/
theorem perform_putGlobal (w : World) (content : Dict) (raises : Bool) :
    (perform w (.putGlobal user content) raises).1.data user = w.data user ∨
      (perform w (.putGlobal user content) raises).1.data user = some content := by
  cases raises with
  | true => exact .inl rfl
  | false =>
      simp only [perform_ok, complete]
      split
      · exact .inr (by simp [World.data])
      · exact .inl rfl

end World

end UserRoles
end Liza
