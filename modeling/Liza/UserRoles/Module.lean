/-
# The roles of the users

`servers/synapse/modules/user_roles`: the catalog of roles (`_catalog.py`), the handlers
of the requests for roles and for the catalog (`_api.py`), the notification of clients
(`_broadcast.py`) and the callback for a new user (`__init__.py`); with the servlet by
which a user writes account data of his own (`rest/client/account_data.py`).

A role is stored in the account data `com.liza.user_role` of its user, and that is the
only type modelled.  A request runs as a task.  The cache of the catalog is read and
assigned between two awaits; both are operations of their own here, so that a row that
was selected may be assigned late.  Responses are logged by an operation `respond`.
The table has the constraints of the Postgres schema.  Requests have been authenticated.
-/

import Liza.Lib.Task
import Liza.Lib.JsonText
import Liza.Lib.PyOps
import Liza.Synapse.Rooms

set_option autoImplicit false

namespace Liza
namespace UserRoles

open Lib Synapse

/-- A row of `user_roles_catalog`, without its timestamps. -/
structure Role where
  code : PyStr
  displayName : PyStr
  color : Option PyStr
deriving DecidableEq

/-- `ACCOUNT_DATA_TYPE`. -/
def accountDataType : PyStr := "com.liza.user_role"

/-- `DEFAULT_ROLE`. -/
def defaultRole : PyStr := "user"

/-- `ADMIN_ROLE`. -/
def adminRole : PyStr := "admin"

/-- `EXTRA_ROLES_KEY`. -/
def extraRolesKey : PyStr := "extra_roles"

/-- What a handler answers: the status and the payload. -/
abbrev Response := ℕ × Json

/-- What a request awaits. -/
inductive Op where
  | isUserAdmin (user : UserId)
  | checkUserExists (user : UserId)
  | getGlobal (user : UserId)
  | putGlobal (user : UserId) (content : Dict)
  | addAccountData (user : UserId) (content : Dict)
  | removeAccountData (user : UserId)
  | cached (code : PyStr)
  | cachedRows
  | selectRoles
  | setCache (rows : List Role)
  | insertRole (role : Role)
  | patchRole (code : PyStr) (displayName color : Option PyStr) (clearColor : Bool)
  | deleteRole (code : PyStr)
  | usersWithRole (code : PyStr)
  | usersWhoShareRoom (user : UserId)
  | sendToDevice (users : List UserId) (content : Dict)
  | respond (response : Response)

/-- What it answers; `cached` answers `none` for an empty cache. -/
@[reducible]
def Res : Op → Type
  | .isUserAdmin _ => Bool
  | .checkUserExists _ => Bool
  | .getGlobal _ => Option Dict
  | .cached _ => Option (Option Role)
  | .cachedRows => List Role
  | .selectRoles => List Role
  | .patchRole _ _ _ _ => Bool
  | .deleteRole _ => Bool
  | .usersWithRole _ => List UserId
  | .usersWhoShareRoom _ => List UserId
  | _ => Unit

/-- The code of a request. -/
abbrev Code (α : Type) := Task Op Res α

/-- `await op`. -/
abbrev call (op : Op) : Code (Res op) := Task.call op

/-! ### The catalog -/

/-- `_reload_cache`. -/
def reloadCache : Code Unit := do
  let rows ← call .selectRoles
  call (.setCache rows)

/-- `reload`. -/
def reload : Code Unit := reloadCache

/-- `list_all`. -/
def listAll : Code (List Role) := do
  let rows ← call .cachedRows
  if rows = [] then do
    reloadCache
    call .cachedRows
  else .ret rows

/-- `enrich`, for a code that is not `None`. -/
def enrich (code : PyStr) : Code (Option Role) := do
  let row ← call (.cached code)
  match row with
  | some row => .ret row
  | none => do
      reloadCache
      let row ← call (.cached code)
      .ret (row.getD none)

/-- `enrich` of any value: what is no string is not found, and a list or a dictionary is
not hashable. -/
def enrichAny : Json → Code (Option Role)
  | .null => .ret none
  | .str code => enrich code
  | v => do
      let row ← enrich []
      if v.hashable then .ret row else .raised

/-- `enrich` of any value that `get_global` has frozen, so that a list or a dictionary is
hashable: what is no string is looked up, and not found. -/
def enrichFrozen : Json → Code (Option Role)
  | .null => .ret none
  | .str code => enrich code
  | _ => do
      let _ ← enrich []
      .ret none

/-- The payload of `enrich`. -/
def Role.view (role : Role) : Dict :=
  [("code", .str role.code), ("label", .str role.displayName),
    ("color", (role.color.map Json.str).getD .null)]

/-- `add`. -/
def add (role : Role) : Code Unit := do
  let _ ← call (.insertRole role)
  reloadCache

/-- `patch`. -/
def patch (code : PyStr) (displayName color : Option PyStr) (clearColor : Bool) : Code Bool := do
  let existed ← call (.patchRole code displayName color clearColor)
  if existed then do
    reloadCache
    .ret true
  else .ret false

/-- `delete`. -/
def delete (code : PyStr) : Code Bool := do
  let deleted ← call (.deleteRole code)
  if deleted then do
    reloadCache
    .ret true
  else .ret false

/-- `[a-z0-9_]{1,64}`. -/
def isCode (code : PyStr) : Bool :=
  0 < code.length ∧ code.length ≤ 64 ∧ code.all fun c =>
    (codePoint 'a' ≤ c ∧ c ≤ codePoint 'z') ∨ (codePoint '0' ≤ c ∧ c ≤ codePoint '9') ∨
      c = codePoint '_'

/-- `#[0-9a-fA-F]{6}`. -/
def isColor (color : PyStr) : Bool :=
  color.length = 7 ∧ color.head? = some (codePoint '#') ∧ color.tail.all fun c =>
    (codePoint '0' ≤ c ∧ c ≤ codePoint '9') ∨ (codePoint 'a' ≤ c ∧ c ≤ codePoint 'f') ∨
      (codePoint 'A' ≤ c ∧ c ≤ codePoint 'F')

/-- What `$` lets through: Python's matches before a newline at the end, too. -/
def dropNewline (s : PyStr) : PyStr :=
  if s.getLast? = some (codePoint '\n') then s.dropLast else s

/-- `is_valid_code`, of a string. -/
def isValidCode (code : PyStr) : Bool := isCode (dropNewline code)

/-- `is_valid_color`. -/
def isValidColor : Json → Bool
  | .null => true
  | .str color => isColor (dropNewline color)
  | _ => false

/-- What `str.strip` takes away. -/
def isBlank (c : CodePoint) : Bool :=
  (0x09 ≤ c.val ∧ c.val ≤ 0x0D) ∨ (0x1C ≤ c.val ∧ c.val ≤ 0x20) ∨ c.val = 0x85 ∨ c.val = 0xA0 ∨
    c.val = 0x1680 ∨ (0x2000 ≤ c.val ∧ c.val ≤ 0x200A) ∨ c.val = 0x2028 ∨ c.val = 0x2029 ∨
    c.val = 0x202F ∨ c.val = 0x205F ∨ c.val = 0x3000

/-- `s.strip()`. -/
def strip (s : PyStr) : PyStr := ((s.dropWhile isBlank).reverse.dropWhile isBlank).reverse

/-! ### The handlers -/

/-- An error of a handler. -/
def failure (status : ℕ) (error message : PyStr) : Response :=
  (status, .obj [("error", .str error), ("message", .str message)])

/-- `stored_extra_roles`. -/
def storedExtraRoles : Option Dict → List PyStr
  | some data =>
      match data.get extraRolesKey with
      | .arr l => l.filterMap fun
          | .str r => if r = [] then none else some r
          | _ => none
      | _ => []
  | none => []

/-- `data.get("role") if isinstance(data, Mapping) else None`. -/
def storedRole (data : Option Dict) : Json := (data.map fun d => d.get "role").getD .null

/-- `with_extra_roles`, of a view that is there. -/
def withExtraRoles (view : Dict) (extras : List PyStr) : Dict :=
  if extras = [] then view else view.set extraRolesKey (.arr (extras.map .str))

/-- The payload for a role that may be missing in the catalog. -/
def roleView (role : Option Role) (extras : List PyStr) : Json :=
  match role with
  | some role => .obj (withExtraRoles role.view extras)
  | none => .null

/-- The strings of a list; `none` where an element is no string or empty. -/
def nonEmptyStrings : List Json → Option (List PyStr)
  | [] => some []
  | .str [] :: _ => none
  | .str s :: l => (nonEmptyStrings l).map (s :: ·)
  | _ :: _ => none

/-- The first code that is not in the catalog. -/
def firstUnknown : List PyStr → Code (Option PyStr)
  | [] => .ret none
  | code :: codes => do
      let row ← enrich code
      match row with
      | none => .ret (some code)
      | some _ => firstUnknown codes

/-- The error for a code that is not in the catalog. -/
def unknownRole (code : PyStr) : Response :=
  failure 404 "not_found" (py "Role '" ++ code ++ py "' not found in catalog")

/-- The extra roles of the body, or an error. -/
def givenExtras (raw : Json) : Code (Except Response (List PyStr)) :=
  match raw with
  | .arr l =>
      match nonEmptyStrings l with
      | none => .ret (.error
          (failure 400 "bad_request" "extra_roles must be a list of non-empty strings"))
      | some extras =>
          if adminRole ∈ extras then
            .ret (.error (failure 400 "bad_request" "admin can only be the main role"))
          else do
            let unknown ← firstUnknown extras
            match unknown with
            | some code => .ret (.error (unknownRole code))
            | none => .ret (.ok extras)
  | _ => .ret (.error
      (failure 400 "bad_request" "extra_roles must be a list of non-empty strings"))

/-- The extra roles that are kept: those that are stored, as long as the main role stays. -/
def keptExtras (target : UserId) (newRole : PyStr) : Code (List PyStr) := do
  let stored ← call (.getGlobal target)
  if storedRole stored = .str newRole then .ret (storedExtraRoles stored) else .ret []

/-- `broadcast_role_change`. -/
def broadcastRoleChange (user : UserId) : Code Unit := do
  let data ← call (.getGlobal user)
  let role ← enrichAny (storedRole data)
  let peers ← call (.usersWhoShareRoom user)
  call (.sendToDevice (user :: peers)
    [("user_id", .str user), ("role", roleView role (storedExtraRoles data))])

/-- `broadcast_catalog_patch`. -/
def broadcastCatalogPatch (code : PyStr) : Code Unit := do
  let bearers ← call (.usersWithRole code)
  Task.forEach broadcastRoleChange bearers

/-- The content that is stored for a role. -/
def roleContent (role : Role) (extras : List PyStr) : Dict :=
  ([("role", .str role.code), ("role_v2", .obj (withExtraRoles role.view extras))] : Dict) ++
    if extras = [] then [] else [(extraRolesKey, .arr (extras.map .str))]

/-- `UserRoleHandler.set` from the extra roles on. -/
def storeRole (target : UserId) (role : Role) (extras : List PyStr) : Code Response := do
  let extras := extras.eraseDups.filter fun r => r ≠ role.code
  let _ ← call (.putGlobal target (roleContent role extras))
  let _ ← (broadcastRoleChange target).orElse (.ret ())
  .ret (200, .obj [("user_id", .str target), ("role", .obj (withExtraRoles role.view extras)),
    ("updated", .bool true)])

/-- `UserRoleHandler.set`; a body that is no dictionary has no `get`. -/
def setRole (target : UserId) : Json → Code Response
  | .obj body =>
      match Dict.get body "role" with
      | .str newRole =>
          if newRole = [] then
            .ret (failure 400 "bad_request" "role must be a non-empty string")
          else do
            let found ← call (.checkUserExists target)
            if found then
              let role ← enrich newRole
              match role with
              | none => .ret (unknownRole newRole)
              | some role =>
                  match Dict.get? body extraRolesKey with
                  | some raw => do
                      let extras ← givenExtras raw
                      match extras with
                      | .error response => .ret response
                      | .ok extras => storeRole target role extras
                  | none => do
                      let extras ← keptExtras target newRole
                      storeRole target role extras
            else .ret (failure 404 "not_found" "User not found")
      | _ => .ret (failure 400 "bad_request" "role must be a non-empty string")
  | _ => .raised

/-- `UserRoleHandler.get`. -/
def getRole (user : UserId) (v2 : Bool) : Code Response := do
  let found ← call (.checkUserExists user)
  if found then
    let data ← call (.getGlobal user)
    let code := if (storedRole data).truthy then storedRole data else .str defaultRole
    if v2 then
      let role ← enrichFrozen code
      .ret (200, .obj [("user_id", .str user), ("role", roleView role (storedExtraRoles data))])
    else .ret (200, .obj [("user_id", .str user), ("role", code)])
  else .ret (failure 404 "not_found" "User not found")

/-- The payload of a role of the catalog. -/
def catalogView (role : Option Role) : Json := roleView role []

/-- The answer to a role that is added. -/
def addRole (role : Role) : Code Response := do
  let known ← enrich role.code
  match known with
  | some _ => .ret (failure 409 "conflict" "Role code already exists")
  | none => do
      let added ← ((add role >>= fun _ => .ret true).orElse (.ret false) : Code Bool)
      if added then
        let row ← enrich role.code
        .ret (201, catalogView row)
      else .ret (failure 500 "internal_error" "Failed to add role")

/-- `CatalogHandler.create`. -/
def create : Json → Code Response
  | .obj body =>
      match Dict.get body "code" with
      | .str code =>
          if ¬isValidCode code then
            .ret (failure 400 "bad_request" "Invalid code (lowercase a-z, 0-9, _, 1-64 chars)")
          else
            match Dict.get body "display_name" with
            | .str displayName =>
                if strip displayName = [] then
                  .ret (failure 400 "bad_request" "display_name is required")
                else if ¬isValidColor (Dict.get body "color") then
                  .ret (failure 400 "bad_request" "Invalid color (must be #RRGGBB)")
                else addRole ⟨code, strip displayName, match Dict.get body "color" with
                  | .str color => some color
                  | _ => none⟩
            | _ => .ret (failure 400 "bad_request" "display_name is required")
      | _ => .ret (failure 400 "bad_request" "Invalid code (lowercase a-z, 0-9, _, 1-64 chars)")
  | _ => .raised

/-- `CatalogHandler.update` from the patch on. -/
def patchCatalog (code : PyStr) (displayName color : Option PyStr) (clearColor : Bool) :
    Code Response := do
  let updated ← patch code displayName color clearColor
  if updated then
    let _ ← (broadcastCatalogPatch code).orElse (.ret ())
    let row ← enrich code
    .ret (200, catalogView row)
  else .ret (failure 404 "not_found" "Role not found")

/-- The color of a patch; `none` where it is invalid. -/
def patchColor (body : Dict) : Option (Option PyStr × Bool) :=
  match body.get? "color" with
  | none => some (none, false)
  | some .null => some (none, true)
  | some (.str color) => if isValidColor (.str color) then some (some color, false) else none
  | some _ => none

/-- `CatalogHandler.update`. -/
def update (code : PyStr) : Json → Code Response
  | .obj body =>
      let patched (displayName : Option PyStr) : Code Response :=
        match patchColor body with
        | some (color, clearColor) => patchCatalog code displayName color clearColor
        | none => .ret (failure 400 "bad_request" "Invalid color")
      match Dict.get body "display_name" with
      | .null => patched none
      | .str displayName =>
          if strip displayName = [] then
            .ret (failure 400 "bad_request" "display_name cannot be empty")
          else patched (some (strip displayName))
      | _ => .ret (failure 400 "bad_request" "display_name cannot be empty")
  | _ => .raised

/-- `CatalogHandler.remove`. -/
def remove (code : PyStr) : Code Response := do
  let bearers ← call (.usersWithRole code)
  if bearers ≠ [] then
    .ret (failure 409 "conflict"
      (py "Cannot delete role: " ++ py (toString bearers.length) ++ py " user(s) still have it"))
  else do
    let deleted ← delete code
    if deleted then .ret (204, .obj [])
    else .ret (failure 404 "not_found" "Role not found")

/-- `_on_user_registration`, for the role that is configured. -/
def onUserRegistration (role : PyStr) (user : UserId) : Code Unit := do
  let assign : Code Unit := do
    let row ← enrich role
    let content : Dict := [("role", .str role)]
    call (.putGlobal user (match row with
      | some row => content.set "role_v2" (.obj row.view)
      | none => content))
  assign.orElse (.ret ())

/-! ### Requests -/

/-- What a client asks for. -/
inductive Request where
  | putAccountData (user : UserId) (type : PyStr) (body : Dict)
  | deleteAccountData (user : UserId) (type : PyStr)
  | getRole (user : UserId) (v2 : Bool)
  | putRole (user : UserId) (body : Json)
  | createRole (body : Json)
  | updateRole (code : PyStr) (body : Json)
  | removeRole (code : PyStr)

/-- What is configured: the default role, and MSC3391. -/
structure Config where
  defaultRole : PyStr
  msc3391Enabled : Bool

/-- A request of a user, or the callback for a new user. -/
inductive Job where
  | request (requester : UserId) (rq : Request)
  | registered (user : UserId)

/-- A `SynapseError`. -/
def synapseError (status : ℕ) (errcode error : PyStr) : Response :=
  (status, .obj [("errcode", .str errcode), ("error", .str error)])

/-- `_check_can_set_account_data_type`: the error, where there is one. -/
def checkCanSetAccountDataType (type : PyStr) : Option Response :=
  if type = py "m.fully_read" then
    some (synapseError 405 "M_BAD_JSON" ("Cannot set m.fully_read through this API." ++
      " Use /rooms/!roomId:server.name/read_markers"))
  else if type = py "m.push_rules" then
    some (synapseError 405 "M_BAD_JSON" "Cannot set m.push_rules through this API. Use /pushrules")
  else none

/-- The write of account data of the type of roles; other types are not modelled. -/
def writeAccountData (type : PyStr) (op : Op) : Code Response :=
  if type = accountDataType then do
    let _ ← call op
    .ret (200, .obj [])
  else .ret (200, .obj [])

/-- `AccountDataServlet.on_PUT`. -/
def onPutAccountData (cfg : Config) (requester user : UserId) (type : PyStr) (body : Dict) :
    Code Response :=
  if user ≠ requester then
    .ret (synapseError 403 "M_FORBIDDEN" "Cannot add account data for other users.")
  else
    match checkCanSetAccountDataType type with
    | some response => .ret response
    | none =>
        if cfg.msc3391Enabled ∧ body = [] then writeAccountData type (.removeAccountData user)
        else writeAccountData type (.addAccountData user body)

/-- `UnstableAccountDataServlet.on_DELETE`, which is there with MSC3391 only. -/
def onDeleteAccountData (cfg : Config) (requester user : UserId) (type : PyStr) : Code Response :=
  if ¬cfg.msc3391Enabled then .ret (synapseError 404 "M_UNRECOGNIZED" "Unrecognized request")
  else if user ≠ requester then
    .ret (synapseError 403 "M_FORBIDDEN" "Cannot delete account data for other users.")
  else
    match checkCanSetAccountDataType type with
    | some response => .ret response
    | none => writeAccountData type (.removeAccountData user)

/-- `_require_admin` before a handler. -/
def requireAdmin (requester : UserId) (handler : Code Response) : Code Response := do
  let isAdmin ← call (.isUserAdmin requester)
  if isAdmin then handler else .ret (failure 403 "forbidden" "Admin access required")

/-- The handler of a request. -/
def handler (cfg : Config) (requester : UserId) : Request → Code Response
  | .putAccountData user type body => onPutAccountData cfg requester user type body
  | .deleteAccountData user type => onDeleteAccountData cfg requester user type
  | .getRole user v2 => getRole user v2
  | .putRole user body => requireAdmin requester (setRole user body)
  | .createRole body => requireAdmin requester (create body)
  | .updateRole code body => requireAdmin requester (update code body)
  | .removeRole code => requireAdmin requester (remove code)

/-- Run a request and answer it, or run the callback. -/
def code (cfg : Config) : Job → Code Unit
  | .request requester rq => handler cfg requester rq >>= fun r => call (.respond r)
  | .registered user => onUserRegistration cfg.defaultRole user

/-! ### The server -/

/-- The state of the server: its users, its server admins, the account data of the type of
roles by user, the catalog with its cache, and who shares a room with whom; `lower` is that of the
database. -/
structure World where
  users : List UserId
  lower : PyStr → PyStr
  admins : UserId → Bool
  roleData : Dict
  catalog : List Role
  cache : List Role
  peers : UserId → List UserId

/-- The role of a user, as it is stored. -/
def World.data (w : World) (user : UserId) : Option Dict :=
  match w.roleData.get? user with
  | some (.obj d) => some d
  | _ => none

/-- `AuthHandler.check_user_exists`: it ignores the case where that leaves only one user. -/
def World.checkUserExists (w : World) (user : UserId) : Bool :=
  match w.users.filter fun u => w.lower u = w.lower user with
  | [] => false
  | u :: rest => rest.all (fun v => v = u) || user ∈ u :: rest

/-- What `LIKE` looks for: the pattern escapes what is special to it. -/
def roleMarker (code : PyStr) : PyStr := py "\"role\":\"" ++ code ++ py "\""

/-- The users whose stored text has the marker. -/
def World.bearers (w : World) (code : PyStr) : List UserId :=
  (w.roleData.filter fun e => roleMarker code <:+: e.2.compact).map Prod.fst

/-- The code is in the catalog. -/
def World.has (w : World) (code : PyStr) : Bool := w.catalog.any fun r => r.code = code

/-- The constraints of the table. -/
def Role.wellFormed (role : Role) : Bool := isCode role.code && role.color.all isColor

/-- A row after `patch`. -/
def Role.patched (displayName color : Option PyStr) (clearColor : Bool) (role : Role) : Role :=
  ⟨role.code, displayName.getD role.displayName,
    if clearColor then none else color.or role.color⟩

/-- The table after `patch`. -/
def patchedCatalog (catalog : List Role) (code : PyStr) (displayName color : Option PyStr)
    (clearColor : Bool) : List Role :=
  catalog.map fun r => if r.code = code then r.patched displayName color clearColor else r

/-- An operation that does not raise of itself. -/
def complete (w : World) : (op : Op) → World × Option (Res op)
  | .isUserAdmin user => (w, some (w.admins user))
  | .checkUserExists user => (w, some (w.checkUserExists user))
  | .getGlobal user => (w, some (w.data user))
  | .putGlobal user content =>
      -- Account data is not written for a user that is not there under just this name.
      if user ∈ w.users then ({ w with roleData := w.roleData.set user (.obj content) }, some ())
      else (w, none)
  | .addAccountData user content =>
      ({ w with roleData := w.roleData.set user (.obj content) }, some ())
  | .removeAccountData user =>
      (if w.roleData.contains user then { w with roleData := w.roleData.set user (.obj []) } else w,
        some ())
  | .cached code => (w, some (if w.cache = [] then none else some (w.cache.find? (·.code = code))))
  | .cachedRows => (w, some w.cache)
  | .selectRoles => (w, some w.catalog)
  | .setCache rows => ({ w with cache := rows }, some ())
  | .insertRole role =>
      if role.wellFormed ∧ ¬w.has role.code then
        ({ w with catalog := w.catalog ++ [role] }, some ())
      else (w, none)
  | .patchRole code displayName color clearColor =>
      let catalog := patchedCatalog w.catalog code displayName color clearColor
      if w.has code then
        if catalog.all Role.wellFormed then ({ w with catalog := catalog }, some true)
        else (w, none)
      else (w, some false)
  | .deleteRole code =>
      ({ w with catalog := w.catalog.filter fun r => r.code ≠ code }, some (w.has code))
  | .usersWithRole code => (w, some (w.bearers code))
  | .usersWhoShareRoom user => (w, some (w.peers user))
  | .sendToDevice _ _ => (w, some ())
  | .respond _ => (w, some ())

/-- An await completes, or raises. -/
def perform (w : World) (op : Op) (raises : Bool) : World × Option (Res op) :=
  if raises then (w, none) else complete w op

theorem perform_ok (w : World) (op : Op) : perform w op false = complete w op := rfl

/-- What comes from outside. -/
inductive Ev where
  | request (requester : UserId) (rq : Request)
  | registration (user : UserId)

/-- A request arrives; or a user registers under a name that is not taken. -/
def arrive (w : World) : Ev → World × List Job
  | .request requester rq => (w, [.request requester rq])
  | .registration user =>
      if user ∈ w.users then (w, [])
      else ({ w with users := user :: w.users }, [.registered user])

/-- The server as far as roles are concerned. -/
def system (cfg : Config) : System World Ev Bool Job Op Res where
  code := code cfg
  arrive := arrive
  drops := fun _ => false
  perform := fun w op raises => ((perform w op raises).1, (perform w op raises).2, [])

/-- A state of the server. -/
abbrev State := Loop World Ev Job Op Res

/-- A move of the server. -/
abbrev Act := Move Ev Bool

/-- No request has arrived yet. -/
def start (w : World) : State := ⟨w, [], [], []⟩

/-! ### Who trusts the role -/

/-- `PermissionChecker._has_admin_role` of `access_admin`. -/
def World.hasAdminRole (w : World) (user : UserId) : Bool := storedRole (w.data user) = .str "admin"

/-- `ROLES_ALLOWED_TO_CREATE` of `channel_guard`. -/
def rolesAllowedToCreate : List Json := [.str "admin", .str "moderator"]

/-- `ChannelGuardModule._get_role`. -/
def World.channelRole (w : World) (user : UserId) : Json :=
  if (storedRole (w.data user)).truthy then storedRole (w.data user) else .str defaultRole

/-- The gate of `ChannelGuardModule._on_create_room`, for who is no server admin. -/
def World.mayCreateChannel (w : World) (user : UserId) : Bool :=
  w.channelRole user ∈ rolesAllowedToCreate

end UserRoles
end Liza
