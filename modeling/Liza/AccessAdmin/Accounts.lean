/-
# Deactivating an account and activating it again

`servers/synapse/modules/access_admin`: the two operations on an account (`_accounts.py`),
the check of the caller's rights (`_permissions.py`) and the request for either of them
(`set_state` of `_api.py`); with what they call of Synapse: the flag in `users`, the
deletion of access tokens (`handlers/auth.py`) and the user directory
(`handlers/user_directory.py`).

Every await may fail, and then changes nothing.  A call comes with the list of which of
its awaits fail.  The callbacks of modules for a logout swallow their exceptions, so they
are left out; of the removal of pushers it only matters that it may fail.
-/

import Liza.Lib.Task
import Liza.Lib.PyOps
import Liza.Synapse.Rooms

set_option autoImplicit false

namespace Liza
namespace AccessAdmin

open Lib Synapse

/-- `ProfileInfo`. -/
structure ProfileInfo where
  displayName : Option PyStr
  avatarUrl : Option PyStr
deriving DecidableEq

/-- What is stored of an account: the flag, the access tokens, the profile, the row of the
user directory, and whether it is an account of the support. -/
structure Account where
  deactivated : Bool
  tokens : List PyStr
  profile : ProfileInfo
  directory : Option ProfileInfo
  isSupport : Bool
deriving DecidableEq

/-- What is awaited. -/
inductive Op where
  | getUserDeactivatedStatus (user : UserId)
  | setUserDeactivatedStatus (user : UserId) (deactivated : Bool)
  | userDeleteAccessTokens (user : UserId)
  | removePushersByAccessTokens (user : UserId) (tokens : List PyStr)
  | removeFromUserDir (user : UserId)
  | getProfileinfo (user : UserId)
  | isSupportUser (user : UserId)
  | updateProfileInUserDir (user : UserId) (profile : ProfileInfo)
  | isServerAdmin (user : UserId)
  | getRoleData (user : UserId)
  | sharedSpacePowers (caller target : UserId)
  | getUserinfoById (user : UserId)

/-- What it answers; the status of an account that is not there is a `StoreError`, here
`none`. -/
@[reducible]
def Res : Op → Type
  | .getUserDeactivatedStatus _ => Option Bool
  | .userDeleteAccessTokens _ => List PyStr
  | .getProfileinfo _ => ProfileInfo
  | .isSupportUser _ => Bool
  | .isServerAdmin _ => Bool
  | .getRoleData _ => Option Dict
  | .sharedSpacePowers _ _ => List ℤ
  | .getUserinfoById _ => Bool
  | _ => Unit

/-- The code of a call. -/
abbrev Code (α : Type) := Task Op Res α

/-- `await op`. -/
abbrev call (op : Op) : Code (Res op) := Task.call op

/-- What is configured: the name of the server, and which users belong to application
services. -/
structure Config where
  serverName : PyStr
  isAppserviceUser : UserId → Bool

/-! ### Synapse -/

/-- `delete_access_tokens_for_user`. -/
def deleteAccessTokensForUser (user : UserId) : Code Unit := do
  let tokens ← call (.userDeleteAccessTokens user)
  call (.removePushersByAccessTokens user tokens)

/-- `should_include_local_user_in_dir`. -/
def shouldIncludeLocalUserInDir (cfg : Config) (user : UserId) : Code Bool :=
  if cfg.isAppserviceUser user then .ret false
  else do
    let support ← call (.isSupportUser user)
    if support then .ret false
    else do
      let status ← call (.getUserDeactivatedStatus user)
      match status with
      | some deactivated => .ret (!deactivated)
      | none => .ret false

/-- `handle_local_profile_change`. -/
def handleLocalProfileChange (cfg : Config) (user : UserId) (profile : ProfileInfo) : Code Unit := do
  let included ← shouldIncludeLocalUserInDir cfg user
  if included then call (.updateProfileInUserDir user profile) else .ret ()

/-- `handle_local_user_deactivated`. -/
def handleLocalUserDeactivated (user : UserId) : Code Unit := call (.removeFromUserDir user)

/-! ### The account -/

/-- The answer to a call. -/
def stateView (user : UserId) (deactivated : Bool) : Dict :=
  [("user_id", .str user), ("deactivated", .bool deactivated)]

/-- `AccountManager.is_deactivated`. -/
def isDeactivated (user : UserId) : Code Bool := do
  let status ← call (.getUserDeactivatedStatus user)
  match status with
  | some deactivated => .ret deactivated
  | none => .raised

/-- `AccountManager.deactivate`. -/
def deactivate (user : UserId) : Code Dict := do
  let deactivated ← isDeactivated user
  if deactivated then .ret (stateView user true)
  else do
    let _ ← call (.setUserDeactivatedStatus user true)
    let _ ← deleteAccessTokensForUser user
    let _ ← handleLocalUserDeactivated user
    .ret (stateView user true)

/-- `AccountManager.reactivate`. -/
def reactivate (cfg : Config) (user : UserId) : Code Dict := do
  let deactivated ← isDeactivated user
  if deactivated then do
    let _ ← call (.setUserDeactivatedStatus user false)
    let profile ← call (.getProfileinfo user)
    let _ ← handleLocalProfileChange cfg user profile
    .ret (stateView user false)
  else .ret (stateView user false)

/-- Either of the two. -/
def change (cfg : Config) (user : UserId) (activate : Bool) : Code Dict :=
  if activate then reactivate cfg user else deactivate user

/-! ### The request -/

/-- `ADMIN_POWER_LEVEL`. -/
def adminPowerLevel : ℤ := 100

/-- `PermissionChecker._has_admin_role`. -/
def hasAdminRole (user : UserId) : Code Bool := do
  let data ← call (.getRoleData user)
  .ret ((data.map fun d => d.get "role").getD .null = .str "admin")

/-- `PermissionChecker._is_space_admin_over`. -/
def isSpaceAdminOver (caller target : UserId) : Code Bool := do
  let powers ← call (.sharedSpacePowers caller target)
  .ret (powers.any fun power => adminPowerLevel ≤ power)

/-- `PermissionChecker.may_view`. -/
def mayView (caller target : UserId) : Code Bool := do
  let admin ← call (.isServerAdmin caller)
  if admin then .ret true
  else do
    let role ← hasAdminRole caller
    if role then .ret true else isSpaceAdminOver caller target

/-- Why a caller may not change an account. -/
inductive Reason where
  | self
  | foreignServer
  | forbidden

/-- `_DENY_MESSAGES`. -/
def Reason.message : Reason → PyStr
  | .self => "Нельзя деактивировать собственный аккаунт"
  | .foreignServer => "Аккаунт принадлежит другому серверу"
  | .forbidden => "Недостаточно прав"

/-- `PermissionChecker.may_deactivate`: why not, or `none`. -/
def mayDeactivate (cfg : Config) (caller target : UserId) : Code (Option Reason) :=
  if caller = target then .ret (some .self)
  else if ¬(py ":" ++ cfg.serverName) <:+ target then .ret (some .foreignServer)
  else do
    let allowed ← mayView caller target
    .ret (if allowed then none else some .forbidden)

/-- `set_state` once the rights have been checked. -/
def changeState (cfg : Config) (target : UserId) (activate : Bool) :
    Option Reason → Code (ℕ × Dict)
  | some reason => .ret (403, [("error", .str "forbidden"), ("message", .str reason.message)])
  | none => do
      let found ← call (.getUserinfoById target)
      if found then do
        let view ← change cfg target activate
        .ret (200, view)
      else .ret (404, [("error", .str "not_found"), ("message", .str "Пользователь не найден")])

/-- `set_state`. -/
def setState (cfg : Config) (caller target : UserId) (activate : Bool) : Code (ℕ × Dict) := do
  let reason ← mayDeactivate cfg caller target
  changeState cfg target activate reason

/-! ### The server -/

/-- The state of the server: the accounts, and who has which rights. -/
structure World where
  accounts : UserId → Option Account
  serverAdmins : UserId → Bool
  roleData : UserId → Option Dict
  powers : UserId → UserId → List ℤ

/-- Change an account that is there. -/
def World.modify (w : World) (user : UserId) (f : Account → Account) : World :=
  { w with accounts := Function.update w.accounts user ((w.accounts user).map f) }

/-- An await that does not fail. -/
def complete (w : World) : (op : Op) → World × Option (Res op)
  | .getUserDeactivatedStatus user => (w, some ((w.accounts user).map Account.deactivated))
  | .setUserDeactivatedStatus user deactivated =>
      -- A row that is not there is not updated, and that is an error.
      if (w.accounts user).isSome then
        (w.modify user fun a => { a with deactivated := deactivated }, some ())
      else (w, none)
  | .userDeleteAccessTokens user =>
      (w.modify user fun a => { a with tokens := [] },
        some (((w.accounts user).map Account.tokens).getD []))
  | .removePushersByAccessTokens _ _ => (w, some ())
  | .removeFromUserDir user => (w.modify user fun a => { a with directory := none }, some ())
  | .getProfileinfo user =>
      (w, some (((w.accounts user).map Account.profile).getD ⟨none, none⟩))
  | .isSupportUser user => (w, some (((w.accounts user).map Account.isSupport).getD false))
  | .updateProfileInUserDir user profile =>
      (w.modify user fun a => { a with directory := some profile }, some ())
  | .isServerAdmin user => (w, some (w.serverAdmins user))
  | .getRoleData user => (w, some (w.roleData user))
  | .sharedSpacePowers caller target => (w, some (w.powers caller target))
  | .getUserinfoById user => (w, some (w.accounts user).isSome)

/-- An await that fails where the list says so; past its end nothing fails. -/
def perform (s : World × List Bool) (op : Op) : (World × List Bool) × Option (Res op) :=
  match s.2 with
  | true :: fails => ((s.1, fails), none)
  | _ => (((complete s.1 op).1, s.2.tail), (complete s.1 op).2)

/-- Run a piece of code: the state it leaves, and its result where it returns. -/
def run {α : Type} (w : World) (fails : List Bool) (t : Code α) : World × Option α :=
  ((t.eval perform (w, fails)).1.1, (t.eval perform (w, fails)).2)

/-- A call of `deactivate` or `reactivate`, with the awaits of it that fail. -/
structure Call where
  user : UserId
  activate : Bool
  fails : List Bool

/-- What a call leaves and answers. -/
def Call.run (cfg : Config) (w : World) (c : Call) : World × Option Dict :=
  AccessAdmin.run w c.fails (change cfg c.user c.activate)

/-- The state after a sequence of calls. -/
def after (cfg : Config) (w : World) (calls : List Call) : World :=
  calls.foldl (fun w c => (c.run cfg w).1) w

end AccessAdmin
end Liza
