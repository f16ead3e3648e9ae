/-
# The chat topology sync gate

The gate of `servers/synapse/modules/chat_topology_sync_gate/__init__.py`, the
servlet `rest/client/chat_topology.py` by which a device tells its build, and the
two places where `SyncHandler.get_sync_result_builder` consults the module: rooms
are excluded for a device that has not passed the gate, and the marker of a device
that has just passed it is consumed.

A request runs as a task; each of its database transactions, of its questions to
the version gate and of its lookups is one await, so the requests of several
devices interleave.  The fetch inside `get_min_build` is taken as one await.
-/

import Liza.Lib.Task
import Liza.SyncGate.Storage

set_option autoImplicit false

namespace Liza
namespace SyncGate

open Lib Synapse

/-- What a request awaits. -/
inductive Op where
  | upsertCapability (device : DeviceId) (user : UserId) (platform : PyStr) (build : ℤ)
  | getCapability (device : DeviceId)
  | getMinBuild (platform : PyStr)
  | mark (device : DeviceId)
  | consume (device : DeviceId)
  | getHiddenRoomIdsForUser (user : UserId)

/-- What it answers. -/
@[reducible]
def Res : Op → Type
  | .upsertCapability _ _ _ _ => Bool
  | .getCapability _ => Option (PyStr × ℤ)
  | .getMinBuild _ => Json
  | .mark _ => Unit
  | .consume _ => Bool
  | .getHiddenRoomIdsForUser _ => List RoomId

/-- The code of a request. -/
abbrev Code (α : Type) := Task Op Res α

/-- `await op`. -/
abbrev call (op : Op) : Code (Res op) := Task.call op

/-- `build >= min_build`; `none` is the `TypeError` of a threshold that is no number. -/
def geThreshold (cfg : Config) (build : ℤ) : Json → Option Bool
  | .int n => some (n ≤ build)
  | .bool b => some ((if b then 1 else 0) ≤ build)
  | .float x => some (cfg.geFloat build x)
  | _ => none

/-- `device_passed_gate`. -/
def devicePassedGate (cfg : Config) (device : DeviceId) : Code Bool :=
  if ¬cfg.enabled ∨ cfg.baseUrl = none then .ret false else do
  let capability ← call (.getCapability device)
  match capability with
  | none => .ret false
  | some (platform, build) =>
    let minBuild ← call (.getMinBuild platform)
    if minBuild = .null then .ret false else
    match geThreshold cfg build minBuild with
    | none => .raised
    | some b => .ret b

/-- What the servlet answers; the text of a failed validation is the library's. -/
inductive Reply where
  | ok
  | error (code : ℕ) (message errcode : PyStr)
  | invalidBody (errcode : PyStr)
deriving DecidableEq

/-- `PutBody`, validated by `validate_json_object`: a strict string and a strict
integer, or the error code. -/
def parsePutBody (body : Dict) : Except PyStr (PyStr × ℤ) :=
  match body.get? "platform", body.get? "build" with
  | some (.str platform), some (.int build) => .ok (platform, build)
  | none, some (.int _) => .error "M_MISSING_PARAM"
  | some (.str _), none => .error "M_MISSING_PARAM"
  | _, _ => .error "M_BAD_JSON"

/-- `DeviceCapabilitiesRestServlet.on_PUT`, for a requester with the device id of the
access token (where it has one) and the device id of the path. -/
def onPut (cfg : Config) (user : UserId) (token : Option DeviceId) (device : DeviceId)
    (body : Dict) : Code Reply :=
  if token ≠ some device then
    .ret (.error 403 "Can only set capabilities for own device" "M_FORBIDDEN")
  else
    match parsePutBody body with
    | .error errcode => .ret (.invalidBody errcode)
    | .ok (platform, build) =>
      if platform ∉ knownPlatforms then
        .ret (.error 400 "Unknown platform" "M_INVALID_PARAM")
      else do
        let buildIncreased ← call (.upsertCapability device user platform build)
        if buildIncreased then
          let passed ← devicePassedGate cfg device
          if passed then
            let _ ← call (.mark device)
            .ret .ok
          else .ret .ok
        else .ret .ok

/-- `passed_gate` of `get_sync_result_builder`: a sync without a device id has not
passed. -/
def passedGate (cfg : Config) : Option DeviceId → Code Bool
  | some device => devicePassedGate cfg device
  | none => .ret false

/-- The first place of `get_sync_result_builder`: the rooms to exclude. -/
def excludedHidden (cfg : Config) (user : UserId) (device : Option DeviceId) :
    Code (List RoomId) :=
  if cfg.enabled then do
    let passed ← passedGate cfg device
    if passed then .ret [] else call (.getHiddenRoomIdsForUser user)
  else .ret []

/-- The second place: the rooms that are forced to be newly joined. -/
def forcedNewlyJoined (cfg : Config) (user : UserId) (device : Option DeviceId) (since : Bool) :
    Code (List RoomId) :=
  match cfg.enabled, device, since with
  | true, some device, true => do
      let consumed ← call (.consume device)
      if consumed then call (.getHiddenRoomIdsForUser user) else .ret []
  | _, _, _ => .ret []

/-- What a sync asks of the module; `since` says whether it has a since token. -/
def syncGate (cfg : Config) (user : UserId) (device : Option DeviceId) (since : Bool) :
    Code (List RoomId × List RoomId) := do
  let excluded ← excludedHidden cfg user device
  let forced ← forcedNewlyJoined cfg user device since
  .ret (excluded, forced)

/-- The state of the module, with the devices of the users who have logged in. -/
structure World where
  devices : List (UserId × DeviceId)
  capabilities : Capabilities
  forced : Markers
  thresholds : Thresholds
  rooms : Rooms
  hidden : HiddenCache

/-- The requests. -/
inductive Job where
  | put (user : UserId) (token : Option DeviceId) (device : DeviceId) (body : Dict)
  | sync (user : UserId) (device : Option DeviceId) (since : Bool)

/-- The user whose request it is. -/
def Job.user : Job → UserId
  | .put user _ _ _ => user
  | .sync user _ _ => user

/-- The device of the access token. -/
def Job.device : Job → Option DeviceId
  | .put _ token _ _ => token
  | .sync _ device _ => device

/-- What comes from outside: a login, a request, a persisted event. -/
inductive Ev where
  | login (user : UserId) (device : DeviceId)
  | request (job : Job)
  | persisted (event : Event)

/-- Run a request. -/
def code (cfg : Config) : Job → Code Unit
  | .put user token device body => onPut cfg user token device body >>= fun _ => .ret ()
  | .sync user device since => syncGate cfg user device since >>= fun _ => .ret ()

/-- The access token of a request belongs to a device of its user. -/
def World.accepts (w : World) (job : Job) : Bool :=
  match job.device with
  | none => true
  | some device => (job.user, device) ∈ w.devices

/-- An event arrives; a request without a valid access token is refused. -/
def arrive (w : World) : Ev → World × List Job
  | .login user device => ({ w with devices := (user, device) :: w.devices }, [])
  | .request job => (w, if w.accepts job then [job] else [])
  | .persisted event =>
      let rooms := w.rooms.persist event
      ({ w with rooms := rooms, hidden := invalidate rooms w.hidden event }, [])

/-- A database transaction, or a lookup, that did not raise. -/
def complete (cfg : Config) (env : Env) (w : World) : (op : Op) → World × Option (Res op)
  | .upsertCapability device user platform build =>
      let r := upsertCapability w.capabilities device user platform build
      ({ w with capabilities := r.1 }, some r.2)
  | .getCapability device => (w, some (getCapability w.capabilities device))
  | .getMinBuild platform =>
      let r := getMinBuild (cfg.baseUrl.getD []) cfg.ttlSeconds env w.thresholds platform
      ({ w with thresholds := r.1 }, r.2)
  | .mark device => ({ w with forced := mark w.forced device }, some ())
  | .consume device =>
      let r := consume w.forced device
      ({ w with forced := r.1 }, some r.2)
  | .getHiddenRoomIdsForUser user =>
      let r := getHiddenRoomIdsForUser w.rooms w.hidden user
      ({ w with hidden := r.1 }, some r.2)

/-- An await completes, or raises. -/
def perform (cfg : Config) (env : Env) (w : World) (op : Op) : World × Option (Res op) :=
  if env.raises then (w, none) else complete cfg env w op

/-- The homeserver as far as the gate is concerned. -/
def system (cfg : Config) : System World Ev Env Job Op Res where
  code := code cfg
  arrive := arrive
  drops := fun _ => false
  perform := fun w op env => ((perform cfg env w op).1, (perform cfg env w op).2, [])

/-- A state of the homeserver. -/
abbrev State := Loop World Ev Job Op Res

/-- A move of the homeserver. -/
abbrev Act := Move Ev Env

/-- No request has arrived yet. -/
def start (w : World) : State := ⟨w, [], [], []⟩

/-- What a sync sees of the gate at a moment: the answer of `device_passed_gate`
(`none` where it raises). -/
def World.passedGate (cfg : Config) (env : Env) (w : World) (device : DeviceId) : Option Bool :=
  ((devicePassedGate cfg device).eval (perform cfg env) w).2

end SyncGate
end Liza
