/-
# The stores of the chat topology sync gate

`servers/synapse/modules/chat_topology_sync_gate`: the two tables of `_storage.py`
(`device_capabilities` and `chat_topology_forced_full_state`), the lookup of a
user's hidden rooms with its cache, and the thresholds of
`_version_gate_client.py`.  Both tables have the `device_id` as their primary key,
so a table is a function of the device id.  The column `updated_ts` is written and
never read; it is left out.
-/

import Liza.Synapse.Rooms

set_option autoImplicit false

namespace Liza
namespace SyncGate

open Lib Synapse

/-- A device id.  The client chooses it at login. -/
abbrev DeviceId := PyStr

/-! ### `DeviceCapabilitiesStore` and `ForcedFullStateMarkers` -/

/-- A row of `device_capabilities`. -/
structure Capability where
  userId : UserId
  platform : PyStr
  build : ℤ
deriving DecidableEq

/-- The table `device_capabilities`. -/
abbrev Capabilities := DeviceId → Option Capability

/-- `upsert_capability`: the new table, and whether the build has grown or is the
first one. -/
def upsertCapability (table : Capabilities) (device : DeviceId) (user : UserId)
    (platform : PyStr) (build : ℤ) : Capabilities × Bool :=
  (Function.update table device (some ⟨user, platform, build⟩),
    match table device with
    | none => true
    | some row => row.build < build)

/-- `get_capability`: the columns `platform` and `build`. -/
def getCapability (table : Capabilities) (device : DeviceId) : Option (PyStr × ℤ) :=
  (table device).map fun row => (row.platform, row.build)

/-- The table `chat_topology_forced_full_state`. -/
abbrev Markers := DeviceId → Bool

/-- `mark`. -/
def mark (table : Markers) (device : DeviceId) : Markers := Function.update table device true

/-- `consume`: the marker is deleted, and the answer says whether it was there. -/
def consume (table : Markers) (device : DeviceId) : Markers × Bool :=
  (Function.update table device false, table device)

/-! ### `VersionGateThresholds` -/

/-- What the outside contributes to one completed await: the monotonic clock, the
answer of the version-gate service to each address (`null` where the request
failed, as `_http_get_json` has it), and whether the database raises. -/
structure Env where
  now : ℤ
  httpGetJson : PyStr → Json
  raises : Bool

/-- The configuration: `enabled`, `version_gate_base_url` (without the slashes at its
end; `none` where it is not set) and `threshold_ttl_seconds`.  `geFloat n x` is
Python's `n >= x` for a float. -/
structure Config where
  enabled : Bool
  baseUrl : Option PyStr
  ttlSeconds : ℤ
  geFloat : ℤ → PyStr → Bool

/-- `KNOWN_PLATFORMS`. -/
def knownPlatforms : List PyStr := ["ios", "macos", "android", "windows", "web"]

/-- `BUNDLES_BY_PLATFORM.get(platform, (None,))`. -/
def bundlesOf (platform : PyStr) : List (Option PyStr) :=
  if platform = py "ios" ∨ platform = py "macos" then
    [some "ru.prodamus.liza", some "com.prodamus.laba.liza"]
  else [none]

/-- The address that is asked for a platform and a bundle. -/
def versionUrl (baseUrl platform : PyStr) : Option PyStr → PyStr
  | none => baseUrl ++ py "/version/" ++ platform
  | some bundle => baseUrl ++ py "/version/" ++ platform ++ py "?bundle=" ++ bundle

/-- The first answer that is not `None`. -/
def firstAnswer (httpGetJson : PyStr → Json) (baseUrl platform : PyStr) :
    List (Option PyStr) → Json
  | [] => .null
  | bundle :: bundles =>
      match httpGetJson (versionUrl baseUrl platform bundle) with
      | .null => firstAnswer httpGetJson baseUrl platform bundles
      | data => data

/-- `_cache` and `_cache_ts`. -/
structure Thresholds where
  cache : PyStr → Json
  cacheTs : PyStr → Option ℤ

/-- The cached threshold of a platform is not older than the TTL. -/
def Thresholds.fresh (th : Thresholds) (ttlSeconds now : ℤ) (platform : PyStr) : Bool :=
  match th.cacheTs platform with
  | none => false
  | some last => now - last < ttlSeconds

/-- `get_min_build`; `none` is an exception (the answer was not an object). -/
def getMinBuild (baseUrl : PyStr) (ttlSeconds : ℤ) (env : Env) (th : Thresholds)
    (platform : PyStr) : Thresholds × Option Json :=
  if platform ∉ knownPlatforms then (th, some .null)
  else if th.fresh ttlSeconds env.now platform then (th, some (th.cache platform))
  else
    match firstAnswer env.httpGetJson baseUrl platform (bundlesOf platform) with
    | .null => (th, some (th.cache platform))
    | .obj data =>
        let threshold := Dict.get data "min_stories_build"
        (⟨Function.update th.cache platform threshold,
          Function.update th.cacheTs platform (some env.now)⟩, some threshold)
    | _ => (th, none)

/-- Asking again at the same moment gives the same answer, for every platform: a
refresh of the cache is not observed by anybody who could have asked himself. -/
theorem getMinBuild_again (baseUrl : PyStr) (ttlSeconds : ℤ) (env : Env) (th : Thresholds)
    (platform platform' : PyStr) :
    (getMinBuild baseUrl ttlSeconds env (getMinBuild baseUrl ttlSeconds env th platform).1
      platform').2 = (getMinBuild baseUrl ttlSeconds env th platform').2 := by
  by_cases hknown : platform ∉ knownPlatforms
  · simp only [getMinBuild, if_pos hknown]
  by_cases hfresh : th.fresh ttlSeconds env.now platform = true
  · simp only [getMinBuild, if_neg hknown, if_pos hfresh]
  cases hdata : firstAnswer env.httpGetJson baseUrl platform (bundlesOf platform) with
  | obj data =>
      have hfetch : getMinBuild baseUrl ttlSeconds env th platform =
          (⟨Function.update th.cache platform (Dict.get data "min_stories_build"),
            Function.update th.cacheTs platform (some env.now)⟩,
            some (Dict.get data "min_stories_build")) := by
        simp only [getMinBuild, if_neg hknown, if_neg hfresh, hdata]
      by_cases hp : platform' = platform
      · -- the platform that was asked for: its entry is fresh, or it is fetched again
        subst hp
        rw [hfetch]
        simp only [getMinBuild, if_neg hknown, hdata]
        split
        · simp
        · rfl
      · have hother : (getMinBuild baseUrl ttlSeconds env th platform).1.fresh ttlSeconds env.now
            platform' = th.fresh ttlSeconds env.now platform' := by
          simp only [hfetch, Thresholds.fresh, Function.update_of_ne hp]
        have hcache : (getMinBuild baseUrl ttlSeconds env th platform).1.cache platform' =
            th.cache platform' := by
          simp only [hfetch, Function.update_of_ne hp]
        generalize (getMinBuild baseUrl ttlSeconds env th platform).1 = th' at hother hcache
        simp only [getMinBuild, hother, hcache]
        split
        · rfl
        · split
          · rfl
          · split <;> rfl
  | _ => simp only [getMinBuild, if_neg hknown, if_neg hfresh, hdata]

/-! ### `HiddenRoomsLookup` -/

/-- `com.liza.chat.topology`. -/
def topologyState : PyStr := "com.liza.chat.topology"

/-- A room is hidden by its current state: by its topology state where it has one,
and else by what its creation content says. -/
def isHidden (rooms : Rooms) (room : RoomId) : Bool :=
  match rooms.state room topologyState "" with
  | some state => state.content.get "hidden" = .bool true
  | none =>
      match rooms.state room "m.room.create" "" with
      | none => false
      | some create => create.content.get "com.liza.stories" = .bool true ||
          create.content.get "com.liza.chat.type" = .str "stories"

/-- `get_rooms_for_user`: the rooms the user is joined to. -/
def roomsForUser (rooms : Rooms) (user : UserId) : List RoomId :=
  rooms.ids.filter fun room => rooms.membership room user = some .join

/-- The cache of the lookup. -/
abbrev HiddenCache := UserId → Option (List RoomId)

/-- `get_hidden_room_ids_for_user`. -/
def getHiddenRoomIdsForUser (rooms : Rooms) (cache : HiddenCache) (user : UserId) :
    HiddenCache × List RoomId :=
  match cache user with
  | some cached => (cache, cached)
  | none =>
      let hidden := (roomsForUser rooms user).filter (isHidden rooms)
      (Function.update cache user (some hidden), hidden)

/-- `_on_new_event`: a persisted topology event invalidates the entries of the users
who are joined to its room. -/
def invalidate (rooms : Rooms) (cache : HiddenCache) (event : Event) : HiddenCache :=
  if event.type = topologyState then
    fun user => if rooms.membership event.roomId user = some .join then none else cache user
  else cache

end SyncGate
end Liza
