/-
# The client's service for public handles

`clients/flutter/lib/utils/user_handle_service.dart`: the client knows users by
public handles (`@ivanov`), which the auth-proxy registers.  `resolve` asks the
auth-proxy for the user of a handle and keeps the answer for an hour, in memory
and in the preferences of the device; `rememberHandle` writes the same cache
from data the client already has, and its doc comment names the profile field
`ru.liza.handle` (`handle_profile_field.dart`), which each user writes for
themself.

The service is a transition system.  The code between two awaits of `resolve`
is one step, and so is each answer of the auth-proxy, with the moment it comes
at (`DateTime.now()`, microseconds); clocks may be set back.  A log keeps what
the auth-proxy answered and what `resolve` returned.  The checks of a handle in
a profile are those of `channel_handle.dart`.
-/

import Liza.Lib.Assoc
import Liza.Lib.Json
import Liza.Lib.Run
import Mathlib.Algebra.Ring.Nat

set_option autoImplicit false

namespace Liza
namespace Client

open Lib

/-! ### `channel_handle.dart` and `handle_profile_field.dart` -/

/-- `channelHandleMinLength`. -/
def channelHandleMinLength : ℕ := 5

/-- `channelHandleMaxLength`. -/
def channelHandleMaxLength : ℕ := 32

/-- `reservedChannelHandles`. -/
def reservedChannelHandles : List PyStr := ["admin", "api", "support", "help", "liza"]

/-- Why a handle is refused. -/
inductive ChannelHandleError where
  | tooShort
  | tooLong
  | badFormat
  | reserved
deriving DecidableEq, Repr

/-- The characters `String.trim` drops: Unicode's white space, and the byte order mark. -/
def isTrimmed (c : CodePoint) : Bool :=
  (0x9 ≤ c.val && c.val ≤ 0xD) || c.val = 0x20 || c.val = 0x85 || c.val = 0xA0 ||
    c.val = 0x1680 || (0x2000 ≤ c.val && c.val ≤ 0x200A) || c.val = 0x2028 || c.val = 0x2029 ||
    c.val = 0x202F || c.val = 0x205F || c.val = 0x3000 || c.val = 0xFEFF

/-- `String.trim`. -/
def trim (s : PyStr) : PyStr :=
  ((s.dropWhile isTrimmed).reverse.dropWhile isTrimmed).reverse

/-- `String.toLowerCase` on one character.  Besides `A … Z` only `U+212A` and `U+0130` have
a lower case that may stand in a handle; every other letter is as good as its lower case
for the checks below, which refuse both and see the same length. -/
def toLowerCase (c : CodePoint) : CodePoint :=
  if 0x41 ≤ c.val ∧ c.val ≤ 0x5A then Fin.ofNat 0x110000 (c.val + 0x20)
  else if c.val = 0x212A then codePoint 'k'
  else if c.val = 0x0130 then codePoint 'i'
  else c

/-- `normalizeChannelHandle`. -/
def normalizeChannelHandle (raw : PyStr) : PyStr := (trim raw).map toLowerCase

/-- `String.length` counts UTF-16 code units. -/
def utf16Length (s : PyStr) : ℕ := (s.map fun c => if c.val < 0x10000 then 1 else 2).sum

/-- `[a-z]`. -/
def isLetter (c : CodePoint) : Bool := 0x61 ≤ c.val && c.val ≤ 0x7A

/-- `[a-z0-9_]`. -/
def isHandleChar (c : CodePoint) : Bool :=
  isLetter c || (0x30 ≤ c.val && c.val ≤ 0x39) || c.val = 0x5F

/-- `_handleRe`: `^[a-z][a-z0-9_]{4,31}$`. -/
def handleRe : PyStr → Bool
  | [] => false
  | c :: rest => isLetter c && rest.all isHandleChar && 4 ≤ rest.length && rest.length ≤ 31

/-- `validateChannelHandle`: `none` for a valid handle. -/
def validateChannelHandle (raw : PyStr) : Option ChannelHandleError :=
  let handle := normalizeChannelHandle raw
  if handle ∈ reservedChannelHandles then some .reserved
  else if handleRe handle then none
  else if utf16Length handle < channelHandleMinLength then some .tooShort
  else if channelHandleMaxLength < utf16Length handle then some .tooLong
  else some .badFormat

/-- `lizaHandleField`. -/
def lizaHandleField : PyStr := "ru.liza.handle"

/-- `handleFromProfile`, of the additional properties of a profile. -/
def handleFromProfile (additionalProperties : Dict) : Option PyStr :=
  match Dict.get additionalProperties lizaHandleField with
  | .str raw =>
      let handle := normalizeChannelHandle raw
      if handle = [] then none
      else if validateChannelHandle handle = none then some handle
      else none
  | _ => none

/-! ### The cache -/

/-- `_cacheTtl`, an hour of microseconds. -/
def cacheTtl : ℕ := 3600 * 1000000

/-- `_HandleCacheEntry`; `fetchedAt` in microseconds since the epoch. -/
structure HandleCacheEntry where
  mxid : PyStr
  fetchedAt : ℤ
deriving DecidableEq

/-- `_HandleCacheEntry.toJson`: `millisecondsSinceEpoch` drops the microseconds. -/
def HandleCacheEntry.toJson (e : HandleCacheEntry) : Json :=
  .obj [("mxid", .str e.mxid), ("fetchedAt", .int (e.fetchedAt.tdiv 1000))]

/-- `_HandleCacheEntry.fromJson`; a cast that fails is `none`. -/
def HandleCacheEntry.fromJson : Json → Option HandleCacheEntry
  | .obj d =>
      match Dict.get d "mxid", Dict.get d "fetchedAt" with
      | .str mxid, .int ms => some ⟨mxid, ms * 1000⟩
      | _, _ => none
  | _ => none

/-- What is recorded of a run: an answer of the auth-proxy, and a user that `resolve`
returns, each with its moment. -/
inductive Event where
  | answered (handle mxid : PyStr) (now : ℕ)
  | resolved (handle mxid : PyStr) (now : ℕ)
deriving DecidableEq

/-- The service and the preferences of the device. -/
structure State where
  /-- `_cache`. -/
  cache : Assoc PyStr HandleCacheEntry
  /-- `_byMxid`. -/
  byMxid : Assoc PyStr PyStr
  /-- `_cacheLoad` has finished. -/
  loaded : Bool
  /-- The handles `resolve` has asked the auth-proxy for, without an answer yet. -/
  asked : List PyStr
  /-- The value of `_cachePrefsKey`. -/
  prefs : Option Json
  /-- Latest first. -/
  log : List Event

/-- A fresh installation. -/
def init : State := ⟨[], [], false, [], none, []⟩

/-- `_putCacheEntry`. -/
def State.putCacheEntry (s : State) (handle : PyStr) (entry : HandleCacheEntry) : State :=
  let byMxid :=
    match s.cache.get? handle with
    | some previous => if previous.mxid ≠ entry.mxid then s.byMxid.erase previous.mxid else s.byMxid
    | none => s.byMxid
  let cache :=
    match byMxid.get? entry.mxid with
    | some stale => if stale ≠ handle then s.cache.erase stale else s.cache
    | none => s.cache
  { s with cache := cache.set handle entry, byMxid := byMxid.set entry.mxid handle }

/-- The loop of `_ensureCacheLoaded`: it ends at the first item that is no entry. -/
def State.putDecoded (s : State) : List (PyStr × Json) → State
  | [] => s
  | (handle, v) :: rest =>
      match HandleCacheEntry.fromJson v with
      | some entry => (s.putCacheEntry handle entry).putDecoded rest
      | none => s

/-- `_ensureCacheLoaded`, once the preferences are there. -/
def State.ensureCacheLoaded (s : State) : State :=
  match s.prefs with
  | some (.obj decoded) => { s.putDecoded decoded with loaded := true }
  | _ => { s with loaded := true }

/-- `_persistCache`. -/
def State.persistCache (s : State) : State :=
  { s with prefs := some (.obj (s.cache.map fun e => (e.1, e.2.toJson))) }

/-- `rememberHandle`.  The write to the preferences follows as a step of its own. -/
def State.rememberHandle (s : State) (mxid handle : PyStr) (now : ℕ) : State :=
  s.putCacheEntry handle ⟨mxid, now⟩

/-! ### The auth-proxy's answers -/

/-- A response with its decoded body, `none` for one that is not JSON. -/
structure Response where
  statusCode : ℕ
  body : Option Json

/-- The user in a response to `GET /api/handles/<handle>`. -/
def Response.mxid (r : Response) : Option PyStr :=
  if r.statusCode ≠ 200 then none
  else match r.body with
    | some (.obj body) =>
        match Dict.get body "mxid" with
        | .str mxid => some mxid
        | _ => none
    | _ => none

/-- The handles with their users that the loop of `searchHandles` reads: an entry that is
no object or lacks a field is passed over, and a cast that fails ends the loop. -/
def matchesOf : List Json → List (PyStr × PyStr)
  | [] => []
  | .obj raw :: rest =>
      match Dict.get raw "handle", Dict.get raw "mxid" with
      | .str handle, .str mxid => (handle, mxid) :: matchesOf rest
      | .null, .null | .null, .str _ | .str _, .null => matchesOf rest
      | _, _ => []
  | _ :: rest => matchesOf rest

/-- The results in a response to `GET /api/handles/search`. -/
def Response.results (r : Response) : List (PyStr × PyStr) :=
  if r.statusCode ≠ 200 then []
  else match r.body with
    | some (.obj body) =>
        match Dict.get body "results" with
        | .arr list => matchesOf list
        | _ => []
    | _ => []

/-- The auth-proxy has said whose handle it is, and the client remembers it. -/
def State.learn (s : State) (now : ℕ) (answer : PyStr × PyStr) : State :=
  { s with log := .answered answer.1 answer.2 now :: s.log }.rememberHandle answer.2 answer.1 now

/-! ### The steps -/

/-- What can happen next. -/
inductive Label where
  /-- The preferences are read, once in the life of the process. -/
  | load
  /-- `resolve(handle)` from `_ensureCacheLoaded` on, up to its request. -/
  | resolve (handle : PyStr) (now : ℕ)
  /-- The rest of `resolve`, from the response on; `saved` says whether the preferences
  could be written. -/
  | response (handle : PyStr) (r : Response) (now : ℕ) (saved : Bool)
  /-- The write that `_schedulePersist` or `dispose` has ordered. -/
  | persist
  | rememberHandle (mxid handle : PyStr) (now : ℕ)
  /-- `searchHandles`, from the response on. -/
  | search (r : Response) (now : ℕ)
  /-- `setHandle`, from the response on; `userID` is the client's own user. -/
  | setHandle (userID : Option PyStr) (handle : PyStr) (r : Response) (now : ℕ)
  /-- The process ends, and the application starts anew. -/
  | restart

/-- An entry that `resolve` returns without a request. -/
def HandleCacheEntry.fresh (e : HandleCacheEntry) (now : ℕ) : Bool :=
  (now : ℤ) - e.fetchedAt < cacheTtl

/-- `resolve` up to its request. -/
def State.resolve (s : State) (handle : PyStr) (now : ℕ) : State :=
  match s.cache.get? handle with
  | some cached =>
      if cached.fresh now then { s with log := .resolved handle cached.mxid now :: s.log }
      else { s with asked := handle :: s.asked }
  | none => { s with asked := handle :: s.asked }

/-- `resolve` from the response on.  Without the write to the preferences it returns
`null`, and the entry is in memory all the same. -/
def State.response (s : State) (handle : PyStr) (r : Response) (now : ℕ) (saved : Bool) : State :=
  let s := { s with asked := s.asked.erase handle }
  match r.mxid with
  | none => s
  | some mxid =>
      let s := s.learn now (handle, mxid)
      if saved then { s.persistCache with log := .resolved handle mxid now :: s.log } else s

/-- The part of `setHandle` that touches the cache: the auth-proxy has registered the
handle for the client's own user. -/
def State.setHandle (s : State) (userID : Option PyStr) (handle : PyStr) (r : Response)
    (now : ℕ) : State :=
  match r.statusCode, userID with
  | 200, some userId => s.learn now (handle, userId)
  | _, _ => s

/-- One step; `none` where it cannot happen. -/
def step (s : State) : Label → Option State
  | .load => if s.loaded then none else some s.ensureCacheLoaded
  | .resolve handle now => if s.loaded then some (s.resolve handle now) else none
  | .response handle r now saved =>
      if handle ∈ s.asked then some (s.response handle r now saved) else none
  | .persist => some s.persistCache
  | .rememberHandle mxid handle now => some (s.rememberHandle mxid handle now)
  | .search r now => some (r.results.foldl (State.learn · now) s)
  | .setHandle userID handle r now => some (s.setHandle userID handle r now)
  | .restart => some { s with cache := [], byMxid := [], loaded := false, asked := [] }

end Client
end Liza
