/-
# The service of the mini apps

`InitDataResource._handle_post` and `ValidateNonceResource._handle_get` of
`servers/synapse/modules/miniapp/__init__.py`, over what they share: the registry of `Registry`, the
limiter of `RateLimits`, the nonces of `Nonces`, and the memberships of the homeserver.

A request for init data is cut at its `await`s.  It is resumed with what was awaited, and reads of
the shared state what is there at that moment; meanwhile other requests come and are resumed, the
registry is fetched again, people join and leave, nonces are validated and cleaned up.  A request
may also be resumed later than the source would, so the runs are more than those of the server.

`InitDataResource.handlePost` is such a request with nothing in between.  Whatever comes in
between, a dictionary that is built is one that `handlePost` builds of the body that its user has
sent, with a registry that the service had and a membership that the user had (`built_as_handled`);
and this is what a nonce stands for that is found valid later (`valid_nonce_granted`).
-/

import Liza.Lib.Past
import Liza.MiniApp.InternalAccess
import Liza.MiniApp.Nonces
import Liza.MiniApp.RateLimits
import Liza.MiniApp.Registry

set_option autoImplicit false

namespace Liza
namespace MiniApp

open Lib

/-! ### A request for init data -/

/-- Where a request waits: for `maybe_refresh`, `_check_membership`, `get_profile_for_user` or
`get_threepids_for_user`. -/
inductive Stage where
  | registry
  | membership (app : Json) (room : PyStr)
  | profile (app : Json) (room : Option PyStr) (key : Bytes)
  | threepids (room : Option PyStr) (key : Bytes) (profile : Option (Option PyStr × Option PyStr))

/-- A request that waits. -/
structure Post where
  user : PyStr
  body : Json
  appId : PyStr
  stage : Stage

/-- What a dictionary is given when it is built: the nonce, its moment, and the date. -/
structure Stamp where
  nonce : Token
  created : ℚ
  authDate : ℤ

/-- What a request comes to: it waits again, or its dictionary is built, for a room or for none. -/
inductive Resumed where
  | waits (post : Post)
  | builds (room : Option PyStr) (params : Params) (stamp : Stamp)

/-- What was awaited.  The membership is read of the homeserver, unless the read raises. -/
inductive Awaited where
  | registry
  | membership (readable : Bool)
  | profile (profile : Option (Option PyStr × Option PyStr)) (stamp : Stamp)
  | threepids (threepids : Option (List (PyStr × PyStr))) (stamp : Stamp)

/-- `local_current_membership`, by room and user. -/
abbrev Memberships := Assoc (PyStr × PyStr) PyStr

/-- The app id of a body. -/
def appIdOf (body : Json) : Py Refusal PyStr :=
  requiredStr body "app_id" ⟨"bad_request", "app_id is required", 400⟩

/-- The room id of a body. -/
def roomIdOf (body : Json) : Py Refusal (Option PyStr) :=
  optionalStr body "room_id" ⟨"bad_request", "room_id должен быть непустой строкой", 400⟩

namespace InitDataResource

variable (hmac : Bytes → Bytes → Bytes) (res : InitDataResource)

/-- `_handle_post` up to `maybe_refresh`. -/
def beginPost (rateOk : Bool) (user : PyStr) (body : Option Json) : Py Refusal Post := do
  require rateOk ⟨"rate_limited", "Слишком много запросов, попробуйте позже", 429⟩
  let body ← readBody body
  let appId ← appIdOf body
  pure ⟨user, body, appId, .registry⟩

/-- The key, and on to the profile. -/
def withKey (post : Post) (app : Json) (room : Option PyStr) : Py Refusal Resumed := do
  let key ← encoded (signingKey hmac res.masterSecret post.appId res.perAppKeys)
  pure (.waits { post with stage := .profile app room key })

/-- `_handle_post` from `maybe_refresh` on, up to the membership or the profile. -/
def afterRefresh (post : Post) (g : AppRegistry) : Py Refusal Resumed := do
  let app ← g.app post.appId
  match ← roomIdOf post.body with
  | some room =>
      if res.verifyRoomMembership then pure (.waits { post with stage := .membership app room })
      else res.withKey hmac post app (some room)
  | none => res.withKey hmac post app none

/-- `_handle_post` from `_check_membership` on, up to the profile. -/
def afterMembership (post : Post) (app : Json) (room : PyStr) (membership : Option PyStr) :
    Py Refusal Resumed := do
  require (membership == some (py "join")) ⟨"forbidden", "Вы не участник указанной комнаты", 403⟩
  res.withKey hmac post app (some room)

/-- The dictionary. -/
def build (post : Post) (room : Option PyStr) (key : Bytes)
    (profile : Option (Option PyStr × Option PyStr)) (email : Option PyStr) (stamp : Stamp) :
    Py Refusal Resumed := do
  let userHash ← encoded (computeUserHash hmac key post.user)
  let user := userJson (userObj userHash (profile.bind Prod.fst) (profile.bind Prod.snd) email)
  pure (.builds room (params post.appId stamp.authDate stamp.nonce.text user room res.keyId) stamp)

/-- `_handle_post` from the profile on, up to the third-party ids or to the dictionary. -/
def afterProfile (post : Post) (app : Json) (room : Option PyStr) (key : Bytes)
    (profile : Option (Option PyStr × Option PyStr)) (stamp : Stamp) : Py Refusal Resumed := do
  if ← contactAllowed app then pure (.waits { post with stage := .threepids room key profile })
  else res.build hmac post room key profile none stamp

/-- A request is resumed; `none` where it does not wait for what is given. -/
def resume (g : AppRegistry) (members : Memberships) (post : Post) (awaited : Awaited) :
    Option (Py Refusal Resumed) :=
  match post.stage, awaited with
  | .registry, .registry => some (res.afterRefresh hmac post g)
  | .membership app room, .membership readable =>
      some (res.afterMembership hmac post app room
        (if readable then members.get? (room, post.user) else none))
  | .profile app room key, .profile profile stamp =>
      some (res.afterProfile hmac post app room key profile stamp)
  | .threepids room key profile, .threepids threepids stamp =>
      some (res.build hmac post room key profile (threepids.bind emailOf) stamp)
  | _, _ => none

end InitDataResource

/-! ### The validation of a nonce -/

/-- The parameters of a request, decoded; the first one of each name. -/
structure NonceQuery where
  nonce : Option PyStr
  app : Option PyStr
  room : Option PyStr

/-- The answer: an exception of the check of the access, a refusal, or `{"valid": …}`. -/
inductive NonceReply where
  | raises (e : AccessError)
  | refused (r : Refusal)
  | valid (b : Bool)
deriving DecidableEq

/-- `ValidateNonceResource._handle_get`. -/
def ValidateNonceResource.handleGet (r : ValidateNonceResource) (request : AccessRequest)
    (query : NonceQuery) (now : ℚ) (s : NonceStore) : NonceReply × NonceStore :=
  match r.checkAccess request with
  | .error e => (.raises e, s)
  | .ok false => (.refused ⟨"forbidden", "Доступ запрещён", 403⟩, s)
  | .ok true =>
      match query.nonce.getD [] with
      | [] => (.refused ⟨"bad_request", "Параметр nonce обязателен", 400⟩, s)
      | c :: nonce =>
          let v := s.validateAndConsume (c :: nonce) query.app query.room now
          (.valid v.1, v.2)

/-! ### The service -/

/-- A dictionary that was built, and what its nonce is bound to. -/
structure Built where
  nonce : Token
  entry : NonceEntry
  params : Params

/-- What the resources share, the requests that wait, and what was built. -/
structure Service where
  registry : RefreshState
  members : Memberships
  limiter : RateLimiter
  nonces : NonceStore
  posts : List Post
  built : List Built

/-- What may happen. -/
inductive ServiceAct where
  | post (user : PyStr) (body : Option Json) (now : ℚ)
  | resume (i : ℕ) (awaited : Awaited)
  | registry (a : RefreshAct)
  | membership (room user : PyStr) (membership : Option PyStr)
  | validate (request : AccessRequest) (query : NonceQuery) (now : ℚ)
  | cleanup (now : ℚ)

namespace Service

/-- A service that nobody has called. -/
def start (registry : RefreshState) (members : Memberships) (limiter : RateLimiter) (ttl : ℚ) :
    Service :=
  ⟨registry, members, limiter, ⟨ttl, []⟩, [], []⟩

/-- A request was resumed: it is answered with an error, waits again, or is answered. -/
def settle (s : Service) (i : ℕ) (post : Post) : Py Refusal Resumed → Service
  | .error _ => { s with posts := s.posts.eraseIdx i }
  | .ok (.waits next) => { s with posts := s.posts.set i next }
  | .ok (.builds room params stamp) => { s with
      posts := s.posts.eraseIdx i
      nonces := s.nonces.create stamp.nonce.text post.user post.appId room stamp.created
      built := ⟨stamp.nonce, ⟨post.user, post.appId, room.getD [], stamp.created⟩, params⟩ :: s.built }

end Service

/-- One step. -/
def serviceStep (R : Rounding) (hmac : Bytes → Bytes → Bytes) (res : InitDataResource)
    (r : ValidateNonceResource) (s : Service) : ServiceAct → Option Service
  | .post user body now =>
      let checked := s.limiter.check R user now
      let s := { s with limiter := checked.2 }
      match InitDataResource.beginPost checked.1 user body with
      | .error _ => some s
      | .ok post => (refreshStep s.registry (.maybeRefresh now)).map fun registry =>
          { s with registry := registry, posts := s.posts ++ [post] }
  | .resume i awaited => do
      let post ← s.posts[i]?
      let result ← res.resume hmac s.registry.registry.toAppRegistry s.members post awaited
      some (s.settle i post result)
  | .registry a => (refreshStep s.registry a).map fun registry => { s with registry := registry }
  | .membership room user (some membership) =>
      some { s with members := s.members.set (room, user) membership }
  | .membership room user none => some { s with members := s.members.erase (room, user) }
  | .validate request query now =>
      some { s with nonces := (r.handleGet request query now s.nonces).2 }
  | .cleanup now => some { s with nonces := (s.nonces.cleanup now).2 }

/-! ### What a request knows -/

section Requests

variable {hmac : Bytes → Bytes → Bytes} {res : InitDataResource} {W W' : AppRegistry → Prop}
  {J J' : PyStr → PyStr → Prop} {K K' : PyStr → Json → Prop} {post next : Post} {app : Json}
  {room : Option PyStr}
  {key : Bytes} {profile : Option (Option PyStr × Option PyStr)} {stamp : Stamp}

/-- The room was looked at, where it is to be: the user is one of those that `J` says of. -/
def Admitted (res : InitDataResource) (J : PyStr → PyStr → Prop) (user : PyStr)
    (room : Option PyStr) : Prop :=
  res.verifyRoomMembership = true → ∀ r ∈ room, J r user

/-- What a request has found in a registry that `W` says of, and what it has checked. -/
structure Post.Found (W : AppRegistry → Prop) (post : Post) (app : Json) (room : Option PyStr) :
    Prop where
  registry : ∃ g, W g ∧ g.app post.appId = .ok app
  room_eq : roomIdOf post.body = .ok room

/-- What a request that waits has found and checked so far. -/
def Post.Backed (hmac : Bytes → Bytes → Bytes) (res : InitDataResource) (W : AppRegistry → Prop)
    (J : PyStr → PyStr → Prop) (post : Post) : Prop :=
  appIdOf post.body = .ok post.appId ∧
    match post.stage with
    | .registry => True
    | .membership app room => post.Found W app (some room)
    | .profile app room key => post.Found W app room ∧ Admitted res J post.user room ∧
        signingKey hmac res.masterSecret post.appId res.perAppKeys = some key
    | .threepids room key _ => ∃ app, post.Found W app room ∧ Admitted res J post.user room ∧
        signingKey hmac res.masterSecret post.appId res.perAppKeys = some key ∧
        contactAllowed app = .ok true

/-- The dictionary is the one that `handlePost` builds of a body that `K` says the user has sent,
for the app and the room that the body names, of a registry that `W` says of and that offers the
app; and the room was looked at. -/
def Handled (hmac : Bytes → Bytes → Bytes) (res : InitDataResource) (W : AppRegistry → Prop)
    (J : PyStr → PyStr → Prop) (K : PyStr → Json → Prop) (b : Built) : Prop :=
  ∃ call body room user, res.handlePost hmac call = .ok b.params ∧ call.userId = b.entry.user ∧
    call.body = some body ∧ K b.entry.user body ∧ appIdOf body = .ok b.entry.app ∧
    roomIdOf body = .ok room ∧
    b.params = params b.entry.app call.now b.nonce.text user room res.keyId ∧
    W call.registry ∧ call.registry.Offers b.entry.app ∧
    b.entry.room = room.getD [] ∧ Admitted res J b.entry.user room

theorem Admitted.imp {user : PyStr} (h : Admitted res J user room) (hJ : ∀ r u, J r u → J' r u) :
    Admitted res J' user room :=
  fun hverify r hr => hJ r user (h hverify r hr)

theorem Post.Found.imp (h : post.Found W app room) (hW : ∀ g, W g → W' g) :
    post.Found W' app room := by
  obtain ⟨⟨g, hg, happ⟩, hroom⟩ := h
  exact ⟨⟨g, hW g hg, happ⟩, hroom⟩

theorem Post.Backed.imp (h : post.Backed hmac res W J) (hW : ∀ g, W g → W' g)
    (hJ : ∀ r u, J r u → J' r u) : post.Backed hmac res W' J' := by
  obtain ⟨happ, hstage⟩ := h
  refine ⟨happ, ?_⟩
  split at hstage
  · trivial
  · exact hstage.imp hW
  · exact ⟨hstage.1.imp hW, hstage.2.1.imp hJ, hstage.2.2⟩
  · obtain ⟨app, hfound, hadmitted, hrest⟩ := hstage
    exact ⟨app, hfound.imp hW, hadmitted.imp hJ, hrest⟩

theorem Handled.imp {b : Built} (h : Handled hmac res W J K b) (hW : ∀ g, W g → W' g)
    (hJ : ∀ r u, J r u → J' r u) (hK : ∀ u body, K u body → K' u body) :
    Handled hmac res W' J' K' b := by
  obtain ⟨call, body, room, user, hcall, huser, hbody, hasked, happ, hroom, hparams, hg, hoffers,
    hentry, hadmitted⟩ := h
  exact ⟨call, body, room, user, hcall, huser, hbody, hK _ _ hasked, happ, hroom, hparams, hW _ hg,
    hoffers, hentry, hadmitted.imp hJ⟩

/-- **With nothing in between a request is `handlePost`.** -/
theorem handlePost_eq {body : Json} {call : Call} {a : PyStr} {contact : Bool} {hash : PyStr}
    (hrate : call.rateOk = true) (hbody : call.body = some body) (ha : appIdOf body = .ok a)
    (happ : call.registry.app a = .ok app) (hroom : roomIdOf body = .ok room)
    (hjoin : call.membership = some (py "join"))
    (hkey : signingKey hmac res.masterSecret a res.perAppKeys = some key)
    (hcontact : contactAllowed app = .ok contact)
    (hhash : computeUserHash hmac key call.userId = some hash) :
    res.handlePost hmac call = .ok (params a call.now call.nonce.text
      (userJson (userObj hash (call.profile.bind Prod.fst) (call.profile.bind Prod.snd)
        (if contact then call.threepids.bind emailOf else none))) room res.keyId) := by
  unfold appIdOf at ha
  unfold roomIdOf at hroom
  unfold InitDataResource.handlePost
  simp only [require, readBody, hrate, hbody, ha, happ, hroom, hjoin, hkey, hcontact, hhash, encoded,
    if_true, pure_bind, Py.ok_bind, beq_self_eq_true, Bool.or_true]
  rfl

/-- What a request has come to. -/
def Resumed.Backed (hmac : Bytes → Bytes → Bytes) (res : InitDataResource) (W : AppRegistry → Prop)
    (J : PyStr → PyStr → Prop) (K : PyStr → Json → Prop) (post : Post) : Resumed → Prop
  | .waits next => next.Backed hmac res W J
  | .builds room params stamp => Handled hmac res W J K
      ⟨stamp.nonce, ⟨post.user, post.appId, room.getD [], stamp.created⟩, params⟩

variable {r : Resumed}

theorem withKey_backed (ha : appIdOf post.body = .ok post.appId) (hfound : post.Found W app room)
    (hadmitted : Admitted res J post.user room) (h : res.withKey hmac post app room = .ok r) :
    r.Backed hmac res W J K post := by
  obtain ⟨key, hkey, h⟩ := Py.bind_eq_ok h
  obtain rfl := Except.ok.inj h
  exact ⟨ha, ⟨hfound.registry, hfound.room_eq⟩, hadmitted, encoded_eq_ok hkey⟩

theorem afterRefresh_backed {g : AppRegistry} (ha : appIdOf post.body = .ok post.appId) (hg : W g)
    (h : res.afterRefresh hmac post g = .ok r) : r.Backed hmac res W J K post := by
  obtain ⟨app, happ, h⟩ := Py.bind_eq_ok h
  obtain ⟨room, hroom, h⟩ := Py.bind_eq_ok h
  have hfound : post.Found W app room := ⟨⟨g, hg, happ⟩, hroom⟩
  cases room with
  | none => exact withKey_backed ha hfound (fun _ r hr => by cases hr) h
  | some room =>
      by_cases hverify : res.verifyRoomMembership = true
      · simp only [hverify, if_true] at h
        obtain rfl := Except.ok.inj h
        exact ⟨ha, ⟨hfound.registry, hfound.room_eq⟩⟩
      · simp only [hverify] at h
        exact withKey_backed ha hfound (fun h => absurd h hverify) h

theorem afterMembership_backed {room : PyStr} {membership : Option PyStr}
    (ha : appIdOf post.body = .ok post.appId) (hfound : post.Found W app (some room))
    (hjoined : membership = some (py "join") → J room post.user)
    (h : res.afterMembership hmac post app room membership = .ok r) :
    r.Backed hmac res W J K post := by
  obtain ⟨u, hu, h⟩ := Py.bind_eq_ok h
  refine withKey_backed ha hfound ?_ h
  rintro - r ⟨⟩
  refine hjoined (by_contra fun hne => ?_)
  rw [require, if_neg (by simpa using hne)] at hu
  cases hu

/-- The dictionary that is built is the one of `handlePost`. -/
theorem build_backed {contact : Bool} {threepids : Option (List (PyStr × PyStr))}
    (hasked : K post.user post.body) (ha : appIdOf post.body = .ok post.appId)
    (hfound : post.Found W app room)
    (hadmitted : Admitted res J post.user room)
    (hkey : signingKey hmac res.masterSecret post.appId res.perAppKeys = some key)
    (hcontact : contactAllowed app = .ok contact)
    (h : res.build hmac post room key profile (if contact then threepids.bind emailOf else none)
      stamp = .ok r) : r.Backed hmac res W J K post := by
  obtain ⟨hash, hhash, h⟩ := Py.bind_eq_ok h
  obtain rfl := Except.ok.inj h
  obtain ⟨⟨g, hg, happ⟩, hroom⟩ := hfound
  have hne : post.appId ≠ [] := requiredStr_eq_ok ha
  exact ⟨⟨post.user, true, some post.body, g, some (py "join"), profile, threepids, stamp.nonce,
    stamp.authDate⟩, post.body, room, _, handlePost_eq rfl rfl ha happ hroom rfl hkey hcontact
      (encoded_eq_ok hhash), rfl, rfl, hasked, ha, hroom, rfl, hg,
    ⟨hne, app, contact, happ, hcontact⟩, rfl, hadmitted⟩

theorem afterProfile_backed (hasked : K post.user post.body)
    (ha : appIdOf post.body = .ok post.appId) (hfound : post.Found W app room)
    (hadmitted : Admitted res J post.user room)
    (hkey : signingKey hmac res.masterSecret post.appId res.perAppKeys = some key)
    (h : res.afterProfile hmac post app room key profile stamp = .ok r) :
    r.Backed hmac res W J K post := by
  obtain ⟨contact, hcontact, h⟩ := Py.bind_eq_ok h
  cases contact with
  | true =>
      obtain rfl := Except.ok.inj h
      exact ⟨ha, app, ⟨hfound.registry, hfound.room_eq⟩, hadmitted, hkey, hcontact⟩
  | false =>
      -- no third-party ids are asked for
      have hbuild : res.build hmac post room key profile
          (if false then (none : Option (List (PyStr × PyStr))).bind emailOf else none) stamp =
        .ok r := h
      exact build_backed hasked ha hfound hadmitted hkey hcontact hbuild

/-- **Resuming a request**: it reads the registry and the memberships of that moment, and keeps
what it has found before. -/
theorem resume_backed {g : AppRegistry} {members : Memberships} {awaited : Awaited}
    (hasked : K post.user post.body) (hpost : post.Backed hmac res W J) (hg : W g)
    (hmembers : ∀ room user, members.get? (room, user) = some (py "join") → J room user)
    (h : res.resume hmac g members post awaited = some (.ok r)) : r.Backed hmac res W J K post := by
  obtain ⟨ha, hstage⟩ := hpost
  unfold InitDataResource.resume at h
  cases hs : post.stage <;> cases awaited <;> simp only [hs, reduceCtorEq] at h hstage <;>
    replace h := Option.some.inj h
  case registry => exact afterRefresh_backed ha hg h
  case membership app room readable =>
      refine afterMembership_backed ha hstage (fun hjoin => ?_) h
      cases readable with
      | true => exact hmembers _ _ hjoin
      | false => cases hjoin
  case profile => exact afterProfile_backed hasked ha hstage.1 hstage.2.1 hstage.2.2 h
  case threepids =>
      obtain ⟨app, hfound, hadmitted, hkey, hcontact⟩ := hstage
      exact build_backed hasked ha hfound hadmitted hkey hcontact h

theorem withKey_continues (h : res.withKey hmac post app room = .ok (.waits next)) :
    next.user = post.user ∧ next.appId = post.appId ∧ next.body = post.body := by
  obtain ⟨key, -, h⟩ := Py.bind_eq_ok h
  cases h
  exact ⟨rfl, rfl, rfl⟩

/-- A request that waits again is for the same user and app, with the same body. -/
theorem resume_continues {g : AppRegistry} {members : Memberships} {awaited : Awaited}
    (h : res.resume hmac g members post awaited = some (.ok (.waits next))) :
    next.user = post.user ∧ next.appId = post.appId ∧ next.body = post.body := by
  unfold InitDataResource.resume at h
  cases hs : post.stage <;> cases awaited <;> simp only [hs, reduceCtorEq] at h <;>
    replace h := Option.some.inj h
  case registry =>
      obtain ⟨app, -, h⟩ := Py.bind_eq_ok h
      obtain ⟨room, -, h⟩ := Py.bind_eq_ok h
      cases room with
      | none => exact withKey_continues h
      | some room =>
          dsimp only at h
          split at h
          · cases h
            exact ⟨rfl, rfl, rfl⟩
          · exact withKey_continues h
  case membership =>
      obtain ⟨u, -, h⟩ := Py.bind_eq_ok h
      exact withKey_continues h
  case profile =>
      obtain ⟨contact, -, h⟩ := Py.bind_eq_ok h
      cases contact with
      | true =>
          cases h
          exact ⟨rfl, rfl, rfl⟩
      | false =>
          obtain ⟨hash, -, h⟩ := Py.bind_eq_ok h
          cases h
  case threepids =>
      obtain ⟨hash, -, h⟩ := Py.bind_eq_ok h
      cases h

/-- A request that waits for the registry is refused by one that does not list its app. -/
theorem resume_unlisted {g : AppRegistry} {members : Memberships} {awaited : Awaited}
    (hstage : post.stage = .registry) (hg : ∀ app, g.app post.appId ≠ .ok app)
    (h : res.resume hmac g members post awaited = some (.ok r)) : False := by
  unfold InitDataResource.resume at h
  cases awaited <;> simp only [hstage, reduceCtorEq] at h
  obtain ⟨app, happ, -⟩ := Py.bind_eq_ok (Option.some.inj h)
  exact hg app happ

theorem readBody_eq_ok {body : Option Json} {b : Json} (h : readBody body = .ok b) :
    body = some b := by
  cases body with
  | none => cases h
  | some b' => rw [Except.ok.inj h]

theorem beginPost_backed {rateOk : Bool} {user : PyStr} {body : Option Json}
    (h : InitDataResource.beginPost rateOk user body = .ok post) :
    post.Backed hmac res W J ∧ rateOk = true ∧ post.user = user ∧ body = some post.body := by
  obtain ⟨u, hu, h⟩ := Py.bind_eq_ok h
  obtain ⟨b, hb, h⟩ := Py.bind_eq_ok h
  obtain ⟨a, ha, h⟩ := Py.bind_eq_ok h
  obtain rfl := Except.ok.inj h
  refine ⟨⟨ha, trivial⟩, ?_, rfl, readBody_eq_ok hb⟩
  cases rateOk with
  | true => rfl
  | false => cases hu

theorem beginPost_stage {rateOk : Bool} {user : PyStr} {body : Option Json}
    (h : InitDataResource.beginPost rateOk user body = .ok post) : post.stage = .registry := by
  obtain ⟨u, -, h⟩ := Py.bind_eq_ok h
  obtain ⟨b, -, h⟩ := Py.bind_eq_ok h
  obtain ⟨a, -, h⟩ := Py.bind_eq_ok h
  obtain rfl := Except.ok.inj h
  rfl

end Requests

/-! ### What the service knows -/

section Runs

variable (R : Rounding) (hmac : Bytes → Bytes → Bytes) (res : InitDataResource)
  (r : ValidateNonceResource) (s₀ : Service)

/-- The service had the registry when it took a step. -/
def HadRegistry (as : List ServiceAct) (g : AppRegistry) : Prop :=
  Took (serviceStep R hmac res r) (fun _ _ => True) s₀
    (fun u _ => u.registry.registry.toAppRegistry = g) as

/-- The user was in the room when the service took a step. -/
def WasJoined (as : List ServiceAct) (room user : PyStr) : Prop :=
  Took (serviceStep R hmac res r) (fun _ _ => True) s₀
    (fun u _ => u.members.get? (room, user) = some (py "join")) as

/-- The user made a request with the body that the limiter let pass. -/
def Asked (as : List ServiceAct) (user : PyStr) (body : Json) : Prop :=
  Took (serviceStep R hmac res r) (fun _ _ => True) s₀
    (fun u a => ∃ now, a = .post user (some body) now ∧
      (u.limiter.check R user now).1 = true) as

/-- What is known of the requests that wait, of the dictionaries that were built and of the
nonces that are kept. -/
structure Sound (as : List ServiceAct) (s : Service) : Prop where
  posts : ∀ p ∈ s.posts, p.Backed hmac res (HadRegistry R hmac res r s₀ as)
    (WasJoined R hmac res r s₀ as) ∧ Asked R hmac res r s₀ as p.user p.body
  built : ∀ b ∈ s.built, Handled hmac res (HadRegistry R hmac res r s₀ as)
    (WasJoined R hmac res r s₀ as) (Asked R hmac res r s₀ as) b
  nonces : ∀ e ∈ s.nonces.store, ∃ b ∈ s.built, b.nonce.text = e.1 ∧ b.entry = e.2
  ttl_eq : s.nonces.ttl = s₀.nonces.ttl

variable {R hmac res r s₀} {s t : Service} {as : List ServiceAct} {a : ServiceAct}

/-- What was known stays known. -/
theorem Sound.later (h : Sound R hmac res r s₀ as s) (a : ServiceAct) :
    Sound R hmac res r s₀ (as ++ [a]) s where
  posts p hp := ⟨(h.posts p hp).1.imp (fun _ hg => hg.append _) fun _ _ hj => hj.append _,
    (h.posts p hp).2.append _⟩
  built b hb := (h.built b hb).imp (fun _ hg => hg.append _) (fun _ _ hj => hj.append _)
    fun _ _ ha => ha.append _
  nonces := h.nonces
  ttl_eq := h.ttl_eq

theorem cleanup_subset (s : NonceStore) (now : ℚ) : (s.cleanup now).2.store ⊆ s.store := by
  unfold NonceStore.cleanup
  generalize s.expired now = keys
  generalize s.store = m
  induction keys generalizing m with
  | nil => exact List.Subset.refl _
  | cons k keys ih => exact List.Subset.trans (ih _) (Assoc.erase_subset _ _)

/-- A validation takes nonces away, at most. -/
theorem handleGet_store (request : AccessRequest) (query : NonceQuery) (now : ℚ) (n : NonceStore) :
    (r.handleGet request query now n).2.store ⊆ n.store ∧
      (r.handleGet request query now n).2.ttl = n.ttl := by
  unfold ValidateNonceResource.handleGet
  split
  · exact ⟨List.Subset.refl _, rfl⟩
  · exact ⟨List.Subset.refl _, rfl⟩
  · split
    · exact ⟨List.Subset.refl _, rfl⟩
    · rename_i c nonce _
      refine ⟨?_, call_ttl n now (.validateAndConsume (c :: nonce) query.app query.room)⟩
      dsimp only
      rw [validateAndConsume_store]
      exact Assoc.erase_subset _ _

/-- **A step keeps what is known.** -/
theorem Sound.step (hrun : Exec (serviceStep R hmac res r) (fun _ _ => True) s₀ as s)
    (hs : Sound R hmac res r s₀ as s) (h : serviceStep R hmac res r s a = some t) :
    Sound R hmac res r s₀ (as ++ [a]) t := by
  have hlater := hs.later a
  cases a with
  | post user body now =>
      simp only [serviceStep] at h
      split at h
      · obtain rfl := Option.some.inj h
        exact ⟨hlater.posts, hlater.built, hlater.nonces, hlater.ttl_eq⟩
      · rename_i post hpost
        obtain ⟨registry, -, rfl⟩ := Option.map_eq_some_iff.1 h
        refine ⟨fun p hp => ?_, hlater.built, hlater.nonces, hlater.ttl_eq⟩
        rcases List.mem_append.1 hp with hp | hp
        · exact hlater.posts p hp
        · obtain rfl := List.mem_singleton.1 hp
          obtain ⟨hbacked, hok, huser, hbody⟩ := beginPost_backed hpost
          refine ⟨hbacked, Took.now hrun ⟨now, ?_, ?_⟩⟩
          · rw [huser, hbody]
          · rw [huser]
            exact hok
  | resume i awaited =>
      obtain ⟨post, hget, h⟩ := Option.bind_eq_some_iff.1 h
      obtain ⟨result, hresult, h⟩ := Option.bind_eq_some_iff.1 h
      obtain rfl := Option.some.inj h
      obtain ⟨hpost, hasked⟩ := hlater.posts post (List.mem_of_getElem? hget)
      have herase : ∀ p ∈ s.posts.eraseIdx i, p ∈ s.posts := fun p hp => List.mem_of_mem_eraseIdx hp
      cases result with
      | error e =>
          exact ⟨fun p hp => hlater.posts p (herase p hp), hlater.built, hlater.nonces,
            hlater.ttl_eq⟩
      | ok result =>
          have hbacked := resume_backed hasked hpost (Took.now hrun rfl)
            (fun room user hjoin => Took.now hrun hjoin) hresult
          cases result with
          | waits next =>
              refine ⟨fun p hp => ?_, hlater.built, hlater.nonces, hlater.ttl_eq⟩
              rcases List.mem_or_eq_of_mem_set hp with hp | rfl
              · exact hlater.posts p hp
              · obtain ⟨huser, -, hbody⟩ := resume_continues hresult
                exact ⟨hbacked, by rw [huser, hbody]; exact hasked⟩
          | builds room params stamp =>
              refine ⟨fun p hp => hlater.posts p (herase p hp), fun b hb => ?_, fun e he => ?_,
                hlater.ttl_eq⟩
              · rcases List.mem_cons.1 hb with rfl | hb
                · exact hbacked
                · exact hlater.built b hb
              · rcases Assoc.mem_set he with rfl | he
                · exact ⟨_, List.mem_cons_self, rfl, rfl⟩
                · obtain ⟨b, hb, hbound⟩ := hlater.nonces e he
                  exact ⟨b, List.mem_cons_of_mem _ hb, hbound⟩
  | registry a =>
      obtain ⟨registry, -, rfl⟩ := Option.map_eq_some_iff.1 h
      exact ⟨hlater.posts, hlater.built, hlater.nonces, hlater.ttl_eq⟩
  | membership room user membership =>
      cases membership <;> obtain rfl := Option.some.inj h <;>
        exact ⟨hlater.posts, hlater.built, hlater.nonces, hlater.ttl_eq⟩
  | validate request query now =>
      obtain rfl := Option.some.inj h
      obtain ⟨hsub, httl⟩ := handleGet_store (r := r) request query now s.nonces
      exact ⟨hlater.posts, hlater.built, fun e he => hlater.nonces e (hsub he),
        httl.trans hlater.ttl_eq⟩
  | cleanup now =>
      obtain rfl := Option.some.inj h
      exact ⟨hlater.posts, hlater.built, fun e he => hlater.nonces e (cleanup_subset _ _ he),
        hlater.ttl_eq⟩

variable {registry : RefreshState} {members : Memberships} {limiter : RateLimiter} {ttl : ℚ}

theorem sound_of_run
    (h : Exec (serviceStep R hmac res r) (fun _ _ => True)
      (.start registry members limiter ttl) as s) :
    Sound R hmac res r (.start registry members limiter ttl) as s := by
  refine h.invariant_past ⟨?_, ?_, ?_, rfl⟩ fun bs u a v hrun hs _ hstep => hs.step hrun hstep
  all_goals
    intro x hx
    cases hx

/-- **Every dictionary is one of `handlePost`.**  In every run of the service, whatever comes
between the parts of a request: what is built is what `handlePost` builds in one go, of a body that
its user has sent when the limiter let them, for the app and the room that this body names, and of a
registry that the service had and that offers the app; and where memberships are verified the user
was in the room. -/
theorem built_as_handled
    (h : Exec (serviceStep R hmac res r) (fun _ _ => True)
      (.start registry members limiter ttl) as s) :
    ∀ b ∈ s.built,
      Handled hmac res (HadRegistry R hmac res r (.start registry members limiter ttl) as)
        (WasJoined R hmac res r (.start registry members limiter ttl) as)
        (Asked R hmac res r (.start registry members limiter ttl) as) b :=
  (sound_of_run h).built

/-! A user asks for init data in a room, and the app asks whether the nonce is valid. -/

/-- A resource that verifies memberships. -/
def verifyingResource : InitDataResource := ⟨"secret", false, true, none, "1"⟩

/-- The digest of the run. -/
def sampleHmac (key msg : Bytes) : Bytes := key ++ msg

/-- What the dictionary is given. -/
def sampleStamp : Stamp := ⟨sampleNonce, 101, 101⟩

/-- A service with one app, of its configuration. -/
def shopService : Service :=
  .start (.start (.init [(py "shop", .obj [])] 60 false)) [((py "!room", py "@ann:liza"), py "join")]
    (.init 30 60) 300

/-- The request, part by part; before it is answered the user leaves the room. -/
def shopRun : List ServiceAct :=
  [.post "@ann:liza" (some (bodyFor "shop" (some "!room"))) 100, .resume 0 .registry,
    .resume 0 (.membership true), .membership "!room" "@ann:liza" (some "leave"),
    .resume 0 (.profile none sampleStamp), .resume 0 (.threepids none sampleStamp)]

/-- The app asks from the same host. -/
def shopQuery : NonceQuery := ⟨some sampleNonce.text, some "shop", some "!room"⟩

theorem shop_built_as_handled :
    ∃ s, Exec (serviceStep .none sampleHmac verifyingResource ⟨none⟩) (fun _ _ => True)
        shopService shopRun s ∧ s.built.length = 1 ∧ ∀ b ∈ s.built,
      Handled sampleHmac verifyingResource
        (HadRegistry .none sampleHmac verifyingResource ⟨none⟩ shopService shopRun)
        (WasJoined .none sampleHmac verifyingResource ⟨none⟩ shopService shopRun)
        (Asked .none sampleHmac verifyingResource ⟨none⟩ shopService shopRun) b := by
  obtain ⟨s, hrun, hlength⟩ : ∃ s, Exec (serviceStep .none sampleHmac verifyingResource ⟨none⟩)
      (fun _ _ => True) shopService shopRun s ∧ s.built.length = 1 :=
    exists_exec_of_runs (by decide +kernel)
  exact ⟨s, hrun, hlength, built_as_handled hrun⟩

theorem handleGet_valid_iff {request : AccessRequest} {query : NonceQuery} {now : ℚ}
    {n : NonceStore} :
    (r.handleGet request query now n).1 = .valid true ↔
      r.checkAccess request = .ok true ∧ ∃ nonce entry, nonce ≠ [] ∧ query.nonce = some nonce ∧
        n.store.get? nonce = some entry ∧ now - entry.createdAt ≤ n.ttl ∧
        (∀ a ∈ query.app, a = entry.app) ∧ ∀ room ∈ query.room, room = entry.room := by
  unfold ValidateNonceResource.handleGet
  cases r.checkAccess request with
  | error e => simp
  | ok b =>
      cases b with
      | false => simp
      | true =>
          rcases hnonce : query.nonce with _ | _ | ⟨c, nonce⟩
          · simp
          · simp
          · simp only [Option.getD_some, NonceReply.valid.injEq, validateAndConsume_eq, true_and,
              Option.some.injEq]
            constructor
            · rintro ⟨entry, h⟩
              exact ⟨c :: nonce, entry, List.cons_ne_nil _ _, rfl, h⟩
            · rintro ⟨n, entry, -, rfl, h⟩
              exact ⟨entry, h⟩

/-- **What a valid nonce stands for.**  In every run of the service, when a nonce is found valid: the
request is let in; a dictionary was built with the nonce at most `ttl` ago, for the app and the room
that are asked about; its user had sent a body that names this app and this room, a registry of the
service offered the app, and where memberships are verified the user was in the room. -/
theorem valid_nonce_granted {request : AccessRequest} {query : NonceQuery} {now : ℚ}
    (h : Exec (serviceStep R hmac res r) (fun _ _ => True)
      (.start registry members limiter ttl) as s)
    (hvalid : (r.handleGet request query now s.nonces).1 = .valid true) :
    r.checkAccess request = .ok true ∧ ∃ b ∈ s.built, query.nonce = some b.nonce.text ∧
      now - b.entry.createdAt ≤ ttl ∧
      (∀ a ∈ query.app, a = b.entry.app) ∧ (∀ room ∈ query.room, room = b.entry.room) ∧
      (∃ body room, Asked R hmac res r (.start registry members limiter ttl) as b.entry.user body ∧
        appIdOf body = .ok b.entry.app ∧ roomIdOf body = .ok room ∧ b.entry.room = room.getD []) ∧
      (∃ g, HadRegistry R hmac res r (.start registry members limiter ttl) as g ∧
        g.Offers b.entry.app) ∧
      (res.verifyRoomMembership = true → b.entry.room ≠ [] →
        WasJoined R hmac res r (.start registry members limiter ttl) as b.entry.room
          b.entry.user) := by
  have hs := sound_of_run h
  obtain ⟨haccess, nonce, entry, -, hnonce, hget, hage, happ, hroom⟩ := handleGet_valid_iff.1 hvalid
  obtain ⟨b, hb, htext, hentry⟩ := hs.nonces _ (Assoc.mem_of_get? hget)
  obtain rfl : b.entry = entry := hentry
  obtain rfl : b.nonce.text = nonce := htext
  obtain ⟨call, body, room, user, -, -, -, hasked, hnames, hnamed, -, hregistry, hoffers, hroomEq,
    hadmitted⟩ := hs.built b hb
  refine ⟨haccess, b, hb, hnonce, hage.trans hs.ttl_eq.le, happ, hroom,
    ⟨body, room, hasked, hnames, hnamed, hroomEq⟩, ⟨_, hregistry, hoffers⟩, fun hverify hne => ?_⟩
  cases room with
  | none => exact absurd hroomEq hne
  | some room =>
      rw [hroomEq]
      exact hadmitted hverify room rfl

theorem shop_nonce_granted :
    ∃ s, Exec (serviceStep .none sampleHmac verifyingResource ⟨none⟩) (fun _ _ => True)
        shopService shopRun s ∧ ∃ b ∈ s.built, b.nonce.text = sampleNonce.text ∧ b.entry.room ≠ [] ∧
      WasJoined .none sampleHmac verifyingResource ⟨none⟩ shopService shopRun b.entry.room
        b.entry.user := by
  obtain ⟨s, hrun, hvalid⟩ : ∃ s, Exec (serviceStep .none sampleHmac verifyingResource ⟨none⟩)
      (fun _ _ => True) shopService shopRun s ∧
      (ValidateNonceResource.handleGet ⟨none⟩ ⟨none, some (py "127.0.0.1")⟩ shopQuery 110
        s.nonces).1 = .valid true := exists_exec_of_runs (by decide +kernel)
  obtain ⟨-, b, hb, hnonce, -, -, hroom, -, -, hjoined⟩ := valid_nonce_granted hrun hvalid
  have hne : b.entry.room ≠ [] := by
    rw [← hroom _ rfl]
    decide
  exact ⟨s, hrun, b, hb, (Option.some.inj hnonce).symm, hne, hjoined rfl hne⟩

/-- What stays so while an app is not listed: no request for it gets past the registry, and its
nonces are old ones. -/
structure Unlisted (a : PyStr) (s t : Service) : Prop where
  posts : ∀ p ∈ t.posts, p.appId = a → p.stage = .registry
  built : ∀ b ∈ t.built, b.entry.app = a → b ∈ s.built
  nonces : ∀ e ∈ t.nonces.store, e.2.app = a → e ∈ s.nonces.store

theorem Unlisted.step {app : PyStr} {u : Service} (ht : Unlisted app s t)
    (hoff : ∀ record, t.registry.registry.app app ≠ .ok record)
    (h : serviceStep R hmac res r t a = some u) : Unlisted app s u := by
  cases a with
  | post user body now =>
      simp only [serviceStep] at h
      split at h
      · obtain rfl := Option.some.inj h
        exact ⟨ht.posts, ht.built, ht.nonces⟩
      · rename_i post hpost
        obtain ⟨registry, -, rfl⟩ := Option.map_eq_some_iff.1 h
        refine ⟨fun p hp happ => ?_, ht.built, ht.nonces⟩
        rcases List.mem_append.1 hp with hp | hp
        · exact ht.posts p hp happ
        · obtain rfl := List.mem_singleton.1 hp
          exact beginPost_stage hpost
  | resume i awaited =>
      obtain ⟨post, hget, h⟩ := Option.bind_eq_some_iff.1 h
      obtain ⟨result, hresult, h⟩ := Option.bind_eq_some_iff.1 h
      obtain rfl := Option.some.inj h
      have hpost := ht.posts post (List.mem_of_getElem? hget)
      have herase : ∀ p ∈ t.posts.eraseIdx i, p ∈ t.posts := fun p hp => List.mem_of_mem_eraseIdx hp
      cases result with
      | error e => exact ⟨fun p hp => ht.posts p (herase p hp), ht.built, ht.nonces⟩
      | ok result =>
          -- a request for the app cannot get on
          have hne : post.appId ≠ app := by
            rintro rfl
            exact resume_unlisted (hpost rfl) hoff hresult
          cases result with
          | waits next =>
              refine ⟨fun p hp happ => ?_, ht.built, ht.nonces⟩
              rcases List.mem_or_eq_of_mem_set hp with hp | rfl
              · exact ht.posts p hp happ
              · exact absurd ((resume_continues hresult).2.1.symm.trans happ) hne
          | builds room params stamp =>
              refine ⟨fun p hp => ht.posts p (herase p hp), fun b hb happ => ?_, fun e he happ => ?_⟩
              · rcases List.mem_cons.1 hb with rfl | hb
                · exact absurd happ hne
                · exact ht.built b hb happ
              · rcases Assoc.mem_set he with rfl | he
                · exact absurd happ hne
                · exact ht.nonces e he happ
  | registry a =>
      obtain ⟨registry, -, rfl⟩ := Option.map_eq_some_iff.1 h
      exact ⟨ht.posts, ht.built, ht.nonces⟩
  | membership room user membership =>
      cases membership <;> obtain rfl := Option.some.inj h <;>
        exact ⟨ht.posts, ht.built, ht.nonces⟩
  | validate request query now =>
      obtain rfl := Option.some.inj h
      exact ⟨ht.posts, ht.built, fun e he => ht.nonces e
        ((handleGet_store (r := r) request query now t.nonces).1 he)⟩
  | cleanup now =>
      obtain rfl := Option.some.inj h
      exact ⟨ht.posts, ht.built, fun e he => ht.nonces e (cleanup_subset _ _ he)⟩

/-- **The kill switch.**  While no registry of the service lists an app, and no request for it had
got past the registry before: nothing is built for it, and a nonce for it that is found valid,
whether or not the query names the app, is one from before, at most `ttl` old. -/
theorem unlisted_app_refused {app : PyStr}
    (h : Exec (serviceStep R hmac res r)
      (fun u _ => ∀ record, u.registry.registry.app app ≠ .ok record) s as t)
    (hposts : ∀ p ∈ s.posts, p.appId = app → p.stage = .registry) :
    (∀ b ∈ t.built, b.entry.app = app → b ∈ s.built) ∧
      ∀ request query now, (r.handleGet request query now t.nonces).1 = .valid true →
        ∃ nonce entry, query.nonce = some nonce ∧ t.nonces.store.get? nonce = some entry ∧
          now - entry.createdAt ≤ t.nonces.ttl ∧ (∀ a ∈ query.app, a = entry.app) ∧
          (entry.app = app → (nonce, entry) ∈ s.nonces.store) := by
  have ht : Unlisted app s t := h.invariant ⟨hposts, fun b hb _ => hb, fun e he _ => he⟩
    fun u a v hu hoff hstep => hu.step hoff hstep
  refine ⟨ht.built, fun request query now hvalid => ?_⟩
  obtain ⟨-, nonce, entry, -, hnonce, hget, hage, hgiven, -⟩ := handleGet_valid_iff.1 hvalid
  exact ⟨nonce, entry, hnonce, hget, hage, hgiven, ht.nonces _ (Assoc.mem_of_get? hget)⟩

/-- An app that the service no longer lists, and of which there is a nonce. -/
def closedService : Service :=
  { Service.start (.start (.init [] 60 false)) [] (.init 30 60) 300 with
    nonces := ⟨300, [(py "old", ⟨py "@ann:liza", py "shop", [], 90⟩)]⟩ }

theorem closed_shop_refused :
    ∃ t, Exec (serviceStep .none sampleHmac verifyingResource ⟨none⟩)
        (fun u _ => ∀ record, u.registry.registry.app (py "shop") ≠ .ok record) closedService
        [.post "@ann:liza" (some (bodyFor "shop" none)) 100, .resume 0 .registry] t ∧
      ∀ b ∈ t.built, b.entry.app = py "shop" → b ∈ closedService.built := by
  have hoff : ∀ record,
      (RegistryCache.init [] 60 false).toAppRegistry.app (py "shop") ≠ .ok record := by
    intro record h
    cases h
  obtain ⟨t, hrun⟩ : ∃ t, Exec (serviceStep .none sampleHmac verifyingResource ⟨none⟩)
      (fun u _ => ∀ record, u.registry.registry.app (py "shop") ≠ .ok record) closedService
      [.post "@ann:liza" (some (bodyFor "shop" none)) 100, .resume 0 .registry] t :=
    ⟨_, .cons hoff rfl (.cons hoff rfl (.nil _))⟩
  exact ⟨t, hrun, (unlisted_app_refused hrun fun p hp => by cases hp).1⟩

end Runs

end MiniApp
end Liza
