/-
# Requests for init data

`InitDataResource` of `servers/synapse/modules/miniapp/__init__.py`, with the lookups of
`AppRegistry` (`_registry.py`): what a request is answered with, up to the dictionary of
parameters that is signed.  `hmac` is the digest of `Crypto`.

The registry changes while the server runs (the developer portal publishes apps), so what a
resource can build is said of a set of registries, those it passes through in its life.

The text that is signed has one parameter a line.  No line but the first one and the ones of
the key id and of the room id can be split: the moment, the nonce and the user's JSON have
no line feeds.  An app id may be anything the registry has as a key, and with line feeds in
it the id of one app may be the id of another one followed by the lines of that one's
parameters (`Imitates`).  This is the only way for two dictionaries to have one text
(`signed_text_unambiguous_iff`).
-/

import Liza.MiniApp.Crypto
import Mathlib.Data.Set.Basic

set_option autoImplicit false

namespace Liza
namespace MiniApp

open Lib

/-! ### The registry -/

/-- The apps of the configuration, and those of the last snapshot of the developer
portal. -/
structure AppRegistry where
  static : Dict
  dynamic : Dict

/-- `AppRegistry.get`. -/
def AppRegistry.get (g : AppRegistry) (appId : PyStr) : Json :=
  if g.dynamic.contains appId then g.dynamic.get appId else g.static.get appId

/-- An answer that refuses a request: `_error`. -/
structure Refusal where
  error : PyStr
  message : PyStr
  status : ℕ
deriving DecidableEq

/-- `rec.get("status", "listed") != "suspended"`. -/
def notSuspended (rec : Json) : Py Refusal Bool :=
  match rec with
  | .obj d => pure ((Dict.get? d "status").getD (.str "listed") != .str "suspended")
  | _ => Py.throw .attributeError

/-- `AppRegistry.is_listed`. -/
def AppRegistry.isListed (g : AppRegistry) (appId : PyStr) : Py Refusal Bool :=
  match g.get appId with
  | .null => pure false
  | rec => notSuspended rec

/-! ### The request -/

/-- A character of the URL-safe base64 alphabet. -/
def isUrlSafe (c : CodePoint) : Bool :=
  (0x30 ≤ c.val ∧ c.val ≤ 0x39) ∨ (0x41 ≤ c.val ∧ c.val ≤ 0x5A) ∨ (0x61 ≤ c.val ∧ c.val ≤ 0x7A) ∨
    c = codePoint '-' ∨ c = codePoint '_'

/-- `secrets.token_urlsafe(32)`. -/
structure Token where
  text : PyStr
  length_eq : text.length = 43
  urlSafe : text.all isUrlSafe = true

/-- The configuration of the resource. -/
structure InitDataResource where
  masterSecret : PyStr
  perAppKeys : Bool
  verifyRoomMembership : Bool
  ed25519Seed : Option Bytes
  ed25519KeyId : PyStr

/-- A request, with what the server answers on the way: whether the rate limiter lets it
pass, the body (`none` where it is no JSON), the registry after `maybe_refresh`, the
membership of the user in the room, the profile and the third-party ids (`none` where the
lookup raises), the nonce and the clock. -/
structure Call where
  userId : PyStr
  rateOk : Bool
  body : Option Json
  registry : AppRegistry
  membership : Option PyStr
  profile : Option (Option PyStr × Option PyStr)
  threepids : Option (List (PyStr × PyStr))
  nonce : Token
  now : ℤ

/-- The first address of a medium. -/
def emailOf (threepids : List (PyStr × PyStr)) : Option PyStr :=
  (threepids.find? fun tp => tp.1 = py "email").map Prod.snd

/-- A field that is written when it is not empty. -/
def optionalField (k : PyStr) (v : Option PyStr) : List (PyStr × PyStr) :=
  match v with
  | some s => if s.isEmpty then [] else [(k, s)]
  | none => []

/-- `user_obj`. -/
def userObj (userHash : PyStr) (displayName avatarUrl email : Option PyStr) :
    List (PyStr × PyStr) :=
  ("id", userHash) :: (optionalField "display_name" displayName ++
    optionalField "avatar_url" avatarUrl ++ optionalField "email" email)

/-- `json.dumps(user_obj, ensure_ascii=False)`. -/
def userJson (obj : List (PyStr × PyStr)) : PyStr :=
  (Json.obj (obj.map fun e => (e.1, .str e.2))).dumps

/-- The dictionary of parameters. -/
def params (appId : PyStr) (authDate : ℤ) (nonce user : PyStr) (roomId keyId : Option PyStr) :
    Params :=
  [(py "app_id", appId), (py "auth_date", py (toString authDate)), (py "nonce", nonce),
    (py "user", user)] ++
    (roomId.map fun r => (py "room_id", r)).toList ++ (keyId.map fun k => (py "key_id", k)).toList

/-- `if not ok: self._error(...); return`. -/
def require (ok : Bool) (refusal : Refusal) : Py Refusal Unit :=
  if ok then pure () else Py.throw (.user refusal)

/-- `_read_body`, or the refusal of a body that is no JSON. -/
def readBody (body : Option Json) : Py Refusal Json :=
  match body with
  | some body => pure body
  | none => Py.throw (.user ⟨"bad_request", "Invalid JSON body", 400⟩)

/-- `body.get(k)`, `None` as `none`, or the refusal where it is neither `None` nor a string
that is not empty. -/
def optionalStr (body : Json) (k : PyStr) (refusal : Refusal) : Py Refusal (Option PyStr) := do
  match ← body.getAttr k with
  | .null => pure none
  | .str s => if s.isEmpty then Py.throw (.user refusal) else pure (some s)
  | _ => Py.throw (.user refusal)

/-- `body.get(k)`, or the refusal where it is no string or an empty one. -/
def requiredStr (body : Json) (k : PyStr) (refusal : Refusal) : Py Refusal PyStr := do
  match ← optionalStr body k refusal with
  | some s => pure s
  | none => Py.throw (.user refusal)

/-- The bytes of a text, or the exception of `str.encode`. -/
def encoded {α : Type} (x : Option α) : Py Refusal α :=
  match x with
  | some a => pure a
  | none => Py.throw .unicodeEncodeError

/-- The app of a request, or its refusal. -/
def AppRegistry.app (g : AppRegistry) (appId : PyStr) : Py Refusal Json := do
  require (g.get appId != .null)
    ⟨"not_found", py "Приложение '" ++ appId ++ py "' не зарегистрировано", 404⟩
  require (← g.isListed appId) ⟨"suspended", py "Приложение '" ++ appId ++ py "' отключено", 403⟩
  pure (g.get appId)

/-- `scopes is None or _SCOPE_CONTACT in scopes`. -/
def contactAllowed (app : Json) : Py Refusal Bool := do
  let scopes ← app.getAttr "scopes"
  if scopes = .null then pure true else scopes.has "users:contact"

/-- The registry has the app and does not refuse it, and the record of the app is one the
request can be answered with. -/
def AppRegistry.Offers (g : AppRegistry) (a : PyStr) : Prop :=
  a ≠ [] ∧ ∃ app b, g.app a = .ok app ∧ contactAllowed app = .ok b

namespace InitDataResource

variable (hmac : Bytes → Bytes → Bytes) (res : InitDataResource)

/-- The hash of a user for an app. -/
def userHash (appId userId : PyStr) : Option PyStr := do
  computeUserHash hmac (← signingKey hmac res.masterSecret appId res.perAppKeys) userId

/-- The key id of the parameters: there is one when there is a key. -/
def keyId : Option PyStr := res.ed25519Seed.map fun _ => res.ed25519KeyId

/-- `_handle_post`, up to the dictionary that is signed. -/
def handlePost (call : Call) : Py Refusal Params := do
  require call.rateOk ⟨"rate_limited", "Слишком много запросов, попробуйте позже", 429⟩
  let body ← readBody call.body
  let appId ← requiredStr body "app_id" ⟨"bad_request", "app_id is required", 400⟩
  let app ← call.registry.app appId
  let roomId ← optionalStr body "room_id"
    ⟨"bad_request", "room_id должен быть непустой строкой", 400⟩
  require (!(roomId.isSome && res.verifyRoomMembership) || call.membership == some (py "join"))
    ⟨"forbidden", "Вы не участник указанной комнаты", 403⟩
  let key ← encoded (signingKey hmac res.masterSecret appId res.perAppKeys)
  let contact ← contactAllowed app
  let userHash ← encoded (computeUserHash hmac key call.userId)
  let user := userJson (userObj userHash (call.profile.bind Prod.fst) (call.profile.bind Prod.snd)
    (if contact then call.threepids.bind emailOf else none))
  pure (params appId call.now call.nonce.text user roomId res.keyId)

/-- A dictionary the resource can build in its life. -/
def Builds (life : Set AppRegistry) (p : Params) : Prop :=
  ∃ call : Call, call.registry ∈ life ∧ res.handlePost hmac call = .ok p

/-- The signed text determines the dictionary. -/
def Unambiguous (life : Set AppRegistry) : Prop :=
  ∀ p q, res.Builds hmac life p → res.Builds hmac life q →
    buildDataCheckString p = buildDataCheckString q → p = q

end InitDataResource

/-! ### The lines of the text -/

/-- The line of the moment. -/
def authLine (d : ℤ) : PyStr := py "\nauth_date=" ++ py (toString d)

/-- The line of the key id. -/
def keyLine (k : Option PyStr) : PyStr := k.elim [] fun k => py "\nkey_id=" ++ k

/-- The line of the nonce. -/
def nonceLine (n : Token) : PyStr := py "\nnonce=" ++ n.text

/-- The line of the room id. -/
def roomLine (r : Option PyStr) : PyStr := r.elim [] fun r => py "\nroom_id=" ++ r

/-- The line of the user. -/
def userLine (u : PyStr) : PyStr := py "\nuser=" ++ u

/-- The lines between the app id and the user. -/
def lines (k : Option PyStr) (d : ℤ) (n : Token) (r : Option PyStr) : PyStr :=
  authLine d ++ (keyLine k ++ (nonceLine n ++ roomLine r))

theorem sortedStrs_params (a : PyStr) (d : ℤ) (n u : PyStr) (r k : Option PyStr) :
    sortedStrs ((params a d n u r k).map Prod.fst) =
      [py "app_id", py "auth_date"] ++ (k.map fun _ => py "key_id").toList ++ [py "nonce"] ++
        (r.map fun _ => py "room_id").toList ++ [py "user"] := by
  cases r <;> cases k <;>
    simp only [params, Option.map_none, Option.map_some, Option.toList, List.append_nil,
      List.map_cons, List.map_nil, List.cons_append, List.nil_append] <;>
    decide

theorem item_params (a : PyStr) (d : ℤ) (n u : PyStr) (r k : Option PyStr) :
    (params a d n u r k).item "app_id" = a ∧
    (params a d n u r k).item "auth_date" = py (toString d) ∧
    (params a d n u r k).item "nonce" = n ∧
    (params a d n u r k).item "user" = u ∧
    (∀ s, r = some s → (params a d n u r k).item "room_id" = s) ∧
    (∀ s, k = some s → (params a d n u r k).item "key_id" = s) := by
  have hpy : ∀ s t : String, (py s == py t) = (s == t) := by
    intro s t
    rw [Bool.eq_iff_iff, beq_iff_eq, beq_iff_eq, py_inj]
  cases r <;> cases k <;> simp [params, Params.item, List.lookup_cons, hpy]

/-- The text of the parameters, line by line. -/
theorem dataCheckString_params (a : PyStr) (d : ℤ) (n : Token) (u : PyStr) (r k : Option PyStr) :
    buildDataCheckString (params a d n.text u r k) =
      py "app_id=" ++ (a ++ (authLine d ++ (keyLine k ++ (nonceLine n ++
        (roomLine r ++ userLine u))))) := by
  have happ : py "app_id=" = py "app_id" ++ py "=" := by decide
  have hauth : py "\nauth_date=" = py "\n" ++ (py "auth_date" ++ py "=") := by decide
  have hkey : py "\nkey_id=" = py "\n" ++ (py "key_id" ++ py "=") := by decide
  have hnonce : py "\nnonce=" = py "\n" ++ (py "nonce" ++ py "=") := by decide
  have hroom : py "\nroom_id=" = py "\n" ++ (py "room_id" ++ py "=") := by decide
  have huser : py "\nuser=" = py "\n" ++ (py "user" ++ py "=") := by decide
  obtain ⟨ha, hd, hn, hu, hr, hk⟩ := item_params a d n.text u r k
  unfold buildDataCheckString
  rw [sortedStrs_params]
  cases r <;> cases k <;>
    simp [joinStrs, authLine, keyLine, nonceLine, roomLine, userLine, ha, hd, hn, hu, hr, hk, happ,
      hauth, hkey, hnonce, hroom, huser]

/-- A decimal number is one line. -/
theorem newline_notMem_toString (d : ℤ) : newline ∉ py (toString d) := by
  have hdigits : ∀ m : ℕ, '\n' ∉ (Nat.repr m).toList := by
    intro m h
    rw [Nat.toList_repr] at h
    exact absurd (Nat.isDigit_of_mem_toDigits (by decide) (by decide) h) (by decide)
  have hchar : '\n' ∉ (toString d).toList := by
    cases d with
    | ofNat m => exact hdigits m
    | negSucc m =>
        show '\n' ∉ ("-" ++ Nat.repr (m + 1)).toList
        rw [String.toList_append, List.mem_append, not_or]
        exact ⟨by decide, hdigits _⟩
  intro h
  obtain ⟨c, hc, hnl⟩ := List.mem_map.1 h
  exact hchar (codePoint_injective hnl ▸ hc)

theorem newline_notMem_token (n : Token) : newline ∉ n.text := by
  intro h
  exact absurd (List.all_eq_true.1 n.urlSafe _ h) (by decide)

/-- A line of the text, without the line feed it starts with. -/
theorem authLine_eq (d : ℤ) : authLine d = newline :: (py "auth_date=" ++ py (toString d)) := by
  have h : py "\nauth_date=" = newline :: py "auth_date=" := by decide
  rw [authLine, h, List.cons_append]

theorem nonceLine_eq (n : Token) : nonceLine n = newline :: (py "nonce=" ++ n.text) := by
  have h : py "\nnonce=" = newline :: py "nonce=" := by decide
  rw [nonceLine, h, List.cons_append]

theorem userLine_eq (u : PyStr) : userLine u = newline :: (py "user=" ++ u) := by
  have h : py "\nuser=" = newline :: py "user=" := by decide
  rw [userLine, h, List.cons_append]

theorem roomLine_some (r : PyStr) : roomLine (some r) = newline :: (py "room_id=" ++ r) := by
  have h : py "\nroom_id=" = newline :: py "room_id=" := by decide
  rw [roomLine, Option.elim_some, h, List.cons_append]

theorem auth_oneLine (d : ℤ) : newline ∉ py "auth_date=" ++ py (toString d) := by
  rw [List.mem_append, not_or]
  exact ⟨by decide, newline_notMem_toString d⟩

theorem nonce_oneLine (n : Token) : newline ∉ py "nonce=" ++ n.text := by
  rw [List.mem_append, not_or]
  exact ⟨by decide, newline_notMem_token n⟩

/-! ### What a request builds -/

variable {hmac : Bytes → Bytes → Bytes} {res : InitDataResource} {call : Call} {p : Params}

theorem optionalStr_eq_ok {body : Json} {k : PyStr} {f : Refusal} {r : Option PyStr}
    (h : optionalStr body k f = .ok r) : r ≠ some [] := by
  obtain ⟨v, -, h⟩ := Py.bind_eq_ok h
  cases v with
  | null => 
      obtain rfl := Except.ok.inj h
      simp
  | str s => 
      cases s with
      | nil => cases h
      | cons c s =>
          obtain rfl := Except.ok.inj h
          simp
  | _ => cases h

theorem requiredStr_eq_ok {body : Json} {k : PyStr} {f : Refusal} {s : PyStr}
    (h : requiredStr body k f = .ok s) : s ≠ [] := by
  obtain ⟨r, hr, h⟩ := Py.bind_eq_ok h
  have hne := optionalStr_eq_ok hr
  cases r with
  | none => cases h
  | some t =>
      obtain rfl := Except.ok.inj h
      simpa using hne

theorem encoded_eq_ok {α : Type} {x : Option α} {a : α} (h : encoded x = .ok a) : x = some a := by
  cases x with
  | none => cases h
  | some b => rw [Except.ok.inj h]

/-- What stands in a dictionary that is built. -/
theorem handlePost_eq_ok (h : res.handlePost hmac call = .ok p) :
    ∃ a r hash rest, call.registry.Offers a ∧ r ≠ some [] ∧
      res.userHash hmac a call.userId = some hash ∧
      p = params a call.now call.nonce.text (userJson (("id", hash) :: rest)) r res.keyId := by
  obtain ⟨-, -, h⟩ := Py.bind_eq_ok h
  obtain ⟨body, -, h⟩ := Py.bind_eq_ok h
  obtain ⟨a, ha, h⟩ := Py.bind_eq_ok h
  obtain ⟨app, happ, h⟩ := Py.bind_eq_ok h
  obtain ⟨r, hr, h⟩ := Py.bind_eq_ok h
  obtain ⟨-, -, h⟩ := Py.bind_eq_ok h
  obtain ⟨key, hkey, h⟩ := Py.bind_eq_ok h
  obtain ⟨b, hb, h⟩ := Py.bind_eq_ok h
  obtain ⟨hash, hhash, h⟩ := Py.bind_eq_ok h
  have hne : a ≠ [] := requiredStr_eq_ok ha
  refine ⟨a, r, hash, _, ⟨hne, app, b, happ, hb⟩, optionalStr_eq_ok hr, ?_, (Except.ok.inj h).symm⟩
  rw [InitDataResource.userHash, encoded_eq_ok hkey]
  exact encoded_eq_ok hhash


/-- The body of a request for an app, in a room or in none. -/
def bodyFor (a : PyStr) (r : Option PyStr) : Json :=
  .obj [(py "app_id", .str a), (py "room_id", (r.map Json.str).getD .null)]

/-- Any app that is offered, any room, moment and nonce: the dictionary can be built. -/
theorem handlePost_bodyFor {g : AppRegistry} {a u hash : PyStr} {r : Option PyStr} (ha : g.Offers a)
    (hr : r ≠ some []) (hu : res.userHash hmac a u = some hash) (d : ℤ) (n : Token) :
    res.handlePost hmac ⟨u, true, some (bodyFor a r), g, some "join", none, none, n, d⟩ =
      .ok (params a d n.text (userJson [("id", hash)]) r res.keyId) := by
  obtain ⟨hne, app, b, happ, hb⟩ := ha
  obtain ⟨key, hkey, hhash⟩ := Option.bind_eq_some_iff.1 hu
  have hbody : requiredStr (bodyFor a r) "app_id" ⟨"bad_request", "app_id is required", 400⟩ =
      .ok a := by
    cases a with
    | nil => exact absurd rfl hne
    | cons c a => rfl
  have hroom : optionalStr (bodyFor a r) "room_id"
      ⟨"bad_request", "room_id должен быть непустой строкой", 400⟩ = .ok r := by
    cases r with
    | none => rfl
    | some s =>
        cases s with
        | nil => exact absurd rfl hr
        | cons c s => rfl
  unfold InitDataResource.handlePost
  simp only [require, readBody, hbody, happ, hroom, hkey, hhash, hb, encoded, if_true, pure_bind, 
    Py.ok_bind]
  simp [userObj, optionalField]
  rfl


/-! ### Two dictionaries with one text -/

namespace InitDataResource

/-- The id of an app takes the line of the key id of another one apart; only a key id of
several lines can be taken apart. -/
def TakesKeyApart (res : InitDataResource) (a a' : PyStr) : Prop :=
  ∃ (d d' : ℤ) (n n' : Token) (r r' : Option PyStr) (y z : PyStr), r ≠ some [] ∧ r' ≠ some [] ∧
    z ≠ [] ∧ keyLine res.keyId = y ++ z ∧ a' = a ++ (authLine d ++ y) ∧
    z ++ (nonceLine n ++ roomLine r) = lines res.keyId d' n' r'

/-- The id `a'` is the id `a`, followed by the lines of a dictionary of that app up to the
start of its room id. -/
def Imitates (res : InitDataResource) (a a' : PyStr) : Prop :=
  (∃ (d : ℤ) (n : Token) (s : PyStr),
    a' = a ++ (authLine d ++ (keyLine res.keyId ++ (nonceLine n ++ (py "\nroom_id=" ++ s))))) ∨
  res.TakesKeyApart a a'

/-- Two apps of the registry, one of which imitates the other, and two users whose hashes
for them are the same; with one key for all apps that is any user. -/
def Confusable (hmac : Bytes → Bytes → Bytes) (res : InitDataResource) (life : Set AppRegistry) :
    Prop :=
  ∃ g ∈ life, ∃ g' ∈ life, ∃ a a', g.Offers a ∧ g'.Offers a' ∧ res.Imitates a a' ∧
    ∃ u u' hash, res.userHash hmac a u = some hash ∧ res.userHash hmac a' u' = some hash

end InitDataResource

variable {k r r' : Option PyStr} {d d' : ℤ} {n n' : Token} {a a' x : PyStr}

theorem roomLine_injective (h : roomLine r = roomLine r') : r = r' := by
  cases r with
  | none =>
      cases r' with
      | none => rfl
      | some s' => rw [roomLine_some] at h; cases h
  | some s =>
      cases r' with
      | none => rw [roomLine_some] at h; cases h
      | some s' =>
          rw [roomLine_some, roomLine_some] at h
          rw [List.append_cancel_left (List.cons.inj h).2]

/-- What follows the line of the moment starts a line. -/
theorem exists_newline (k : Option PyStr) (n : Token) (r : Option PyStr) :
    ∃ s, keyLine k ++ (nonceLine n ++ roomLine r) = newline :: s := by
  cases k with
  | none => exact ⟨_, by rw [nonceLine_eq]; rfl⟩
  | some k =>
      have h : py "\nkey_id=" = newline :: py "key_id=" := by decide
      exact ⟨_, by rw [keyLine, Option.elim_some, h]; rfl⟩

/-- The lines determine what they hold. -/
theorem lines_injective (h : lines k d n r = lines k d' n' r') :
    toString d = toString d' ∧ n.text = n'.text ∧ r = r' := by
  obtain ⟨s, hs⟩ := exists_newline k n r
  obtain ⟨s', hs'⟩ := exists_newline k n' r'
  rw [lines, lines, authLine_eq, authLine_eq, List.cons_append, List.cons_append] at h
  have hlines := (List.cons.inj h).2
  rw [hs, hs'] at hlines
  obtain ⟨hd, hrest⟩ := append_cons_inj (auth_oneLine d) (auth_oneLine d') hlines
  have hd' : toString d = toString d' := py_injective (List.append_cancel_left hd)
  rw [← List.cons_inj_right newline, ← hs, ← hs'] at hrest
  have hnonce := List.append_cancel_left hrest
  -- All nonces have the same length.
  have hlength : (nonceLine n).length = (nonceLine n').length := by
    simp [nonceLine, n.length_eq, n'.length_eq]
  obtain ⟨hn, hr⟩ := List.append_inj hnonce hlength
  exact ⟨hd', List.append_cancel_left hn, roomLine_injective hr⟩

theorem lines_eq (k : Option PyStr) (d : ℤ) (n : Token) (r : Option PyStr) :
    lines k d n r = newline :: ((py "auth_date=" ++ py (toString d)) ++
      (keyLine k ++ (nonceLine n ++ roomLine r))) := by
  rw [lines, authLine_eq, List.cons_append]

/-- What stands before lines inside the lines of the nonce and the room goes into the
room id. -/
theorem passes_nonce (h : x ++ lines k d' n' r' = nonceLine n ++ roomLine r) :
    ∃ s, x = nonceLine n ++ (py "\nroom_id=" ++ s) := by
  have hroom : py "\nroom_id=" = newline :: py "room_id=" := by decide
  have hauth : py "auth_date=" = codePoint 'a' :: py "uth_date=" := by decide
  rw [lines_eq, nonceLine_eq n, List.cons_append] at h
  cases x with
  | nil =>
      -- `auth_date=` is no `nonce=`.
      have hnonce : py "nonce=" = codePoint 'n' :: py "once=" := by decide
      rw [hauth, hnonce] at h
      exact absurd (List.cons.inj (List.cons.inj h).2).1 (by decide)
  | cons c x =>
      obtain ⟨rfl, hx⟩ := List.cons.inj h
      obtain ⟨y, rfl, hy⟩ := passes_line (nonce_oneLine n) hx
      cases r with
      | none => exact absurd hy (by simp [roomLine])
      | some s =>
          rw [roomLine_some] at hy
          cases y with
          | nil =>
              -- Nor is it `room_id=`.
              have hroom' : py "room_id=" = codePoint 'r' :: py "oom_id=" := by decide
              rw [hauth, hroom'] at hy
              exact absurd (List.cons.inj (List.cons.inj hy).2).1 (by decide)
          | cons c y =>
              obtain ⟨rfl, hz⟩ := List.cons.inj hy
              obtain ⟨s', rfl, -⟩ := passes_line (by decide) hz
              exact ⟨s', by rw [nonceLine_eq, hroom]; rfl⟩

/-- **How one app id can take in lines of another dictionary.** -/
theorem extends_cases (h : x ++ lines k d' n' r' = lines k d n r) :
    x = [] ∨
    (∃ s, x = authLine d ++ (keyLine k ++ (nonceLine n ++ (py "\nroom_id=" ++ s)))) ∨
    (∃ y z, z ≠ [] ∧ keyLine k = y ++ z ∧ x = authLine d ++ y ∧
      z ++ (nonceLine n ++ roomLine r) = lines k d' n' r') := by
  cases x with
  | nil => exact .inl rfl
  | cons c x =>
      right
      -- The line of the moment is passed over as a whole.
      rw [lines_eq k d n r, lines_eq k d', List.cons_append] at h
      obtain ⟨rfl, hx⟩ := List.cons.inj h
      obtain ⟨y, rfl, hy⟩ := passes_line (auth_oneLine d) hx
      rw [← lines_eq] at hy
      -- The line of the key id may be passed over or taken apart.
      obtain ⟨z, hz, hrest⟩ | ⟨z, rfl, hrest⟩ := List.append_eq_append_iff.1 hy
      · by_cases hne : z = []
        · subst hne
          obtain ⟨s, hs⟩ := passes_nonce (x := []) hrest
          cases hs
        · exact .inr ⟨y, z, hne, hz, by rw [authLine_eq]; rfl, hrest.symm⟩
      · obtain ⟨s, rfl⟩ := passes_nonce hrest.symm
        exact .inl ⟨s, by rw [authLine_eq]; rfl⟩

/-- A key id of one line is not taken apart. -/
theorem not_takesKeyApart (h : newline ∉ res.ed25519KeyId) : ¬res.TakesKeyApart a a' := by
  rintro ⟨d, d', n, n', r, r', y, z, -, -, hz, hkey, -, hlines⟩
  have hauth : py "auth_date=" = codePoint 'a' :: py "uth_date=" := by decide
  have hstart : py "\nkey_id=" = newline :: (codePoint 'k' :: py "ey_id=") := by decide
  cases z with
  | nil => exact hz rfl
  | cons c z =>
      rw [lines_eq, List.cons_append, hauth] at hlines
      obtain ⟨rfl, hrest⟩ := List.cons.inj hlines
      cases hk : res.keyId with
      | none => simp [hk, keyLine] at hkey
      | some k =>
          obtain ⟨seed, -, rfl⟩ := Option.map_eq_some_iff.1 hk
          rw [hk, keyLine, Option.elim_some, hstart] at hkey
          cases y with
          | nil =>
              obtain ⟨-, rfl⟩ := List.cons.inj hkey
              exact absurd (List.cons.inj hrest).1 (by decide)
          | cons c y =>
              have heq : codePoint 'k' :: py "ey_id=" ++ res.ed25519KeyId = y ++ newline :: z :=
                (List.cons.inj hkey).2
              have hmem : newline ∈ codePoint 'k' :: py "ey_id=" ++ res.ed25519KeyId := by
                rw [heq]
                simp
              have hnot : newline ∉ codePoint 'k' :: py "ey_id=" := by decide
              exact (List.mem_append.1 hmem).elim hnot h

theorem userJson_one_line (obj : List (PyStr × PyStr)) : newline ∉ py "user=" ++ userJson obj := by
  rw [List.mem_append, not_or]
  exact ⟨by decide, newline_notMem_dumps obj⟩

/-- The hash is read back from the user's JSON. -/
theorem userJson_hash {b b' : Bytes} {l l' : List (PyStr × PyStr)}
    (h : userJson (("id", hex b) :: l) = userJson (("id", hex b') :: l')) : hex b = hex b' := by
  have hstart : ∀ (b : Bytes) (l : List (PyStr × PyStr)), ∃ s,
      userJson (("id", hex b) :: l) = py "\x7b\"id\": \"" ++ (hex b ++ codePoint '"' :: s) := by
    intro b l
    have hquote : py "\x7b\"id\": \"" = py "\x7b" ++ quoteText "id" ++ py ": " ++ py "\"" := by
      decide
    have hend : py "\"" = [codePoint '"'] := by decide
    cases l with
    | nil =>
        refine ⟨py "\x7d", ?_⟩
        simp [userJson, Json.dumps, Json.dumpsDict, quoteText, flatMap_escapeControl_hex, hquote, hend]
    | cons e l =>
        refine ⟨py ", " ++ (Json.dumpsDict ((e :: l).map fun e => (e.1, .str e.2)) ++ py "\x7d"), ?_⟩
        simp [userJson, Json.dumps, Json.dumpsDict, quoteText, flatMap_escapeControl_hex, hquote, hend]
  obtain ⟨s, hs⟩ := hstart b l
  obtain ⟨s', hs'⟩ := hstart b' l'
  rw [hs, hs'] at h
  exact (append_cons_inj (quote_notMem_hex b) (quote_notMem_hex b')
    (List.append_cancel_left h)).1

theorem userHash_eq_hex {u hash : PyStr} (h : res.userHash hmac a u = some hash) :
    ∃ b, hash = hex b := by
  obtain ⟨key, -, h⟩ := Option.bind_eq_some_iff.1 h
  obtain ⟨m, -, h⟩ := Option.bind_eq_some_iff.1 h
  exact ⟨_, (Option.some.inj h).symm⟩

variable {life : Set AppRegistry}

/-- What stands before the user in two equal texts, and the user. -/
theorem dataCheckString_inj {u u' : PyStr} (hu : newline ∉ py "user=" ++ u)
    (hu' : newline ∉ py "user=" ++ u')
    (h : buildDataCheckString (params a d n.text u r k) =
      buildDataCheckString (params a' d' n'.text u' r' k)) :
    a ++ lines k d n r = a' ++ lines k d' n' r' ∧ u = u' := by
  rw [dataCheckString_params, dataCheckString_params, userLine_eq, userLine_eq] at h
  have hsplit : ∀ (a : PyStr) (d : ℤ) (n : Token) (r : Option PyStr) (u : PyStr),
      a ++ (authLine d ++ (keyLine k ++ (nonceLine n ++
        (roomLine r ++ newline :: (py "user=" ++ u))))) =
      (a ++ lines k d n r) ++ newline :: (py "user=" ++ u) := by
    simp [lines]
  have htext := List.append_cancel_left h
  rw [hsplit, hsplit] at htext
  obtain ⟨hlines, huser⟩ := append_cons_inj_last hu hu' htext
  exact ⟨hlines, List.append_cancel_left huser⟩

/-- An app id that reaches further into the text than another one imitates it. -/
theorem imitates_of_extends (hx : x ≠ []) (hr : r ≠ some []) (hr' : r' ≠ some [])
    (h : x ++ lines res.keyId d' n' r' = lines res.keyId d n r) : res.Imitates a (a ++ x) := by
  obtain rfl | ⟨s, rfl⟩ | ⟨y, z, hz, hkey, rfl, hrest⟩ := extends_cases h
  · exact absurd rfl hx
  · exact .inl ⟨d, n, s, rfl⟩
  · exact .inr ⟨d, d', n, n', r, r', y, z, hr, hr', hz, hkey, rfl, hrest⟩

/-- Two dictionaries with one text are equal, or one of their apps imitates the other. -/
theorem eq_of_unconfusable (hc : ¬res.Confusable hmac life) : res.Unambiguous hmac life := by
  rintro p q ⟨call, hcall, hp⟩ ⟨call', hcall', hq⟩ htext
  obtain ⟨a, r, hash, l, ha, hr, hh, rfl⟩ := handlePost_eq_ok hp
  obtain ⟨a', r', hash', l', ha', hr', hh', rfl⟩ := handlePost_eq_ok hq
  obtain ⟨hlines, huser⟩ :=
    dataCheckString_inj (userJson_one_line _) (userJson_one_line _) htext
  have hhash : hash = hash' := by
    obtain ⟨b, rfl⟩ := userHash_eq_hex hh
    obtain ⟨b', rfl⟩ := userHash_eq_hex hh'
    exact userJson_hash huser
  subst hhash
  obtain ⟨x, rfl, hx⟩ | ⟨x, rfl, hx⟩ := List.append_eq_append_iff.1 hlines
  · by_cases hne : x = []
    · subst hne
      obtain ⟨hd, hn, rfl⟩ := lines_injective hx
      rw [List.append_nil, huser, params, params, hd, hn]
    · exact absurd ⟨_, hcall, _, hcall', a, a ++ x, ha, ha',
        imitates_of_extends hne hr hr' hx.symm, _, _, hash, hh, hh'⟩ hc
  · by_cases hne : x = []
    · subst hne
      obtain ⟨hd, hn, rfl⟩ := lines_injective hx
      rw [List.append_nil, huser, params, params, hd, hn]
    · exact absurd ⟨_, hcall', _, hcall, a', a' ++ x, ha', ha,
        imitates_of_extends hne hr' hr hx.symm, _, _, hash, hh', hh⟩ hc

/-- An app id that is followed by lines of the text gives two dictionaries with one text. -/
theorem ambiguous_of_lines (d d' : ℤ) (n n' : Token) (r r' : Option PyStr) {g g' : AppRegistry}
    {u u' hash : PyStr} (hg : g ∈ life) (hg' : g' ∈ life)
    (ha : g.Offers a) (ha' : g'.Offers (a ++ x)) (hu : res.userHash hmac a u = some hash)
    (hu' : res.userHash hmac (a ++ x) u' = some hash) (hr : r ≠ some []) (hr' : r' ≠ some [])
    (hx : x ≠ []) (h : x ++ lines res.keyId d' n' r' = lines res.keyId d n r) :
    ¬res.Unambiguous hmac life := by
  intro hun
  have htext : buildDataCheckString (params a d n.text (userJson [("id", hash)]) r res.keyId) =
      buildDataCheckString (params (a ++ x) d' n'.text (userJson [("id", hash)]) r' res.keyId) := by
    rw [dataCheckString_params, dataCheckString_params]
    have hsplit : ∀ (d : ℤ) (n : Token) (r : Option PyStr) (u : PyStr),
        authLine d ++ (keyLine res.keyId ++ (nonceLine n ++ (roomLine r ++ userLine u))) =
        lines res.keyId d n r ++ userLine u := by
      simp [lines]
    rw [hsplit, hsplit, ← h]
    simp
  have heq := hun _ _ ⟨_, hg, handlePost_bodyFor ha hr hu d n⟩
    ⟨_, hg', handlePost_bodyFor ha' hr' hu' d' n'⟩ htext
  have happ : a = a ++ x := by
    have hitem := congrArg (fun p => Params.item p "app_id") heq
    simpa only [(item_params a _ _ _ _ _).1, (item_params (a ++ x) _ _ _ _ _).1] using hitem
  exact hx (List.append_right_eq_self.1 happ.symm)

theorem ambiguous_of_confusable (hc : res.Confusable hmac life) : ¬res.Unambiguous hmac life := by
  obtain ⟨g, hg, g', hg', a, a', ha, ha', him, u, u', hash, hu, hu'⟩ := hc
  obtain ⟨d, n, s, rfl⟩ | ⟨d, d', n, n', r, r', y, z, hr, hr', hz, hkey, rfl, hrest⟩ := him
  · -- The room id of the first dictionary takes in the lines of the second one.
    refine ambiguous_of_lines d d n n (some (s ++ lines res.keyId d n none)) none hg hg' ha ha' hu
      hu' ?_ (by simp) ?_ ?_
    · simp [lines, authLine_eq]
    · simp [authLine_eq]
    · simp [lines, roomLine]
  · refine ambiguous_of_lines d d' n n' r r' hg hg' ha ha' hu hu' hr hr' ?_ ?_
    · simp [authLine_eq]
    · rw [List.append_assoc, ← hrest, lines, hkey]
      simp

/-- **The signed text determines the parameters exactly when no registered app imitates
another one.**  An app imitates another one when its id is that one's id followed by the lines
of that one's parameters up to a room id. -/
theorem signed_text_unambiguous_iff (hmac : Bytes → Bytes → Bytes) (res : InitDataResource)
    (life : Set AppRegistry) : res.Unambiguous hmac life ↔ ¬res.Confusable hmac life :=
  ⟨fun h hc => ambiguous_of_confusable hc h, eq_of_unconfusable⟩

/-! ### A room that reads as an app -/

/-- A nonce. -/
def sampleNonce : Token :=
  ⟨"AAAAAAAAAAAAAAAAAAAAAAAAAAAAAAAAAAAAAAAAAAA", by decide, by decide⟩

/-- The resource of a server with one key for all apps, no Ed25519 key, and no check of the
membership in the room. -/
def shopResource : InitDataResource := ⟨"secret", false, false, none, "1"⟩

/-- An app, and one whose id is that app's id followed by lines. -/
def shopRegistry : AppRegistry :=
  ⟨[(py "shop", .obj []), (py "shop" ++ (authLine 1700000000 ++ (nonceLine sampleNonce ++
    py "\nroom_id=x")), .obj [])], []⟩

/-- With these two apps, the dictionary of the first one in a room that is named by the rest
of the text has the text of a dictionary of the second one. -/
theorem shop_text_ambiguous :
    ¬∃ hmac : Bytes → Bytes → Bytes, shopResource.Unambiguous hmac {shopRegistry} := by
  rintro ⟨hmac, hunambiguous⟩
  suffices hc : shopResource.Confusable hmac {shopRegistry} from
    ambiguous_of_confusable hc hunambiguous
  refine ⟨shopRegistry, rfl, shopRegistry, rfl, py "shop", _,
    ⟨by decide, .obj [], true, by rfl, by rfl⟩, ⟨?_, .obj [], true, ?_, by rfl⟩,
    .inl ⟨1700000000, sampleNonce, "x", rfl⟩, "@ann:liza", "@ann:liza", _, rfl, rfl⟩
  · decide
  · rfl

end MiniApp
end Liza
