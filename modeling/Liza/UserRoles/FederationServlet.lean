/-
# What is asked of another server, and what it answers

`UserRolesFederationServlet` of `_federation_servlet.py`, and `FederationRolesClient` with servers
that run it.  The ids of a request are joined with commas; the servlet splits the text again, trims
the parts, refuses more than 100 of them, and answers for those that are users of its own.  So an
id with a comma or with a blank at an end does not come back, and a request that is refused gives
`None` for every id in it, which is kept for the time of the cache.

No request is lost on the way, and the servers keep their data.  `lookups_delivered` says exactly
when the views that are returned and cached are those of the servers.
-/

import Liza.Lib.Lines
import Liza.Lib.Run
import Liza.UserRoles.Federation
import Liza.UserRoles.Updates
import Liza.Synapse.EventAuth
import Mathlib.Data.List.DropRight

set_option autoImplicit false

namespace Liza
namespace UserRoles

open Lib Synapse

/-! ### The view of a user -/

/-- The code that is looked up. -/
def roleCode (data : Option Dict) : Json :=
  if (storedRole data).truthy then storedRole data else .str defaultRole

/-- The account data that the servlet sees. -/
def World.servletData (w : World) (uid : PyStr) : Option Dict :=
  if EventAuth.userIdFromString uid then w.data uid else none

/-- The row of the catalog for any value. -/
def World.rowOf (w : World) : Json → Option Role
  | .str code => w.row code
  | _ => none

/-- The view that the servlet computes for a user. -/
def World.servletView (w : World) (uid : PyStr) : Json :=
  roleView (w.rowOf (roleCode (w.servletData uid))) (storedExtraRoles (w.servletData uid))

namespace Federation

/-! ### The servlet -/

/-- `_MAX_BATCH`. -/
def maxBatch : ℕ := 100

/-- `[u.strip() for u in raw.split(",") if u.strip()]`. -/
def requested (raw : PyStr) : List PyStr :=
  ((raw.splitOn (codePoint ',')).map strip).filter fun uid => uid ≠ []

/-- `account_data.get_global`, which raises for what is no user id. -/
def getAccountData (uid : PyStr) : Code (Option Dict) :=
  if EventAuth.userIdFromString uid then call (.getGlobal uid) else .raised

/-- The loop over the ids. -/
def servletRoles (serverName : PyStr) : List PyStr → Dict → Code Dict
  | [], roles => .ret roles
  | uid :: uids, roles =>
      if (split1 (codePoint ':') uid).2 = some serverName then do
        let data ← (getAccountData uid).orElse (.ret none)
        let role ← enrichFrozen (roleCode data)
        servletRoles serverName uids (roles.set uid (roleView role (storedExtraRoles data)))
      else servletRoles serverName uids roles

/-- `UserRolesFederationServlet.on_GET`, of the text of `user_ids`. -/
def onGet (serverName raw : PyStr) : Code Response :=
  if requested raw = [] then
    .ret (400, .obj [("errcode", .str "M_MISSING_PARAM"),
      ("error", .str "user_ids query parameter is required")])
  else if maxBatch < (requested raw).length then
    .ret (400, .obj [("errcode", .str "M_INVALID_PARAM"),
      ("error", .str "Maximum 100 user_ids per request")])
  else do
    let roles ← servletRoles serverName (requested raw) []
    .ret (200, .obj [("roles", .obj roles)])

/-- What `get_json` returns: it raises for a text that has no UTF-8, and where the status of the
response is not 200. -/
def getJson (servers : PyStr → World) (destination raw : PyStr) : Option Json :=
  if encodable raw then
    match ((onGet destination raw).eval (performing fun _ => false) (servers destination)).2 with
    | some (200, body) => some body
    | _ => none
  else none

section Servlet

variable {fails : Op → Bool} {w w' : World} {serverName uid : PyStr}

theorem eval_enrichFrozen (fails : Op → Bool) (w : World) (v : Json) :
    ∃ w', Agree w w' ∧ (enrichFrozen v).eval (performing fails) w = (w', some (w.rowOf v)) := by
  unfold enrichFrozen
  split
  · exact ⟨w, .refl w, rfl⟩
  · exact ⟨w.loaded, agree_loaded w, eval_enrich fails w _⟩
  · rename_i hstr
    rw [Task.eval_bind, eval_enrich]
    refine ⟨w.loaded, agree_loaded w, ?_⟩
    cases v with
    | str code => exact absurd rfl (hstr code)
    | _ => rfl

theorem eval_getAccountData (fails : Op → Bool) (w : World) (uid : PyStr) :
    ((getAccountData uid).orElse (.ret none)).eval (performing fails) w =
      (w, some (w.servletData uid)) := by
  unfold getAccountData World.servletData
  split <;> rfl

/-- What the servlet computes is the same where account data and catalog are. -/
theorem servletView_congr (h : Agree w w') (uid : PyStr) :
    w'.servletView uid = w.servletView uid := by
  have hdata : w'.servletData uid = w.servletData uid := by
    unfold World.servletData
    rw [h.data]
  have hrow : ∀ v, w'.rowOf v = w.rowOf v := by
    intro v
    cases v with
    | str code => exact h.row code
    | _ => rfl
  unfold World.servletView
  rw [hdata, hrow]

/-- The ids of a request that the server answers for. -/
def own (serverName : PyStr) (uids : List PyStr) : List PyStr :=
  uids.filter fun uid => (split1 (codePoint ':') uid).2 = some serverName

/-- The loop sets the view of every id of its own. -/
theorem eval_servletRoles (fails : Op → Bool) (w : World) (serverName : PyStr) (uids : List PyStr)
    (roles : Dict) : ∃ w', (servletRoles serverName uids roles).eval (performing fails) w =
      (w', some ((own serverName uids).foldl
        (fun roles uid => roles.set uid (w.servletView uid)) roles)) := by
  induction uids generalizing w roles with
  | nil => exact ⟨w, rfl⟩
  | cons uid uids ih =>
      unfold servletRoles own
      rw [List.filter_cons]
      by_cases hown : (split1 (codePoint ':') uid).2 = some serverName
      · rw [if_pos hown, if_pos (decide_eq_true hown), List.foldl_cons, Task.eval_bind,
          eval_getAccountData]
        dsimp only
        obtain ⟨w', hw', henrich⟩ := eval_enrichFrozen fails w (roleCode (w.servletData uid))
        rw [Task.eval_bind, henrich]
        dsimp only
        obtain ⟨w'', heval⟩ := ih w' (roles.set uid (w.servletView uid))
        refine ⟨w'', ?_⟩
        simp only [servletView_congr hw'] at heval
        exact heval
      · rw [if_neg hown, if_neg (by simpa using hown)]
        exact ih w roles

end Servlet

/-! ### The text of a request -/

section Request

variable {uid : PyStr} {uids : List PyStr}

theorem subset_strip (s : PyStr) : strip s ⊆ s := by
  intro c hc
  have h₁ := (List.dropWhile_sublist isBlank).subset (List.mem_reverse.1 hc)
  exact (List.dropWhile_sublist isBlank).subset (List.mem_reverse.1 h₁)

/-- What is trimmed has no blank at its ends. -/
theorem strip_strip (s : PyStr) : strip (strip s) = strip s := by
  have hstrip : ∀ s, strip s = (s.dropWhile isBlank).rdropWhile isBlank := fun _ => rfl
  have hfirst : (strip s).dropWhile isBlank = strip s := by
    rw [List.dropWhile_eq_self_iff]
    intro hlen
    -- a first element that is left was the first one before the end was trimmed
    obtain ⟨rest, hrest⟩ := List.rdropWhile_prefix isBlank (s.dropWhile isBlank)
    rw [← hstrip] at hrest
    have hpos : 0 < (s.dropWhile isBlank).length := by
      rw [← hrest, List.length_append]
      omega
    have hhead : (strip s)[0] = (s.dropWhile isBlank)[0] := by
      simp only [← hrest, List.getElem_append_left hlen]
    rw [hhead]
    exact List.dropWhile_get_zero_not isBlank s hpos
  rw [hstrip (strip s), hfirst, hstrip s, List.rdropWhile_idempotent]

/-- The parts of a text have no comma. -/
theorem comma_notMem_splitOn {s part : PyStr} (h : part ∈ s.splitOn (codePoint ',')) :
    codePoint ',' ∉ part := by
  induction s generalizing part with
  | nil =>
      rw [List.splitOn_nil, List.mem_singleton] at h
      rw [h]
      exact List.not_mem_nil
  | cons c s ih =>
      rw [List.splitOn_cons_eq_if_modifyHead] at h
      split at h
      · rcases List.mem_cons.1 h with rfl | h
        · exact List.not_mem_nil
        · exact ih h
      · rename_i hc
        cases hs : s.splitOn (codePoint ',') with
        | nil =>
            rw [hs] at h
            cases h
        | cons first rest =>
            rw [hs, List.modifyHead_cons] at h
            rcases List.mem_cons.1 h with rfl | h
            · intro hmem
              rcases List.mem_cons.1 hmem with heq | hmem
              · exact hc (by simp [← heq])
              · exact ih (hs ▸ List.mem_cons_self) hmem
            · exact ih (hs ▸ List.mem_cons_of_mem _ h)

theorem join_cons_cons (uid next : PyStr) (uids : List PyStr) :
    join (uid :: next :: uids) = uid ++ codePoint ',' :: join (next :: uids) := by
  simp [join, List.intercalate_cons_cons]

/-- The parts of joined ids are the parts of each. -/
theorem requested_join (h : uids ≠ []) : requested (join uids) = uids.flatMap requested := by
  induction uids with
  | nil => exact absurd rfl h
  | cons uid uids ih =>
      cases uids with
      | nil => simp [join]
      | cons next uids =>
          rw [List.flatMap_cons, ← ih (List.cons_ne_nil _ _), join_cons_cons, requested,
            List.splitOn_append_cons_self, List.map_append, List.filter_append]
          rfl

/-- An id comes back as it is if it has no comma, and no blank at its ends. -/
def intact (uid : PyStr) : Bool := codePoint ',' ∉ uid ∧ strip uid = uid

/-- What is requested has no comma, and no blank at its ends. -/
theorem intact_of_mem_requested {raw : PyStr} (h : uid ∈ requested raw) : intact uid = true := by
  obtain ⟨part, hpart, rfl⟩ := List.mem_map.1 (List.mem_filter.1 h).1
  refine decide_eq_true ⟨fun hmem => ?_, strip_strip part⟩
  exact comma_notMem_splitOn hpart (subset_strip part hmem)

/-- An id that is intact is requested. -/
theorem mem_requested_join (hmem : uid ∈ uids) (hne : uid ≠ []) (h : intact uid = true) :
    uid ∈ requested (join uids) := by
  obtain ⟨hcomma, hstrip⟩ := of_decide_eq_true h
  rw [requested_join (List.ne_nil_of_mem hmem)]
  refine List.mem_flatMap.2 ⟨uid, hmem, ?_⟩
  rw [requested, List.splitOn_eq_singleton hcomma]
  simp [hstrip, hne]

end Request

/-! ### What comes back -/

/-- The view of an answer. -/
def viewOfJson : Json → Option Dict
  | .obj view => some view
  | _ => none

section Answer

variable {servers : PyStr → World} {domain uid : PyStr} {fresh : List PyStr} {view : Dict}

/-- The items of the answer to a request are the views of the ids of the server that it names. -/
theorem mem_setAll (V : PyStr → Json) (uids : List PyStr) (roles : Dict) {item : PyStr × Json}
    (h : item ∈ uids.foldl (fun roles uid => roles.set uid (V uid)) roles) :
    item ∈ roles ∨ item.1 ∈ uids ∧ item.2 = V item.1 := by
  induction uids generalizing roles with
  | nil => exact .inl h
  | cons uid uids ih =>
      rcases ih _ h with hset | ⟨hmem, hview⟩
      · rcases Dict.mem_set hset with rfl | hroles
        · exact .inr ⟨List.mem_cons_self, rfl⟩
        · exact .inl hroles
      · exact .inr ⟨List.mem_cons_of_mem _ hmem, hview⟩

/-- The roles that the server of a domain answers. -/
def answered (servers : PyStr → World) (domain raw : PyStr) : Dict :=
  (own domain (requested raw)).foldl
    (fun roles uid => roles.set uid ((servers domain).servletView uid)) []

/-- A request is answered with the views of the ids that it names, or refused. -/
theorem getJson_eq (servers : PyStr → World) (domain raw : PyStr) : getJson servers domain raw =
    if encodable raw = true ∧ requested raw ≠ [] ∧ (requested raw).length ≤ maxBatch then
      some (.obj [("roles", .obj (answered servers domain raw))])
    else none := by
  unfold getJson onGet
  by_cases hencodable : encodable raw = true
  · rw [if_pos hencodable]
    by_cases hnil : requested raw = []
    · rw [if_pos hnil, if_neg fun h => h.2.1 hnil]
      rfl
    · rw [if_neg hnil]
      by_cases hmax : maxBatch < (requested raw).length
      · rw [if_pos hmax, if_neg fun h => Nat.not_lt.2 h.2.2 hmax]
        rfl
      · obtain ⟨w', heval⟩ := eval_servletRoles (fun _ => false) (servers domain) domain
          (requested raw) []
        rw [if_neg hmax, if_pos ⟨hencodable, hnil, Nat.le_of_not_lt hmax⟩, Task.eval_bind, heval]
        rfl
  · rw [if_neg hencodable, if_neg fun h => hencodable h.1]

/-- An id whose view is in the answer is intact, and the view is that of the server. -/
theorem of_mem_answered {raw : PyStr} (h : (uid, .obj view) ∈ answered servers domain raw) :
    intact uid = true ∧ viewOfJson ((servers domain).servletView uid) = some view := by
  rcases mem_setAll _ _ _ h with hnil | ⟨hmem, hview⟩
  · cases hnil
  · refine ⟨intact_of_mem_requested (List.mem_filter.1 hmem).1, ?_⟩
    rw [← hview]
    rfl

/-- An id that the server answers for has an item. -/
theorem exists_mem_answered (servers : PyStr → World) {raw : PyStr}
    (h : uid ∈ own domain (requested raw)) :
    ∃ v, (uid, v) ∈ answered servers domain raw := by
  have hfold : ∀ (uids : List PyStr) (roles : Dict), uid ∈ uids ∨ (roles.get? uid).isSome = true →
      ((uids.foldl (fun roles uid => roles.set uid ((servers domain).servletView uid))
        roles).get? uid).isSome = true := by
    intro uids
    induction uids with
    | nil => exact fun _ h => h.resolve_left List.not_mem_nil
    | cons u uids ih =>
        intro roles h
        refine ih _ ?_
        by_cases hu : uid = u
        · subst hu
          exact .inr (by rw [Dict.get?_set_self]; rfl)
        · rw [Dict.get?_set_of_ne _ _ hu]
          exact h.imp (fun hmem => (List.mem_cons.1 hmem).resolve_left hu) id
  obtain ⟨v, hv⟩ := Option.isSome_iff_exists.1 (hfold _ [] (.inl h))
  exact ⟨v, Dict.mem_of_get? hv⟩

/-- What is received of an item. -/
theorem received_of_mem {roles : Dict} {V : PyStr → Json} (hV : ∀ item ∈ roles, item.2 = V item.1)
    {v : Json} (hmem : (uid, v) ∈ roles) (hsuffix : (codePoint ':' :: domain).isSuffixOf uid = true) :
    (roles.foldl (receive domain) []).get? uid = some (viewOfJson (V uid)) := by
  have hitem : ∀ (item : PyStr × Json) (out : Assoc PyStr (Option Dict)), item.2 = V item.1 →
      uid = item.1 → (receive domain out item).get? uid = some (viewOfJson (V uid)) := by
    rintro item out hitem rfl
    rw [receive, if_pos hsuffix, Assoc.get?_set_self, ← hitem]
    rfl
  have hfold : ∀ (l : Dict) (out : Assoc PyStr (Option Dict)), (∀ item ∈ l, item.2 = V item.1) →
      ((∃ v, (uid, v) ∈ l) ∨ out.get? uid = some (viewOfJson (V uid))) →
      (l.foldl (receive domain) out).get? uid = some (viewOfJson (V uid)) := by
    intro l
    induction l with
    | nil => exact fun _ _ h => h.resolve_left fun hex => List.not_mem_nil hex.choose_spec
    | cons item l ih =>
        intro out hl h
        refine ih _ (fun i hi => hl i (List.mem_cons_of_mem _ hi)) ?_
        by_cases huid : uid = item.1
        · exact .inr (hitem item out (hl item List.mem_cons_self) huid)
        · refine h.imp (fun hex => ?_) fun hout => ?_
          · obtain ⟨v, hv⟩ := hex
            refine ⟨v, (List.mem_cons.1 hv).resolve_left fun heq => huid ?_⟩
            rw [← heq]
          · unfold receive
            split
            · rw [Assoc.get?_set_of_ne _ _ huid, hout]
            · exact hout
  exact hfold roles [] hV (.inl ⟨v, hmem⟩)

end Answer

/-! ### When the views are delivered -/

/-- An id of a domain ends with it. -/
theorem of_domainOf {uid domain : PyStr} (h : domainOf uid = some domain) :
    uid ≠ [] ∧ (split1 (codePoint ':') uid).2 = some domain ∧
      (codePoint ':' :: domain).isSuffixOf uid = true := by
  unfold domainOf at h
  split at h
  · rename_i localpart d hsplit
    split at h
    · cases h
    · obtain rfl := Option.some.inj h
      have huid := eq_of_split1 hsplit
      refine ⟨?_, by rw [hsplit], ?_⟩
      · rw [huid]
        exact List.append_ne_nil_of_right_ne_nil _ (List.cons_ne_nil _ _)
      · rw [huid, List.isSuffixOf_iff_suffix]
        exact List.suffix_append _ _
  · cases h

/-- A text has UTF-8 if each of the joined ids has. -/
theorem encodable_join (uids : List PyStr) : encodable (join uids) = uids.all encodable := by
  induction uids with
  | nil => rfl
  | cons uid uids ih =>
      cases uids with
      | nil => simp [join]
      | cons next uids =>
          have hcomma : isSurrogate (codePoint ',') = false := by decide
          rw [List.all_cons, ← ih, join_cons_cons]
          simp [encodable, hcomma]

/-- The view of an id comes back: the ids of the request have UTF-8 and at most 100 parts
between commas, and the id itself is intact. -/
def delivered (fresh : List PyStr) (uid : PyStr) : Bool :=
  fresh.all encodable && decide ((fresh.flatMap requested).length ≤ maxBatch) && intact uid

/-- A lookup, with the clock that it meets. -/
structure Lookup where
  userIds : List Json
  now : ℚ
  later : PyStr → ℚ

/-- A lookup among servers that run the servlet. -/
def Lookup.call (servers : PyStr → World) (l : Lookup) : Call :=
  ⟨l.userIds, l.now, getJson servers, l.later⟩

/-- The view that the server of a domain holds for a user. -/
def heldView (servers : PyStr → World) (domain uid : PyStr) : Option Dict :=
  viewOfJson ((servers domain).servletView uid)

/-- What is in the cache is what the servers hold. -/
def Truthful (servers : PyStr → World) (c : Client) : Prop :=
  ∀ domain uid view expiresAt, c.cache.get? (domain, uid) = some (view, expiresAt) →
    view = heldView servers domain uid

/-- The call returns what the servers hold, and so does the cache. -/
def Delivers (cfg : Config) (servers : PyStr → World) (c : Client) (call : Call) : Prop :=
  (∀ domain, domain ≠ cfg.serverName → ∀ uid ∈ call.ids domain,
    (fetchRoles cfg call c).result.get? uid = some (heldView servers domain uid)) ∧
    Truthful servers (fetchRoles cfg call c).client

/-- Every id that is not in the cache and has a view is delivered. -/
def Deliverable (cfg : Config) (servers : PyStr → World) (c : Client) (call : Call) : Prop :=
  ∀ domain, domain ≠ cfg.serverName → ∀ uid ∈ c.fresh call domain (call.ids domain),
    heldView servers domain uid ≠ none → delivered (c.fresh call domain (call.ids domain)) uid = true

section Delivery

variable {cfg : Config} {servers : PyStr → World} {c : Client} {l : Lookup} {domain uid : PyStr}
  {fresh : List PyStr}

/-- **What is kept for an id after a request**: the view of the server if it is delivered. -/
theorem fetched_eq (hmem : uid ∈ fresh) (hdomain : domainOf uid = some domain) :
    ((fetched (l.call servers) domain fresh).get? uid).getD none =
      if delivered fresh uid = true then heldView servers domain uid else none := by
  obtain ⟨hne, hsplit, hsuffix⟩ := of_domainOf hdomain
  have hparts : requested (join fresh) = fresh.flatMap requested :=
    requested_join (List.ne_nil_of_mem hmem)
  have hget : (l.call servers).getJson domain (join fresh) = getJson servers domain (join fresh) := rfl
  by_cases hdelivered : delivered fresh uid = true
  · unfold fetched
    rw [hget, getJson_eq, encodable_join, hparts, if_pos hdelivered]
    simp only [delivered, Bool.and_eq_true, decide_eq_true_eq] at hdelivered
    obtain ⟨⟨hencodable, hmax⟩, hintact⟩ := hdelivered
    have hrequested : uid ∈ requested (join fresh) := mem_requested_join hmem hne hintact
    rw [if_pos ⟨hencodable, hparts ▸ List.ne_nil_of_mem hrequested, hmax⟩]
    obtain ⟨v, hv⟩ := exists_mem_answered servers
      (List.mem_filter.2 ⟨hrequested, decide_eq_true hsplit⟩)
    have hviews : ∀ item ∈ answered servers domain (join fresh),
        item.2 = (servers domain).servletView item.1 := by
      intro item hitem
      rcases mem_setAll _ _ _ hitem with hnil | ⟨-, hview⟩
      · cases hnil
      · exact hview
    have hreceived := received_of_mem hviews hv hsuffix
    show (((answered servers domain (join fresh)).foldl (receive domain) []).get? uid).getD none = _
    rw [hreceived]
    rfl
  · rw [if_neg hdelivered]
    by_contra hview
    obtain ⟨view, hview⟩ := Option.ne_none_iff_exists'.1 hview
    -- a view that is kept is in an answer, so the request was answered and the id is intact
    obtain ⟨response, hresponse, hanswer⟩ := answer_of_fetched hview
    rw [hget, getJson_eq, encodable_join, hparts] at hresponse
    split at hresponse
    · rename_i hsent
      obtain rfl := Option.some.inj hresponse
      obtain ⟨hintact, -⟩ := of_mem_answered hanswer
      refine hdelivered ?_
      simp only [delivered, Bool.and_eq_true, decide_eq_true_eq]
      exact ⟨⟨hsent.1, hsent.2.2⟩, hintact⟩
    · cases hresponse

/-- What is kept for the ids of a call that are not in the cache. -/
theorem fetchedEntry_fst
    (hmem : uid ∈ c.fresh (l.call servers) domain ((l.call servers).ids domain)) :
    (fetchedEntry cfg (l.call servers) domain
      (c.fresh (l.call servers) domain ((l.call servers).ids domain)) uid).1 =
      if delivered (c.fresh (l.call servers) domain ((l.call servers).ids domain)) uid = true then
        heldView servers domain uid
      else none :=
  fetched_eq hmem (mem_idsOf.1 (List.mem_filter.1 hmem).1).2

/-- What a call that is deliverable keeps and returns is what the servers hold. -/
theorem entry_of_deliverable (hc : Truthful servers c)
    (hdeliverable : Deliverable cfg servers c (l.call servers)) (hne : domain ≠ cfg.serverName)
    {view : Option Dict} {expiresAt : ℚ}
    (h : c.entry cfg (l.call servers) domain ((l.call servers).ids domain) uid =
      some (view, expiresAt)) : view = heldView servers domain uid := by
  unfold Client.entry at h
  split at h
  · rename_i hmem
    refine (congrArg Prod.fst (Option.some.inj h)).symm.trans ?_
    rw [fetchedEntry_fst hmem]
    by_cases hview : heldView servers domain uid = none
    · rw [hview, ite_self]
    · rw [if_pos (hdeliverable domain hne uid hmem hview)]
  · exact hc _ _ _ _ h

/-- **A call delivers exactly if it is deliverable.** -/
theorem delivers_iff (hc : Truthful servers c) :
    Delivers cfg servers c (l.call servers) ↔ Deliverable cfg servers c (l.call servers) := by
  constructor
  · rintro ⟨hreturned, -⟩ domain hne uid hmem hview
    have hids := (List.mem_filter.1 hmem).1
    have hresult := hreturned domain hne uid hids
    rw [result_fetchRoles cfg c hne hids, Client.entry, if_pos hmem] at hresult
    have hkept : (fetchedEntry cfg (l.call servers) domain
        (c.fresh (l.call servers) domain ((l.call servers).ids domain)) uid).1 =
          heldView servers domain uid := Option.some.inj hresult
    rw [fetchedEntry_fst hmem] at hkept
    by_contra hdelivered
    rw [if_neg hdelivered] at hkept
    exact hview hkept.symm
  · intro hdeliverable
    refine ⟨fun domain hne uid hids => ?_, fun domain uid view expiresAt h => ?_⟩
    · rw [result_fetchRoles cfg c hne hids]
      cases hentry : c.entry cfg (l.call servers) domain ((l.call servers).ids domain) uid with
      | some entry => exact congrArg some (entry_of_deliverable hc hdeliverable hne hentry)
      | none =>
          -- an id that is asked for is fetched or in the cache
          exfalso
          unfold Client.entry at hentry
          split at hentry
          · cases hentry
          · rename_i hfresh
            refine hfresh (List.mem_filter.2 ⟨hids, ?_⟩)
            rw [Client.isCached, hentry]
            rfl
    · rw [cache_fetchRoles] at h
      split at h
      · exact hc _ _ _ _ h
      · rename_i hne
        exact entry_of_deliverable hc hdeliverable hne h

end Delivery

/-- A lookup as a step of the client. -/
def lookup (cfg : Config) (servers : PyStr → World) (c : Client) (l : Lookup) : Option Client :=
  some (fetchRoles cfg (l.call servers) c).client

/-- **Federated lookups return what the servers hold** exactly if each call of the sequence, in the
state in which it finds the client, is deliverable. -/
theorem lookups_delivered (cfg : Config) (servers : PyStr → World) (lookups : List Lookup) :
    Along (lookup cfg servers) (fun c l _ => Delivers cfg servers c (l.call servers))
        Client.new lookups ↔
      Along (lookup cfg servers) (fun c l _ => Deliverable cfg servers c (l.call servers))
        Client.new lookups := by
  refine along_congr (I := Truthful servers) (fun c l _ hc _ => delivers_iff hc)
    (fun c l t hc ht hdelivers => ?_) (fun _ _ _ _ h => by cases h) lookups
  obtain rfl := Option.some.inj ht
  exact hdelivers.2

/-- A server with the role `user` in its catalog. -/
def userWorld : World :=
  ⟨[py "@a,b:h"], id, fun _ => false, [], [⟨"user", "User", none⟩], [], fun _ => []⟩

/-- **An id with a comma is not delivered**: its server holds a view for it, and `None` is returned
and cached. -/
theorem comma_not_delivered : ∃ (cfg : Config) (servers : PyStr → World) (l : Lookup),
    heldView servers "h" "@a,b:h" ≠ none ∧
    (fetchRoles cfg (l.call servers) Client.new).result.get? "@a,b:h" = some none ∧
    ((fetchRoles cfg (l.call servers) Client.new).client.cache.get? ("h", "@a,b:h")).map Prod.fst =
      some none ∧
    ¬Delivers cfg servers Client.new (l.call servers) := by
  have hheld : heldView (fun _ => userWorld) "h" "@a,b:h" ≠ none := by decide
  have hresult : (fetchRoles ⟨"our_host", 300⟩ (Lookup.call (fun _ => userWorld)
      ⟨[.str "@a,b:h"], 0, fun _ => 0⟩) Client.new).result.get? "@a,b:h" = some none := by decide +kernel
  refine ⟨⟨"our_host", 300⟩, fun _ => userWorld, ⟨[.str "@a,b:h"], 0, fun _ => 0⟩, hheld, hresult,
    by decide +kernel, fun hdelivers => ?_⟩
  have hreturned := hdelivers.1 "h" (by decide) "@a,b:h" (by decide)
  exact hheld (Option.some.inj (hreturned.symm.trans hresult))

end Federation
end UserRoles
end Liza
