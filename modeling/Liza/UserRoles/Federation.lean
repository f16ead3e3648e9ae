/-
# The roles of the users of other servers

`FederationRolesClient` of `_federation.py`.  The ids that are asked for are grouped by domain,
the server of each domain is asked for those that are not in the cache, and what it answers is
cached for `ttl` seconds, `None` where it fails or leaves an id out.

What comes from outside is given with a call: the clock when it begins, and for each server what
`get_json` returns (`none` where it raises) and the clock afterwards.  A moment is a number of
seconds.  Three ghosts are carried for the sake of statements: the requests that were made, the
latest moment that was read, and that moment for each entry of the result.

A domain is visited once in a call, and a visit touches the entries of its own domain only; so the
result and the cache after a call are functions of the cache before it, domain by domain
(`result_fetchRoles`, `cache_fetchRoles`), and the results are read off these.
-/

import Liza.UserRoles.Module
import Liza.Lib.Assoc
import Mathlib.Algebra.Order.Ring.Rat

set_option autoImplicit false

namespace Liza
namespace UserRoles
namespace Federation

open Lib

/-! ### The client -/

/-- What is configured: the name of the server, and the time that an answer is kept. -/
structure Config where
  serverName : PyStr
  ttlSec : ℚ

/-- A call of `fetch_roles`, with what it meets: the clock when it begins, what `get_json` returns
for a destination and the ids it is asked for, and the clock when it has returned. -/
structure Call where
  userIds : List Json
  now : ℚ
  getJson : PyStr → PyStr → Option Json
  later : PyStr → ℚ

/-- A request that was made, with the number of the call that made it. -/
structure Fetch where
  call : ℕ
  destination : PyStr
  userIds : List PyStr
  answer : Option Json
  moment : ℚ

/-- The client: its cache, and the calls and the requests so far. -/
structure Client where
  cache : Assoc (PyStr × PyStr) (Option Dict × ℚ)
  calls : ℕ
  fetches : List Fetch

/-- A client that has just been made. -/
def Client.new : Client := ⟨[], 0, []⟩

/-- The domain of an id; none if nothing stands before or after the first colon. -/
def domainOf (uid : PyStr) : Option PyStr :=
  match split1 (codePoint ':') uid with
  | (localpart, some domain) => if localpart = [] ∨ domain = [] then none else some domain
  | (_, none) => none

/-- `by_domain[domain].append(uid)`, for the id of another server. -/
def group (serverName : PyStr) (byDomain : Assoc PyStr (List PyStr)) :
    Json → Assoc PyStr (List PyStr)
  | .str uid =>
      match domainOf uid with
      | some domain =>
          if domain = serverName then byDomain
          else byDomain.set domain ((byDomain.get? domain).getD [] ++ [uid])
      | none => byDomain
  | _ => byDomain

/-- The ids of other servers, by domain. -/
def byDomain (serverName : PyStr) (userIds : List Json) : Assoc PyStr (List PyStr) :=
  userIds.foldl (group serverName) []

/-- `_is_cached`. -/
def Client.isCached (c : Client) (destination uid : PyStr) (now : ℚ) : Bool :=
  match c.cache.get? (destination, uid) with
  | none => false
  | some (_, expiresAt) => expiresAt > now

/-- `",".join(user_ids)`. -/
def join (userIds : List PyStr) : PyStr := [codePoint ','].intercalate userIds

/-- An item of the answer. -/
def receive (destination : PyStr) (out : Assoc PyStr (Option Dict)) (item : PyStr × Json) :
    Assoc PyStr (Option Dict) :=
  if (codePoint ':' :: destination).isSuffixOf item.1 then
    out.set item.1 (match item.2 with
      | .obj view => some view
      | _ => none)
  else out

/-- The roles of an answer. -/
def rawRoles : Json → Dict
  | .obj response =>
      match (Dict.get? response "roles").getD (.obj []) with
      | .obj raw => raw
      | _ => []
  | _ => []

/-- `_fetch_remote` from the answer on. -/
def received (destination : PyStr) (response : Json) : Assoc PyStr (Option Dict) :=
  (rawRoles response).foldl (receive destination) []

/-- What is kept for the ids that were asked for; an exception counts as `None` for all. -/
def fetched (call : Call) (destination : PyStr) (fresh : List PyStr) : Assoc PyStr (Option Dict) :=
  match call.getJson destination (join fresh) with
  | some response => received destination response
  | none => fresh.map fun uid => (uid, none)

/-- The ids that are not in the cache. -/
def Client.fresh (c : Client) (call : Call) (domain : PyStr) (uids : List PyStr) : List PyStr :=
  uids.filter fun uid => !c.isCached domain uid call.now

/-- What is cached for an id after a fetch. -/
def fetchedEntry (cfg : Config) (call : Call) (domain : PyStr) (fresh : List PyStr) (uid : PyStr) :
    Option Dict × ℚ :=
  (((fetched call domain fresh).get? uid).getD none, call.later domain + cfg.ttlSec)

/-- The server of a domain is asked, and what it answers is cached. -/
def Client.refresh (cfg : Config) (call : Call) (c : Client) (domain : PyStr)
    (fresh : List PyStr) : Client :=
  { c with
    cache := fresh.foldl (fun cache uid =>
      cache.set (domain, uid) (fetchedEntry cfg call domain fresh uid)) c.cache
    fetches := ⟨c.calls, domain, fresh, call.getJson domain (join fresh), call.later domain⟩ ::
      c.fetches }

/-- Where a call stands between two domains. -/
structure Progress where
  client : Client
  result : Assoc PyStr (Option Dict)
  clock : ℚ
  taken : Assoc PyStr ℚ

/-- `cached[0] if cached is not None else None`. -/
def Client.view (c : Client) (domain uid : PyStr) : Option Dict :=
  ((c.cache.get? (domain, uid)).map Prod.fst).getD none

/-- The round of the loop for one domain. -/
def visit (cfg : Config) (call : Call) (p : Progress) (g : PyStr × List PyStr) : Progress :=
  let fresh := p.client.fresh call g.1 g.2
  let client := if fresh = [] then p.client else p.client.refresh cfg call g.1 fresh
  let clock := if fresh = [] then p.clock else call.later g.1
  { client, clock
    result := g.2.foldl (fun result uid => result.set uid (client.view g.1 uid)) p.result
    taken := g.2.foldl (fun taken uid => taken.set uid clock) p.taken }

/-- `fetch_roles`. -/
def fetchRoles (cfg : Config) (call : Call) (c : Client) : Progress :=
  let p := (byDomain cfg.serverName call.userIds).foldl (visit cfg call) ⟨c, [], call.now, []⟩
  { p with client := { p.client with calls := c.calls + 1 } }

/-- A sequence of calls. -/
def run (cfg : Config) (calls : List Call) : Client :=
  calls.foldl (fun c call => (fetchRoles cfg call c).client) Client.new

/-! ### Domain by domain -/

/-- The ids of a domain, in the order in which they are given. -/
def idsOf (userIds : List Json) (domain : PyStr) : List PyStr :=
  userIds.filterMap fun
    | .str uid => if domainOf uid = some domain then some uid else none
    | _ => none

section Groups

variable {serverName domain uid : PyStr} {userIds : List Json}

theorem mem_idsOf : uid ∈ idsOf userIds domain ↔ .str uid ∈ userIds ∧ domainOf uid = some domain := by
  unfold idsOf
  rw [List.mem_filterMap]
  constructor
  · rintro ⟨v, hv, h⟩
    split at h
    · split at h
      · rename_i hdomain
        obtain rfl := Option.some.inj h
        exact ⟨hv, hdomain⟩
      · cases h
    · cases h
  · rintro ⟨hmem, hdomain⟩
    exact ⟨.str uid, hmem, if_pos hdomain⟩

theorem get?_foldl_group (serverName domain : PyStr) (userIds : List Json)
    (m : Assoc PyStr (List PyStr)) : (userIds.foldl (group serverName) m).get? domain =
      if domain = serverName ∨ idsOf userIds domain = [] then m.get? domain
      else some ((m.get? domain).getD [] ++ idsOf userIds domain) := by
  induction userIds generalizing m with
  | nil => simp [idsOf]
  | cons v userIds ih =>
      have hskip : (∀ uid, v = .str uid → domainOf uid ≠ some domain) →
          idsOf (v :: userIds) domain = idsOf userIds domain := by
        intro hv
        unfold idsOf
        rw [List.filterMap_cons]
        split
        · rfl
        · rename_i h
          split at h
          · split at h
            · rename_i uid hdomain
              exact absurd hdomain (hv uid rfl)
            · cases h
          · cases h
      rw [List.foldl_cons, ih]
      cases v with
      | str uid =>
          cases hd : domainOf uid with
          | none =>
              rw [hskip fun u hu => by cases hu; simp [hd]]
              simp only [group, hd]
          | some d =>
              by_cases hserver : d = serverName
              · have hgroup : group serverName m (.str uid) = m := by simp [group, hd, hserver]
                rw [hgroup]
                by_cases hdomain : domain = serverName
                · simp [hdomain]
                · rw [hskip fun u hu => by cases hu; simp [hd, hserver, Ne.symm hdomain]]
              · have hgroup : group serverName m (.str uid) =
                    m.set d ((m.get? d).getD [] ++ [uid]) := by simp [group, hd, hserver]
                rw [hgroup]
                by_cases hdomain : domain = d
                · subst hdomain
                  have hcons : idsOf (.str uid :: userIds) domain = uid :: idsOf userIds domain := by
                    simp [idsOf, hd]
                  rw [hcons, Assoc.get?_set_self]
                  by_cases hnil : idsOf userIds domain = []
                  · simp [hnil, hserver]
                  · simp [hnil, hserver]
                · rw [hskip fun u hu => by cases hu; simp [hd, Ne.symm hdomain],
                    Assoc.get?_set_of_ne _ _ hdomain]
      | _ => rw [hskip fun u hu => by cases hu]; rfl

/-- The group of a domain. -/
theorem get?_byDomain (serverName domain : PyStr) (userIds : List Json) :
    (byDomain serverName userIds).get? domain =
      if domain = serverName ∨ idsOf userIds domain = [] then none
      else some (idsOf userIds domain) :=
  get?_foldl_group serverName domain userIds []

/-- A domain has one group. -/
theorem keyed_byDomain (serverName : PyStr) (userIds : List Json) :
    (byDomain serverName userIds).Keyed := by
  have hfold : ∀ m : Assoc PyStr (List PyStr), m.Keyed →
      (userIds.foldl (group serverName) m).Keyed := by
    induction userIds with
    | nil => exact fun _ hm => hm
    | cons v userIds ih =>
        intro m hm
        refine ih _ ?_
        unfold group
        split
        · split
          · split
            · exact hm
            · exact hm.set _ _
          · exact hm
        · exact hm
  exact hfold [] List.nodup_nil

end Groups

section Visits

variable {cfg : Config} {call : Call} {p : Progress} {c c' : Client} {domain uid : PyStr}
  {uids : List PyStr}

/-- What is cached for an id after its domain was visited. -/
def Client.entry (cfg : Config) (call : Call) (c : Client) (domain : PyStr) (uids : List PyStr)
    (uid : PyStr) : Option (Option Dict × ℚ) :=
  if uid ∈ c.fresh call domain uids then
    some (fetchedEntry cfg call domain (c.fresh call domain uids) uid)
  else c.cache.get? (domain, uid)

/-- The ids that are not in the cache depend on the entries of their domain only. -/
theorem fresh_congr (h : ∀ uid, c.cache.get? (domain, uid) = c'.cache.get? (domain, uid)) :
    c.fresh call domain uids = c'.fresh call domain uids := by
  unfold Client.fresh Client.isCached
  simp only [h]

/-- What is cached depends on the entries of the domain only. -/
theorem entry_congr (h : ∀ uid, c.cache.get? (domain, uid) = c'.cache.get? (domain, uid)) :
    c.entry cfg call domain uids uid = c'.entry cfg call domain uids uid := by
  unfold Client.entry
  rw [fresh_congr h, h]

/-- A visit changes the entries of its domain. -/
theorem cache_visit (cfg : Config) (call : Call) (p : Progress) (domain : PyStr)
    (uids : List PyStr) (uid : PyStr) :
    (visit cfg call p (domain, uids)).client.cache.get? (domain, uid) =
      p.client.entry cfg call domain uids uid := by
  have hinj : Function.Injective fun uid : PyStr => (domain, uid) := fun _ _ h => (Prod.mk.inj h).2
  unfold visit Client.entry
  dsimp only
  by_cases hfresh : p.client.fresh call domain uids = []
  · rw [if_pos hfresh, hfresh, if_neg List.not_mem_nil]
  · rw [if_neg hfresh]
    split
    · rename_i hmem
      exact Assoc.get?_foldl_set_of_mem hinj _ _ hmem
    · rename_i hmem
      exact Assoc.get?_foldl_set_of_ne _ _ _ fun u hu heq => hmem ((Prod.mk.inj heq).2 ▸ hu)

/-- A visit leaves the entries of the other domains. -/
theorem cache_visit_of_ne (cfg : Config) (call : Call) (p : Progress) {g : PyStr × List PyStr}
    (h : domain ≠ g.1) (uid : PyStr) :
    (visit cfg call p g).client.cache.get? (domain, uid) = p.client.cache.get? (domain, uid) := by
  unfold visit
  dsimp only
  split
  · rfl
  · exact Assoc.get?_foldl_set_of_ne _ _ _ fun _ _ heq => h (Prod.mk.inj heq).1

/-- The cache after all visits. -/
theorem cache_visits (cfg : Config) (call : Call) {gs : Assoc PyStr (List PyStr)} (hgs : gs.Keyed)
    (p : Progress) (domain uid : PyStr) :
    (gs.foldl (visit cfg call) p).client.cache.get? (domain, uid) =
      match gs.get? domain with
      | none => p.client.cache.get? (domain, uid)
      | some uids => p.client.entry cfg call domain uids uid := by
  induction gs generalizing p with
  | nil => rfl
  | cons g gs ih =>
      obtain ⟨d, uids⟩ := g
      obtain ⟨hd, hrest⟩ := List.nodup_cons.1 hgs
      rw [List.foldl_cons, ih hrest]
      by_cases hdomain : d = domain
      · subst hdomain
        have hnone : Assoc.get? gs d = none := by
          cases hget : Assoc.get? gs d with
          | none => rfl
          | some uids' =>
              exact absurd (List.mem_map.2 ⟨_, Assoc.mem_of_get? hget, rfl⟩) hd
        rw [hnone]
        simp only [Assoc.get?, if_true]
        exact cache_visit cfg call p d uids uid
      · have hkept := cache_visit_of_ne cfg call p (g := (d, uids)) (Ne.symm hdomain)
        simp only [Assoc.get?, if_neg hdomain]
        split
        · exact hkept uid
        · exact entry_congr hkept

/-- What is returned for an entry of the cache. -/
def viewOf (entry : Option (Option Dict × ℚ)) : Option Dict := (entry.map Prod.fst).getD none

/-- A visit returns what is cached then for the ids of its group. -/
theorem result_visit (cfg : Config) (call : Call) (p : Progress) (domain : PyStr)
    (h : uid ∈ uids) : (visit cfg call p (domain, uids)).result.get? uid =
      some (viewOf (p.client.entry cfg call domain uids uid)) := by
  have hset := Assoc.get?_foldl_set_of_mem Function.injective_id
    (fun uid => (visit cfg call p (domain, uids)).client.view domain uid) p.result h
  refine hset.trans (congrArg some ?_)
  rw [Client.view, cache_visit]
  rfl

/-- An id that is in no group gets no entry. -/
theorem result_visits_of_notMem (cfg : Config) (call : Call) {gs : Assoc PyStr (List PyStr)}
    (h : ∀ g ∈ gs, uid ∉ g.2) (p : Progress) :
    (gs.foldl (visit cfg call) p).result.get? uid = p.result.get? uid := by
  induction gs generalizing p with
  | nil => rfl
  | cons g gs ih =>
      rw [List.foldl_cons, ih fun g' hg' => h g' (List.mem_cons_of_mem _ hg')]
      exact Assoc.get?_foldl_set_of_ne id _ _ fun u hu heq => h g List.mem_cons_self (heq ▸ hu)

/-- What all visits return. -/
theorem result_visits (cfg : Config) (call : Call) {gs : Assoc PyStr (List PyStr)} (hgs : gs.Keyed)
    (hdomain : ∀ g ∈ gs, ∀ uid ∈ g.2, domainOf uid = some g.1) (hmem : (domain, uids) ∈ gs)
    (h : uid ∈ uids) (p : Progress) : (gs.foldl (visit cfg call) p).result.get? uid =
      some (viewOf (p.client.entry cfg call domain uids uid)) := by
  induction gs generalizing p with
  | nil => cases hmem
  | cons g gs ih =>
      obtain ⟨hg, hrest⟩ := List.nodup_cons.1 hgs
      have hdomain' : ∀ g ∈ gs, ∀ uid ∈ g.2, domainOf uid = some g.1 :=
        fun g' hg' => hdomain g' (List.mem_cons_of_mem _ hg')
      rw [List.foldl_cons]
      rcases List.mem_cons.1 hmem with rfl | hmem
      · -- the id belongs to this domain, so no later visit touches its entry
        have hlater : ∀ g' ∈ gs, uid ∉ g'.2 := by
          intro g' hg' hu
          have heq : domain = g'.1 :=
            Option.some.inj ((hdomain _ List.mem_cons_self uid h).symm.trans (hdomain' g' hg' uid hu))
          exact hg (List.mem_map.2 ⟨g', hg', heq.symm⟩)
        rw [result_visits_of_notMem cfg call hlater, result_visit cfg call p domain h]
      · have hne : domain ≠ g.1 := by
          rintro rfl
          exact hg (List.mem_map.2 ⟨_, hmem, rfl⟩)
        rw [ih hrest hdomain' hmem, entry_congr (cache_visit_of_ne cfg call p hne)]

/-- The request for the ids of a group that are not in the cache. -/
def Client.request (call : Call) (c : Client) (domain : PyStr) (uids : List PyStr) : Fetch :=
  ⟨c.calls, domain, c.fresh call domain uids, call.getJson domain (join (c.fresh call domain uids)),
    call.later domain⟩

theorem calls_visit (cfg : Config) (call : Call) (p : Progress) (g : PyStr × List PyStr) :
    (visit cfg call p g).client.calls = p.client.calls := by
  unfold visit
  dsimp only
  split <;> rfl

/-- A request that was made stays on record. -/
theorem fetches_visits (cfg : Config) (call : Call) (gs : Assoc PyStr (List PyStr)) (p : Progress)
    {f : Fetch} (hf : f ∈ p.client.fetches) : f ∈ (gs.foldl (visit cfg call) p).client.fetches := by
  induction gs generalizing p with
  | nil => exact hf
  | cons g gs ih =>
      refine ih _ ?_
      unfold visit
      dsimp only
      split
      · exact hf
      · exact List.mem_cons_of_mem _ hf

/-- The requests for ids that are not in the cache are made. -/
theorem request_mem_visits (cfg : Config) (call : Call) {gs : Assoc PyStr (List PyStr)}
    (hgs : gs.Keyed) (hmem : (domain, uids) ∈ gs) (p : Progress)
    (h : p.client.fresh call domain uids ≠ []) :
    p.client.request call domain uids ∈ (gs.foldl (visit cfg call) p).client.fetches := by
  induction gs generalizing p with
  | nil => cases hmem
  | cons g gs ih =>
      obtain ⟨hg, hrest⟩ := List.nodup_cons.1 hgs
      rw [List.foldl_cons]
      rcases List.mem_cons.1 hmem with rfl | hmem
      · refine fetches_visits cfg call gs _ ?_
        unfold visit
        dsimp only
        rw [if_neg h]
        exact List.mem_cons_self
      · have hne : domain ≠ g.1 := by
          rintro rfl
          exact hg (List.mem_map.2 ⟨_, hmem, rfl⟩)
        have hfresh : (visit cfg call p g).client.fresh call domain uids =
            p.client.fresh call domain uids := fresh_congr (cache_visit_of_ne cfg call p hne)
        have hmade := ih hrest hmem (visit cfg call p g) (hfresh ▸ h)
        rw [Client.request, hfresh, calls_visit] at hmade
        exact hmade

end Visits

/-! ### What one call does -/

section Calls

variable {cfg : Config} {call : Call} {c : Client} {domain uid : PyStr}

/-- The ids of a domain in a call. -/
abbrev Call.ids (call : Call) (domain : PyStr) : List PyStr := idsOf call.userIds domain

theorem mem_byDomain (hne : domain ≠ cfg.serverName) (h : uid ∈ call.ids domain) :
    (domain, call.ids domain) ∈ byDomain cfg.serverName call.userIds := by
  refine Assoc.mem_of_get? ?_
  rw [get?_byDomain, if_neg]
  rintro (heq | hnil)
  · exact hne heq
  · exact List.ne_nil_of_mem h hnil

theorem of_mem_byDomain {g : PyStr × List PyStr} (h : g ∈ byDomain cfg.serverName call.userIds) :
    g.1 ≠ cfg.serverName ∧ g.2 = call.ids g.1 := by
  have hget := (keyed_byDomain cfg.serverName call.userIds).get?_of_mem h
  rw [get?_byDomain] at hget
  split at hget
  · cases hget
  · rename_i hne
    exact ⟨fun heq => hne (.inl heq), (Option.some.inj hget).symm⟩

/-- **The cache after a call.** -/
theorem cache_fetchRoles (cfg : Config) (call : Call) (c : Client) (domain uid : PyStr) :
    (fetchRoles cfg call c).client.cache.get? (domain, uid) =
      if domain = cfg.serverName then c.cache.get? (domain, uid)
      else c.entry cfg call domain (call.ids domain) uid := by
  refine (cache_visits cfg call (keyed_byDomain _ _) _ domain uid).trans ?_
  rw [get?_byDomain]
  by_cases hserver : domain = cfg.serverName
  · rw [if_pos (.inl hserver), if_pos hserver]
  · rw [if_neg hserver]
    by_cases hnil : call.ids domain = []
    · rw [if_pos (.inr hnil), hnil]
      exact (if_neg List.not_mem_nil).symm
    · rw [if_neg (not_or.2 ⟨hserver, hnil⟩)]

/-- **What a call returns for an id of another server.** -/
theorem result_fetchRoles (cfg : Config) (c : Client) (hne : domain ≠ cfg.serverName)
    (h : uid ∈ call.ids domain) : (fetchRoles cfg call c).result.get? uid =
      some (viewOf (c.entry cfg call domain (call.ids domain) uid)) := by
  refine result_visits cfg call (keyed_byDomain _ _) (fun g hg u hu => ?_) (mem_byDomain hne h) h _
  rw [(of_mem_byDomain hg).2] at hu
  exact (mem_idsOf.1 hu).2

/-- **The result has entries for the ids of other servers only.** -/
theorem result_fetchRoles_eq_none (cfg : Config) (call : Call) (c : Client)
    (h : ∀ domain, domain ≠ cfg.serverName → uid ∉ call.ids domain) :
    (fetchRoles cfg call c).result.get? uid = none := by
  refine result_visits_of_notMem cfg call (fun g hg hu => ?_) _
  obtain ⟨hne, hids⟩ := of_mem_byDomain hg
  exact h g.1 hne (hids ▸ hu)

end Calls

/-! ### Where the roles come from -/

/-- The answer to the request has the view for the id, which the request names. -/
def Fetch.Gives (f : Fetch) (uid : PyStr) (view : Dict) : Prop :=
  uid ∈ f.userIds ∧ ∃ response, f.answer = some response ∧ (uid, .obj view) ∈ rawRoles response

/-- Every view in the cache is from an answer of the server of its id, until it expires. -/
def Sourced (cfg : Config) (c : Client) : Prop :=
  ∀ domain uid view expiresAt, c.cache.get? (domain, uid) = some (some view, expiresAt) →
    ∃ f ∈ c.fetches, f.destination = domain ∧ f.Gives uid view ∧ expiresAt = f.moment + cfg.ttlSec

section Source

variable {cfg : Config} {call : Call} {c : Client} {domain uid : PyStr} {view : Dict}

/-- A view that is received is in the answer. -/
theorem mem_of_received {response : Json}
    (h : (received domain response).get? uid = some (some view)) :
    (uid, .obj view) ∈ rawRoles response := by
  have hfold : ∀ (l : Dict) (out : Assoc PyStr (Option Dict)),
      (l.foldl (receive domain) out).get? uid = some (some view) →
        (uid, .obj view) ∈ l ∨ out.get? uid = some (some view) := by
    intro l
    induction l with
    | nil => exact fun _ h => .inr h
    | cons item l ih =>
        intro out h
        rcases ih _ h with hmem | hout
        · exact .inl (List.mem_cons_of_mem _ hmem)
        · unfold receive at hout
          split at hout
          · by_cases huid : uid = item.1
            · subst huid
              rw [Assoc.get?_set_self] at hout
              split at hout
              · rename_i view' hitem
                obtain rfl := Option.some.inj (Option.some.inj hout)
                exact .inl (List.mem_cons.2 (.inl (Prod.ext rfl hitem.symm)))
              · cases hout
            · rw [Assoc.get?_set_of_ne _ _ huid] at hout
              exact .inr hout
          · exact .inr hout
  rcases hfold _ _ h with hmem | hnil
  · exact hmem
  · cases hnil

/-- A view that is fetched is in the answer to the request. -/
theorem answer_of_fetched {fresh : List PyStr}
    (h : ((fetched call domain fresh).get? uid).getD none = some view) :
    ∃ response, call.getJson domain (join fresh) = some response ∧
      (uid, .obj view) ∈ rawRoles response := by
  have hget : (fetched call domain fresh).get? uid = some (some view) := by
    cases hget : (fetched call domain fresh).get? uid with
    | none =>
        rw [hget] at h
        cases h
    | some v =>
        rw [hget] at h
        exact congrArg some h
  unfold fetched at hget
  split at hget
  · rename_i response hresponse
    exact ⟨response, hresponse, mem_of_received hget⟩
  · -- the request failed, and nothing but `None` is kept
    obtain ⟨u, -, heq⟩ := List.mem_map.1 (Assoc.mem_of_get? hget)
    cases (Prod.mk.inj heq).2

/-- **Where an entry comes from**: a request of this call, or one whose answer has not expired. -/
theorem source_of_entry {uids : List PyStr} {expiresAt : ℚ} (hc : Sourced cfg c)
    (h : c.entry cfg call domain uids uid = some (some view, expiresAt)) :
    ∃ f, (uid ∈ c.fresh call domain uids ∧ f = c.request call domain uids ∨
        uid ∉ c.fresh call domain uids ∧ f ∈ c.fetches) ∧
      f.destination = domain ∧ f.Gives uid view ∧ expiresAt = f.moment + cfg.ttlSec := by
  unfold Client.entry at h
  split at h
  · rename_i hmem
    obtain ⟨hview, hexpires⟩ := Prod.mk.inj (Option.some.inj h)
    exact ⟨_, .inl ⟨hmem, rfl⟩, rfl, ⟨hmem, answer_of_fetched hview⟩, hexpires.symm⟩
  · rename_i hmem
    obtain ⟨f, hf, hsource⟩ := hc _ _ _ _ h
    exact ⟨f, .inr ⟨hmem, hf⟩, hsource⟩

/-- **A call keeps the source of every view.** -/
theorem sourced_fetchRoles (call : Call) (hc : Sourced cfg c) :
    Sourced cfg (fetchRoles cfg call c).client := by
  intro domain uid view expiresAt h
  rw [cache_fetchRoles] at h
  split at h
  · obtain ⟨f, hf, hsource⟩ := hc _ _ _ _ h
    exact ⟨f, fetches_visits cfg call _ _ hf, hsource⟩
  · rename_i hne
    obtain ⟨f, ⟨hmem, rfl⟩ | ⟨-, hf⟩, hsource⟩ := source_of_entry hc h
    · refine ⟨_, ?_, hsource⟩
      have hids : uid ∈ call.ids domain := (List.mem_filter.1 hmem).1
      exact request_mem_visits cfg call (keyed_byDomain _ _) (mem_byDomain hne hids)
        ⟨c, [], call.now, []⟩ (List.ne_nil_of_mem hmem)
    · exact ⟨f, fetches_visits cfg call _ _ hf, hsource⟩

/-- Along a sequence of calls every view has its source. -/
theorem sourced_run (cfg : Config) (calls : List Call) : Sourced cfg (run cfg calls) := by
  have hfold : ∀ c, Sourced cfg c →
      Sourced cfg (calls.foldl (fun c call => (fetchRoles cfg call c).client) c) := by
    induction calls with
    | nil => exact fun _ hc => hc
    | cons call calls ih => exact fun c hc => ih _ (sourced_fetchRoles call hc)
  exact hfold _ fun _ _ _ _ h => by cases h

theorem calls_run (cfg : Config) (calls : List Call) : (run cfg calls).calls = calls.length := by
  have hfold : ∀ c, (calls.foldl (fun c call => (fetchRoles cfg call c).client) c).calls =
      c.calls + calls.length := by
    induction calls with
    | nil => exact fun _ => rfl
    | cons call calls ih =>
        intro c
        rw [List.foldl_cons, ih, List.length_cons]
        show c.calls + 1 + _ = _
        omega
  exact (hfold _).trans (Nat.zero_add _)

end Source

/-! ### What another server cannot change -/

/-- Two calls that differ at most in the answers of one server. -/
structure Call.SameBut (server : PyStr) (call call' : Call) : Prop where
  userIds : call'.userIds = call.userIds
  now : call'.now = call.now
  getJson : ∀ destination, destination ≠ server → call'.getJson destination = call.getJson destination
  later : call'.later = call.later

/-- Two clients whose entries for the users of other servers are the same. -/
def Client.SameBut (server : PyStr) (c c' : Client) : Prop :=
  ∀ domain, domain ≠ server → ∀ uid, c'.cache.get? (domain, uid) = c.cache.get? (domain, uid)

section Isolation

variable {cfg : Config} {server domain uid : PyStr} {call call' : Call} {c c' : Client}

/-- What is cached for the users of another server after a call. -/
theorem entry_sameBut (uids : List PyStr) (hcall : call.SameBut server call')
    (hc : c.SameBut server c') (hne : domain ≠ server) :
    c'.entry cfg call' domain uids uid = c.entry cfg call domain uids uid := by
  have hfresh : c'.fresh call' domain uids = c.fresh call domain uids := by
    unfold Client.fresh Client.isCached
    simp only [hcall.now, hc domain hne]
  have hentry : ∀ fresh, fetchedEntry cfg call' domain fresh uid =
      fetchedEntry cfg call domain fresh uid := by
    intro fresh
    unfold fetchedEntry fetched
    rw [hcall.getJson domain hne, hcall.later]
  unfold Client.entry
  rw [hfresh, hentry, hc domain hne]

/-- **The answers of a server change no entry of another one.** -/
theorem sameBut_fetchRoles (hcall : call.SameBut server call') (hc : c.SameBut server c') :
    (fetchRoles cfg call c).client.SameBut server (fetchRoles cfg call' c').client := by
  intro domain hne uid
  rw [cache_fetchRoles, cache_fetchRoles, hc domain hne,
    show call'.ids domain = call.ids domain from congrArg (idsOf · domain) hcall.userIds,
    entry_sameBut _ hcall hc hne]

theorem sameBut_run {calls calls' : List Call}
    (h : List.Forall₂ (Call.SameBut server) calls calls') :
    (run cfg calls).SameBut server (run cfg calls') := by
  have hfold : ∀ c c', c.SameBut server c' →
      (calls.foldl (fun c call => (fetchRoles cfg call c).client) c).SameBut server
        (calls'.foldl (fun c call => (fetchRoles cfg call c).client) c') := by
    induction h with
    | nil => exact fun _ _ hc => hc
    | cons hcall _ ih => exact fun c c' hc => ih _ _ (sameBut_fetchRoles hcall hc)
  exact hfold _ _ fun _ _ _ => rfl

end Isolation

/-- **The roles of a user come from the server of the user.**  After any sequence of calls and
whatever the servers answer: a call returns an entry exactly for the ids that have a domain, and
that of another server; a view that it returns for an id is in an answer of the server of that id
to a request that named the id, which was made by this call or had not expired when it began; and
other answers of a server change nothing of what is returned for the users of the others. -/
theorem roles_from_own_server (cfg : Config) (calls : List Call) (call : Call) :
    (∀ uid, ((fetchRoles cfg call (run cfg calls)).result.get? uid).isSome = true ↔
      .str uid ∈ call.userIds ∧ ∃ domain, domainOf uid = some domain ∧ domain ≠ cfg.serverName) ∧
    (∀ uid view, (fetchRoles cfg call (run cfg calls)).result.get? uid = some (some view) →
      ∃ f ∈ (fetchRoles cfg call (run cfg calls)).client.fetches,
        domainOf uid = some f.destination ∧ f.Gives uid view ∧
          (f.call = calls.length ∨ call.now < f.moment + cfg.ttlSec)) ∧
    ∀ server calls' call', List.Forall₂ (Call.SameBut server) calls calls' →
      call.SameBut server call' → ∀ uid, domainOf uid ≠ some server →
        (fetchRoles cfg call' (run cfg calls')).result.get? uid =
          (fetchRoles cfg call (run cfg calls)).result.get? uid := by
  -- an id is asked for at another server, or there is no entry for it
  have hcases : ∀ uid, (∃ domain, domain ≠ cfg.serverName ∧ uid ∈ call.ids domain) ∨
      ∀ domain, domain ≠ cfg.serverName → uid ∉ call.ids domain := by
    intro uid
    by_cases h : ∃ domain, domain ≠ cfg.serverName ∧ uid ∈ call.ids domain
    · exact .inl h
    · exact .inr fun domain hne hmem => h ⟨domain, hne, hmem⟩
  refine ⟨fun uid => ?_, fun uid view h => ?_, fun server calls' call' hcalls hcall uid hne => ?_⟩
  · rcases hcases uid with ⟨domain, hne, hmem⟩ | hno
    · rw [result_fetchRoles cfg _ hne hmem]
      obtain ⟨hgiven, hdomain⟩ := mem_idsOf.1 hmem
      exact iff_of_true rfl ⟨hgiven, domain, hdomain, hne⟩
    · rw [result_fetchRoles_eq_none cfg call _ hno]
      refine iff_of_false (fun h => by cases h) ?_
      rintro ⟨hgiven, domain, hdomain, hne⟩
      exact hno domain hne (mem_idsOf.2 ⟨hgiven, hdomain⟩)
  · rcases hcases uid with ⟨domain, hne, hmem⟩ | hno
    · rw [result_fetchRoles cfg _ hne hmem] at h
      have hview : viewOf ((run cfg calls).entry cfg call domain (call.ids domain) uid) = some view :=
        Option.some.inj h
      cases hentry : (run cfg calls).entry cfg call domain (call.ids domain) uid with
      | none =>
          rw [hentry] at hview
          cases hview
      | some entry =>
          obtain ⟨v, expiresAt⟩ := entry
          rw [hentry] at hview
          obtain rfl : v = some view := hview
          obtain ⟨f, hf, rfl, hgives, rfl⟩ := source_of_entry (sourced_run cfg calls) hentry
          refine ⟨f, ?_, (mem_idsOf.1 hmem).2, hgives, ?_⟩
          · rcases hf with ⟨hfresh, hf⟩ | ⟨-, hf⟩
            · have hmade := request_mem_visits cfg call (keyed_byDomain _ _) (mem_byDomain hne hmem)
                ⟨run cfg calls, [], call.now, []⟩ (List.ne_nil_of_mem hfresh)
              rwa [← hf] at hmade
            · exact fetches_visits cfg call _ _ hf
          · rcases hf with ⟨-, hf⟩ | ⟨hfresh, -⟩
            · refine .inl ?_
              rw [hf]
              exact calls_run cfg calls
            · -- the id is in the cache, so its entry had not expired
              have hcached : (run cfg calls).isCached f.destination uid call.now = true := by
                by_contra hno
                exact hfresh (List.mem_filter.2 ⟨hmem, by simpa using hno⟩)
              rw [Client.entry, if_neg hfresh] at hentry
              rw [Client.isCached, hentry] at hcached
              exact .inr (of_decide_eq_true hcached)
    · rw [result_fetchRoles_eq_none cfg call _ hno] at h
      cases h
  · have hids : ∀ domain, call'.ids domain = call.ids domain :=
      fun domain => congrArg (idsOf · domain) hcall.userIds
    rcases hcases uid with ⟨domain, hserver, hmem⟩ | hno
    · have hother : domain ≠ server := by
        rintro rfl
        exact hne (mem_idsOf.1 hmem).2
      rw [result_fetchRoles cfg _ hserver hmem,
        result_fetchRoles cfg _ hserver ((hids domain).symm ▸ hmem), hids,
        entry_sameBut _ hcall (sameBut_run hcalls) hother]
    · rw [result_fetchRoles_eq_none cfg call _ hno, result_fetchRoles_eq_none cfg call' _]
      exact fun domain hserver hmem => hno domain hserver (hids domain ▸ hmem)

/-- A call for the id of a user of `b` at the start. -/
def earlyCall : Call where
  userIds := [.str "@u:b"]
  now := 0
  getJson := fun _ _ => some (.obj [("roles", .obj [("@u:b", .obj [("code", .str "ai")])])])
  later := fun _ => 0

/-- A call 299 seconds later, which first asks the server `a`; that takes six seconds. -/
def slowCall : Call where
  userIds := [.str "@v:a", .str "@u:b"]
  now := 299
  getJson := fun _ _ => none
  later := fun _ => 305

/-- **A view may be returned after it has expired**: `now` is read once, so an answer that expires
while another server is asked is still taken. -/
theorem expired_view_taken : ∃ (cfg : Config) (calls : List Call) (call : Call) (uid : PyStr)
    (view : Dict) (moment : ℚ),
    (fetchRoles cfg call (run cfg calls)).result.get? uid = some (some view) ∧
    (fetchRoles cfg call (run cfg calls)).taken.get? uid = some moment ∧
    ∀ f ∈ (fetchRoles cfg call (run cfg calls)).client.fetches, domainOf uid = some f.destination →
      f.call ≠ calls.length ∧ f.moment + cfg.ttlSec < moment := by
  refine ⟨⟨"our_host", 300⟩, [earlyCall], slowCall, "@u:b", [("code", .str "ai")], 305, ?_, ?_, ?_⟩
  · decide +kernel
  · decide +kernel
  · decide +kernel

end Federation
end UserRoles
end Liza
