/-
# The search for users across servers

`servers/synapse/modules/user_search_guard`: a server lists its own users that match a query, and
asks the servers of its federation whitelist for theirs.  What a server has in its directory for a
query is given, and so is what each of the others answers: anything that parses, or nothing
(`none`).  `get_json` raises for no answer, as for one that is no object, and that is caught.  An
exception that is not caught ends the search (`none` as its result).

The tables of Unicode (`str.casefold`, and the blanks of `str.strip` and `str.split`) are
parameters.  A query gets to another server as it was sent.  That a requester is logged in is left
out, and so are the signatures between servers.
-/

import Liza.Lib.PyOps
import Mathlib.Data.List.DropRight
import Mathlib.Data.List.Nodup

set_option autoImplicit false

namespace Liza
namespace UserSearch

open Lib

/-! ### The words of a name -/

/-- What `str` knows of Unicode. -/
structure Unicode where
  casefold : PyStr → PyStr
  isSpace : CodePoint → Bool

section Words

variable (U : Unicode)

/-- `s.strip()`. -/
def strip (s : PyStr) : PyStr := (s.dropWhile U.isSpace).rdropWhile U.isSpace

/-- `s.split()`. -/
def split (s : PyStr) : List PyStr := (s.splitOnP U.isSpace).filter fun word => word ≠ []

/-- `normalize`. -/
def normalize (text : PyStr) : PyStr := U.casefold ([codePoint ' '].intercalate (split U text))

/-- The part of a user id before the server. -/
def localpart (userId : PyStr) : PyStr :=
  if (py "@").isPrefixOf userId then (split1 (codePoint ':') (userId.drop 1)).1 else userId

/-- `matches_prefix`. -/
def matchesPrefix (displayName : Option PyStr) (userId query : PyStr) : Bool :=
  query ≠ [] && (((displayName.elim [] fun name => split U (normalize U name)).any
    fun word => (normalize U query).isPrefixOf word) ||
      (normalize U query).isPrefixOf (normalize U (localpart userId)))

end Words

/-! ### The users of a server -/

/-- A result of `search_user_dir`. -/
structure Profile where
  userId : PyStr
  displayName : Option PyStr
  avatarUrl : Option PyStr

/-- An entry of the answer. -/
structure Entry where
  userId : PyStr
  displayName : Json
  avatarUrl : Json
  homeserver : PyStr
deriving DecidableEq

/-- A server: its name, whether it shows its users to others, and what its directory has for a
query (or the exception that the database raises). -/
structure Homeserver where
  hostname : PyStr
  shareUsersOverFederation : Bool
  searchUserDir : PyStr → Option (List Profile)

/-- `":" + server_name`. -/
def ending (serverName : PyStr) : PyStr := codePoint ':' :: serverName

/-- A text, or `None`. -/
def ofText (text : Option PyStr) : Json := text.elim .null .str

def Profile.entry (hostname : PyStr) (p : Profile) : Entry :=
  ⟨p.userId, ofText p.displayName, ofText p.avatarUrl, hostname⟩

/-- `search_local_users`. -/
def Homeserver.searchLocalUsers (U : Unicode) (h : Homeserver) (query : PyStr) :
    Option (List Entry) :=
  (h.searchUserDir query).map fun profiles =>
    (profiles.filter fun p => (ending h.hostname).isSuffixOf p.userId &&
      matchesPrefix U p.displayName p.userId query).map (Profile.entry h.hostname)

/-- What `search_local_users` lists, and nothing where it raises. -/
def Homeserver.listed (U : Unicode) (h : Homeserver) (query : PyStr) : List Entry :=
  (h.searchLocalUsers U query).getD []

def Entry.json (e : Entry) : Json :=
  .obj [(py "user_id", .str e.userId), (py "display_name", e.displayName),
    (py "avatar_url", e.avatarUrl), (py "homeserver", .str e.homeserver)]

/-- What a server lets the others know. -/
def Homeserver.shown (U : Unicode) (h : Homeserver) (query : PyStr) : List Entry :=
  if query = [] ∨ h.shareUsersOverFederation = false then [] else h.listed U query

/-- `UserSearchFederationServlet.on_GET`. -/
def onGet (U : Unicode) (h : Homeserver) (query : PyStr) : Json :=
  .obj [(py "results", .arr ((h.shown U (strip U query)).map Entry.json))]

/-! ### What the others answer -/

/-- `belongs_to_domain`. -/
def belongsToDomain (userId destination : PyStr) : Bool :=
  (py "@").isPrefixOf userId && (ending destination).isSuffixOf userId

/-- `(response or {}).get("results", [])`. -/
def resultsOf (response : Dict) : Json := (Dict.get? response "results").getD (.arr [])

/-- What a loop goes over; the keys of an object and the letters of a text have no `get`. -/
def itemsOf : Json → Option (List Json)
  | .arr items => some items
  | .obj [] => some []
  | .str [] => some []
  | _ => none

/-- The body of the loop: an item of another server is passed over, and one that is no object, or
whose `user_id` is no text, raises. -/
def entryOf (destination : PyStr) : Json → Option (Option Entry)
  | .obj item =>
      match (Dict.get item "user_id").or (.str []) with
      | .str userId =>
          some (if belongsToDomain userId destination then
            some ⟨userId, Dict.get item "display_name", Dict.get item "avatar_url", destination⟩
          else none)
      | _ => none
  | _ => none

/-- The loop over the items. -/
def entriesOf (destination : PyStr) : List Json → Option (List Entry)
  | [] => some []
  | item :: items => do
      let entry ← entryOf destination item
      let entries ← entriesOf destination items
      some (entry.toList ++ entries)

/-- `fetch_domain`: `get_json` returns an object, or raises. -/
def fetchDomain (destination : PyStr) : Option Json → Option (List Entry)
  | some (.obj response) => do
      let items ← itemsOf (resultsOf response)
      entriesOf destination items
  | _ => some []

/-- `yieldable_gather_results`, and what is made of its results. -/
def gather (answer : PyStr → Option Json) : List PyStr → Option (List Entry)
  | [] => some []
  | d :: domains => do
      let entries ← fetchDomain d (answer d)
      let others ← gather answer domains
      some (entries ++ others)

/-! ### The search -/

/-- `MIN_FEDERATED_QUERY_LEN`. -/
def minFederatedQueryLen : ℕ := 2

/-- `_MAX_RESULTS`. -/
def maxResults : ℕ := 50

/-- The loop of `deduplicate_users`. -/
def firsts (seen : List PyStr) : List Entry → List Entry
  | [] => []
  | e :: l =>
      if e.userId = [] ∨ e.userId ∈ seen then firsts seen l else e :: firsts (e.userId :: seen) l

/-- `deduplicate_users`. -/
def deduplicateUsers (users : List Entry) : List Entry := firsts [] users

/-- The entries of the others, for a query that is long enough. -/
def federated (domains : List PyStr) (answer : PyStr → PyStr → Option Json) (query : PyStr) :
    Option (List Entry) :=
  if minFederatedQueryLen ≤ query.length then gather (fun d => answer d query) domains else some []

/-- `search`, after the query was stripped. -/
def searchFor (U : Unicode) (h : Homeserver) (domains : List PyStr)
    (answer : PyStr → PyStr → Option Json) (query : PyStr) : Option (List Entry) :=
  if query = [] then some []
  else do
    let own ← h.searchLocalUsers U query
    let others ← federated domains answer query
    some ((deduplicateUsers (own ++ others)).take maxResults)

/-- `search`, with the domains of the whitelist. -/
def search (U : Unicode) (h : Homeserver) (domains : List PyStr)
    (answer : PyStr → PyStr → Option Json) (query : PyStr) : Option (List Entry) :=
  searchFor U h domains answer (strip U query)

/-! ### Which answers end a search -/

section Replies

variable {destination : PyStr} {item response : Json} {items : List Json} {domains : List PyStr}
  {answer : PyStr → Option Json}

/-- An item of an answer: an object whose `user_id` is a text, or counts as none. -/
def ReadableItem (item : Json) : Prop :=
  ∃ d, item = .obj d ∧
    ((Dict.get d "user_id").truthy = false ∨ ∃ s, Dict.get d "user_id" = .str s)

/-- What `results` may be. -/
def ReadableResults : Option Json → Prop
  | none => True
  | some results => results = .obj [] ∨ results = .str [] ∨
      ∃ items, results = .arr items ∧ ∀ item ∈ items, ReadableItem item

/-- An answer that the loop gets through, or does not get to. -/
def Readable (response : Json) : Prop :=
  ∀ d, response = .obj d → ReadableResults (Dict.get? d "results")

theorem entryOf_isSome : (entryOf destination item).isSome = true ↔ ReadableItem item := by
  constructor
  · intro h
    cases item with
    | obj d =>
        refine ⟨d, rfl, ?_⟩
        unfold entryOf Json.or at h
        dsimp only at h
        cases htruthy : (Dict.get d "user_id").truthy with
        | false => exact .inl rfl
        | true =>
            rw [htruthy, if_pos rfl] at h
            cases huser : Dict.get d "user_id" with
            | str s => exact .inr ⟨s, rfl⟩
            | _ =>
                rw [huser] at h
                cases h
    | _ => cases h
  · rintro ⟨d, rfl, hfalse | ⟨s, hs⟩⟩
    · unfold entryOf Json.or
      dsimp only
      rw [hfalse, if_neg Bool.false_ne_true]
      rfl
    · unfold entryOf Json.or
      dsimp only
      rw [hs]
      cases (Json.str s).truthy with
      | true => rfl
      | false => rfl

theorem entriesOf_cons : entriesOf destination (item :: items) =
    (entryOf destination item).bind fun entry =>
      (entriesOf destination items).map fun entries => entry.toList ++ entries := by
  simp only [Option.map_eq_bind]
  rfl

theorem entriesOf_isSome :
    (entriesOf destination items).isSome = true ↔ ∀ item ∈ items, ReadableItem item := by
  induction items with
  | nil => simp [entriesOf]
  | cons item items ih =>
      rw [List.forall_mem_cons, ← ih, ← @entryOf_isSome destination, entriesOf_cons]
      cases entryOf destination item with
      | none => simp
      | some entry => simp

theorem results_isSome {results : Option Json} :
    ((itemsOf (results.getD (.arr []))).bind (entriesOf destination)).isSome = true ↔
      ReadableResults results := by
  cases results with
  | none => exact ⟨fun _ => trivial, fun _ => rfl⟩
  | some results =>
      rw [Option.getD_some]
      unfold ReadableResults
      cases results with
      | arr items =>
          refine entriesOf_isSome.trans ⟨fun h => .inr (.inr ⟨items, rfl, h⟩), ?_⟩
          rintro (h | h | ⟨items', h, hall⟩)
          · cases h
          · cases h
          · obtain rfl := Json.arr.inj h
            exact hall
      | obj d =>
          cases d with
          | nil => exact ⟨fun _ => .inl rfl, fun _ => rfl⟩
          | cons kv d => simp [itemsOf]
      | str s =>
          cases s with
          | nil => exact ⟨fun _ => .inr (.inl rfl), fun _ => rfl⟩
          | cons c s => simp [itemsOf]
      | _ => simp [itemsOf]

theorem fetchDomain_isSome :
    (fetchDomain destination (some response)).isSome = true ↔ Readable response := by
  cases response with
  | obj d =>
      have heq : fetchDomain destination (some (.obj d)) =
          (itemsOf (resultsOf d)).bind (entriesOf destination) := rfl
      rw [heq, resultsOf, results_isSome]
      constructor
      · rintro h d' hobj
        obtain rfl := Json.obj.inj hobj
        exact h
      · intro h
        exact h d rfl
  | _ => exact ⟨fun _ _ hobj => (by cases hobj), fun _ => rfl⟩

theorem fetchDomain_eq_none {reply : Option Json} : fetchDomain destination reply = none ↔
    ∃ response, reply = some response ∧ ¬Readable response := by
  cases reply with
  | none => simp [fetchDomain]
  | some response =>
      rw [← Option.not_isSome_iff_eq_none, fetchDomain_isSome]
      simp

theorem gather_cons {d : PyStr} : gather answer (d :: domains) =
    (fetchDomain d (answer d)).bind fun entries =>
      (gather answer domains).map fun others => entries ++ others := by
  simp only [Option.map_eq_bind]
  rfl

theorem gather_eq_none : gather answer domains = none ↔
    ∃ d ∈ domains, ∃ response, answer d = some response ∧ ¬Readable response := by
  induction domains with
  | nil => simp [gather]
  | cons d domains ih =>
      rw [gather_cons, List.exists_mem_cons_iff, ← ih, ← fetchDomain_eq_none]
      cases fetchDomain d (answer d) with
      | none => simp
      | some entries => simp

end Replies

section Search

variable {U : Unicode} {h : Homeserver} {domains : List PyStr}
  {answer : PyStr → PyStr → Option Json} {query q : PyStr}

theorem searchFor_eq (hq : q ≠ []) : searchFor U h domains answer q =
    (h.searchLocalUsers U q).bind fun own => (federated domains answer q).map fun others =>
      (deduplicateUsers (own ++ others)).take maxResults := by
  unfold searchFor
  rw [if_neg hq]
  simp only [Option.map_eq_bind]
  rfl

theorem federated_eq_none : federated domains answer q = none ↔
    minFederatedQueryLen ≤ q.length ∧ ∃ d ∈ domains, ∃ response,
      answer d q = some response ∧ ¬Readable response := by
  unfold federated
  by_cases hlen : minFederatedQueryLen ≤ q.length
  · rw [if_pos hlen, gather_eq_none]
    exact (and_iff_right hlen).symm
  · simp [hlen]

/-- **When a search fails.**  A search fails exactly when the directory of the server itself raises,
or when one of the others, asked for a query of two letters at least, has answered with an object
whose `results` are neither empty nor a list of objects whose `user_id` is a text; a server that
cannot be reached, or that answers with anything else, is not in the way. -/
theorem search_fails_iff : search U h domains answer query = none ↔
    strip U query ≠ [] ∧ (h.searchUserDir (strip U query) = none ∨
      minFederatedQueryLen ≤ (strip U query).length ∧ ∃ d ∈ domains, ∃ response,
        answer d (strip U query) = some response ∧ ¬Readable response) := by
  unfold search
  generalize strip U query = q
  by_cases hq : q = []
  · simp [hq, searchFor]
  · rw [searchFor_eq hq, ← federated_eq_none, and_iff_right hq]
    unfold Homeserver.searchLocalUsers
    cases h.searchUserDir q with
    | none => simp
    | some profiles => simp

end Search

/-! ### What a search may return -/

section Answers

variable {U : Unicode} {h : Homeserver} {domains seen : List PyStr} {d : PyStr}
  {answer : PyStr → PyStr → Option Json} {query q : PyStr} {e : Entry}
  {own others results entries l l' : List Entry} {reply : Option Json} {item : Json}
  {items : List Json}

/-- The answer has the entry among its results. -/
def Lists (reply : Option Json) (e : Entry) : Prop :=
  ∃ d items item, reply = some (.obj d) ∧ Dict.get? d "results" = some (.arr items) ∧
    Json.obj item ∈ items ∧ Dict.get item "user_id" = .str e.userId ∧
    Dict.get item "display_name" = e.displayName ∧ Dict.get item "avatar_url" = e.avatarUrl

theorem firsts_subset : firsts seen l ⊆ l := by
  induction l generalizing seen with
  | nil => exact List.Subset.refl _
  | cons x l ih =>
      unfold firsts
      split
      · exact List.subset_cons_of_subset x ih
      · exact List.cons_subset_cons x ih

theorem not_seen_of_mem_firsts (he : e ∈ firsts seen l) : e.userId ≠ [] ∧ e.userId ∉ seen := by
  induction l generalizing seen with
  | nil => cases he
  | cons x l ih =>
      unfold firsts at he
      split at he
      case isTrue hskip => exact ih he
      case isFalse hkeep =>
          rcases List.mem_cons.mp he with rfl | he
          · exact not_or.mp hkeep
          · exact ⟨(ih he).1, fun hseen => (ih he).2 (List.mem_cons_of_mem _ hseen)⟩

theorem firsts_nodup : ((firsts seen l).map Entry.userId).Nodup := by
  induction l generalizing seen with
  | nil => exact List.nodup_nil
  | cons x l ih =>
      unfold firsts
      split
      · exact ih
      · rw [List.map_cons]
        refine List.nodup_cons.mpr ⟨fun hmem => ?_, ih⟩
        obtain ⟨e, he, hid⟩ := List.mem_map.mp hmem
        exact (not_seen_of_mem_firsts he).2 (hid ▸ List.mem_cons_self)

/-- The second part of a list only adds ids that the first has not. -/
theorem firsts_append : ∃ rest, firsts seen (l ++ l') = firsts seen l ++ rest ∧
    ∀ e ∈ rest, e ∈ l' ∧ ∀ x ∈ l, x.userId ≠ e.userId := by
  induction l generalizing seen with
  | nil => exact ⟨firsts seen l', rfl, fun e he => ⟨firsts_subset he, List.forall_mem_nil _⟩⟩
  | cons x l ih =>
      rw [List.cons_append]
      unfold firsts
      split
      case isTrue hskip =>
          obtain ⟨rest, heq, hrest⟩ := @ih seen
          refine ⟨rest, heq, fun e he =>
            ⟨(hrest e he).1, List.forall_mem_cons.mpr ⟨?_, (hrest e he).2⟩⟩⟩
          rintro hid
          have hmem : e ∈ firsts seen (l ++ l') := heq ▸ List.mem_append_right _ he
          rw [hid] at hskip
          exact hskip.elim (not_seen_of_mem_firsts hmem).1 (not_seen_of_mem_firsts hmem).2
      case isFalse hkeep =>
          obtain ⟨rest, heq, hrest⟩ := @ih (x.userId :: seen)
          refine ⟨rest, by rw [heq, List.cons_append], fun e he =>
            ⟨(hrest e he).1, List.forall_mem_cons.mpr ⟨?_, (hrest e he).2⟩⟩⟩
          rintro hid
          have hmem : e ∈ firsts (x.userId :: seen) (l ++ l') := heq ▸ List.mem_append_right _ he
          exact (not_seen_of_mem_firsts hmem).2 (hid ▸ List.mem_cons_self)

theorem of_entryOf_eq {item : Json} (h : entryOf d item = some (some e)) :
    e.homeserver = d ∧ belongsToDomain e.userId d = true ∧ ∃ o, item = .obj o ∧
      Dict.get o "user_id" = .str e.userId ∧ Dict.get o "display_name" = e.displayName ∧
      Dict.get o "avatar_url" = e.avatarUrl := by
  cases item with
  | obj o =>
      unfold entryOf Json.or at h
      dsimp only at h
      cases htruthy : (Dict.get o "user_id").truthy with
      | false =>
          -- no id counts as the empty one, and that is of no server
          rw [htruthy, if_neg Bool.false_ne_true] at h
          cases h
      | true =>
          rw [htruthy, if_pos rfl] at h
          cases huser : Dict.get o "user_id" with
          | str userId =>
              rw [huser] at h
              cases hbelongs : belongsToDomain userId d with
              | false => simp [hbelongs] at h
              | true =>
                  simp only [hbelongs, if_true, Option.some.injEq] at h
                  subst h
                  exact ⟨rfl, hbelongs, o, rfl, huser, rfl, rfl⟩
          | _ =>
              rw [huser] at h
              cases h
  | _ => cases h

theorem of_mem_entriesOf (h : entriesOf d items = some entries) (he : e ∈ entries) :
    ∃ item ∈ items, entryOf d item = some (some e) := by
  induction items generalizing entries with
  | nil =>
      obtain rfl := Option.some.inj h
      cases he
  | cons item items ih =>
      rw [entriesOf_cons] at h
      obtain ⟨entry, hentry, h⟩ := Option.bind_eq_some_iff.mp h
      obtain ⟨others, hothers, rfl⟩ := Option.map_eq_some_iff.mp h
      rcases List.mem_append.mp he with he | he
      · obtain rfl := Option.mem_toList.mp he
        exact ⟨item, List.mem_cons_self, hentry⟩
      · obtain ⟨item', hmem, heq⟩ := ih hothers he
        exact ⟨item', List.mem_cons_of_mem _ hmem, heq⟩

theorem eq_arr_of_mem {results : Json} (h : itemsOf results = some items) (hitem : item ∈ items) :
    results = .arr items := by
  unfold itemsOf at h
  split at h
  case h_1 => rw [Option.some.inj h]
  case h_2 | h_3 =>
      obtain rfl := Option.some.inj h
      cases hitem
  case h_4 => cases h

theorem results_of_mem {response : Dict} (h : resultsOf response = .arr items)
    (hitem : item ∈ items) : Dict.get? response "results" = some (.arr items) := by
  unfold resultsOf at h
  cases hresults : Dict.get? response "results" with
  | some results =>
      rw [hresults] at h
      exact congrArg some h
  | none =>
      rw [hresults] at h
      obtain rfl := Json.arr.inj h
      cases hitem

theorem of_mem_fetchDomain (h : fetchDomain d reply = some entries) (he : e ∈ entries) :
    e.homeserver = d ∧ belongsToDomain e.userId d = true ∧ Lists reply e := by
  unfold fetchDomain at h
  split at h
  case h_1 response =>
      obtain ⟨items, hitems, h⟩ := Option.bind_eq_some_iff.mp h
      obtain ⟨item, hitem, heq⟩ := of_mem_entriesOf h he
      obtain ⟨hserver, hbelongs, o, rfl, hfields⟩ := of_entryOf_eq heq
      have hget := results_of_mem (eq_arr_of_mem hitems hitem) hitem
      exact ⟨hserver, hbelongs, response, items, o, rfl, hget, hitem, hfields⟩
  case h_2 =>
      obtain rfl := Option.some.inj h
      cases he

theorem of_mem_gather {reply : PyStr → Option Json} (h : gather reply domains = some entries)
    (he : e ∈ entries) : e.homeserver ∈ domains ∧
      belongsToDomain e.userId e.homeserver = true ∧ Lists (reply e.homeserver) e := by
  induction domains generalizing entries with
  | nil =>
      obtain rfl := Option.some.inj h
      cases he
  | cons d domains ih =>
      rw [gather_cons] at h
      obtain ⟨first, hfirst, h⟩ := Option.bind_eq_some_iff.mp h
      obtain ⟨others, hothers, rfl⟩ := Option.map_eq_some_iff.mp h
      rcases List.mem_append.mp he with he | he
      · obtain ⟨rfl, hbelongs, hlists⟩ := of_mem_fetchDomain hfirst he
        exact ⟨List.mem_cons_self, hbelongs, hlists⟩
      · obtain ⟨hmem, hrest⟩ := ih hothers he
        exact ⟨List.mem_cons_of_mem _ hmem, hrest⟩

theorem of_mem_federated (h : federated domains answer q = some others) (he : e ∈ others) :
    e.homeserver ∈ domains ∧ belongsToDomain e.userId e.homeserver = true ∧
      Lists (answer e.homeserver q) e := by
  unfold federated at h
  split at h
  · exact of_mem_gather h he
  · obtain rfl := Option.some.inj h
    cases he

theorem ending_of_belongsToDomain (hd : belongsToDomain e.userId d = true) :
    ending d <:+ e.userId :=
  List.isSuffixOf_iff_suffix.mp (Bool.and_eq_true_iff.mp hd).2

theorem listed_nil : h.listed U [] = [] := by
  unfold Homeserver.listed Homeserver.searchLocalUsers matchesPrefix
  cases h.searchUserDir [] with
  | none => rfl
  | some profiles => simp

/-- **What the others can put into a search.**  Whatever the others answer, a search that does not
fail begins with what the server finds in its own directory, has fifty entries at most and no user
twice; an entry that is not the server's own comes from a server of the whitelist, which has listed
it and whose name the id ends with, and no user of the server itself has that id.  So an id that
ends with the server's own name is the server's own, unless a name on the whitelist ends with it or
is what it ends with. -/
theorem search_sound (hs : search U h domains answer query = some results) :
    (deduplicateUsers (h.listed U (strip U query))).take maxResults <+: results ∧
    results.length ≤ maxResults ∧ (results.map Entry.userId).Nodup ∧
    ∀ e ∈ results, e ∈ h.listed U (strip U query) ∨
      (∀ x ∈ h.listed U (strip U query), x.userId ≠ e.userId) ∧ e.homeserver ∈ domains ∧
        belongsToDomain e.userId e.homeserver = true ∧
        Lists (answer e.homeserver (strip U query)) e ∧
        (ending h.hostname <:+ e.userId → ending h.hostname <:+ ending e.homeserver ∨
          ending e.homeserver <:+ ending h.hostname) := by
  unfold search at hs
  generalize strip U query = q at hs ⊢
  by_cases hq : q = []
  · subst hq
    obtain rfl := Option.some.inj hs
    rw [listed_nil]
    exact ⟨List.nil_prefix, Nat.zero_le _, List.nodup_nil, List.forall_mem_nil _⟩
  · rw [searchFor_eq hq] at hs
    obtain ⟨own, hown, hs⟩ := Option.bind_eq_some_iff.mp hs
    obtain ⟨others, hothers, rfl⟩ := Option.map_eq_some_iff.mp hs
    have hlisted : h.listed U q = own := by rw [Homeserver.listed, hown, Option.getD_some]
    obtain ⟨rest, heq, hrest⟩ := @firsts_append [] own others
    rw [hlisted]
    refine ⟨?_, List.length_take_le _ _, ?_, fun e he => ?_⟩
    · have hbegins : deduplicateUsers own <+: deduplicateUsers (own ++ others) :=
        ⟨rest, heq.symm⟩
      exact hbegins.take _
    · rw [List.map_take]
      exact firsts_nodup.sublist (List.take_sublist _ _)
    · have hmem : e ∈ firsts [] own ++ rest := heq ▸ List.mem_of_mem_take he
      rcases List.mem_append.mp hmem with hmem | hmem
      · exact .inl (firsts_subset hmem)
      · obtain ⟨hother, hfresh⟩ := hrest e hmem
        obtain ⟨hserver, hbelongs, hlists⟩ := of_mem_federated hothers hother
        exact .inr ⟨hfresh, hserver, hbelongs, hlists, fun hending =>
          List.suffix_or_suffix_of_suffix hending (ending_of_belongsToDomain hbelongs)⟩

/-- A directory of one user, which finds it for every query. -/
def directoryOf (hostname : String) (userId name : String) : Homeserver where
  hostname := py hostname
  shareUsersOverFederation := true
  searchUserDir _ := some [⟨py userId, some (py name), none⟩]

/-- Letters without case, and one blank. -/
def plainUnicode : Unicode where
  casefold s := s
  isSpace c := c = codePoint ' '

theorem search_sound_liar : ∃ results, search plainUnicode
      (directoryOf "a.org" "@anna:a.org" "anna") [py "b.org"]
      (fun _ q => some (onGet plainUnicode (directoryOf "a.org" "@ann:a.org" "ann") q))
      (py " an") = some results ∧
    (∀ e ∈ results, e.userId = py "@anna:a.org") ∧ (results.map Entry.userId).Nodup := by
  have hs : search plainUnicode (directoryOf "a.org" "@anna:a.org" "anna") [py "b.org"]
      (fun _ q => some (onGet plainUnicode (directoryOf "a.org" "@ann:a.org" "ann") q))
      (py " an") = some [⟨py "@anna:a.org", .str (py "anna"), .null, py "a.org"⟩] := by decide
  exact ⟨_, hs, by decide, (search_sound hs).2.2.1⟩

end Answers

/-! ### A network of such servers -/

section Network

variable {U : Unicode} {h : Homeserver} {domains : List PyStr} {d s query q : PyStr} {e : Entry}
  {l : List Entry} {servers : PyStr → Homeserver} {up : PyStr → Bool}

theorem strip_strip : strip U (strip U s) = strip U s := by
  have hhead : (strip U s).dropWhile U.isSpace = strip U s := by
    refine List.dropWhile_eq_self_iff.mpr fun hpos => ?_
    have hbegins : strip U s <+: s.dropWhile U.isSpace := List.rdropWhile_prefix _ _
    rw [hbegins.getElem hpos]
    exact List.dropWhile_get_zero_not _ _ _
  rw [strip, hhead]
  exact List.rdropWhile_idempotent _ _

theorem entryOf_json (hserver : e.homeserver = d) (hbelongs : belongsToDomain e.userId d = true) :
    entryOf d e.json = some (some e) := by
  subst hserver
  have hheld : entryOf e.homeserver e.json = some (if belongsToDomain e.userId e.homeserver then
      some ⟨e.userId, e.displayName, e.avatarUrl, e.homeserver⟩ else none) := by
    cases e with
    | mk userId displayName avatarUrl homeserver =>
        cases userId with
        | nil => rfl
        | cons c userId => rfl
  rw [hheld, if_pos hbelongs]

theorem entriesOf_map_json
    (hl : ∀ e ∈ l, e.homeserver = d ∧ belongsToDomain e.userId d = true) :
    entriesOf d (l.map Entry.json) = some l := by
  induction l with
  | nil => rfl
  | cons e l ih =>
      obtain ⟨he, hl⟩ := List.forall_mem_cons.mp hl
      rw [List.map_cons, entriesOf_cons, entryOf_json he.1 he.2, ih hl]
      rfl

theorem of_mem_listed {domain : Homeserver} (he : e ∈ domain.listed U q) :
    ∃ profiles, domain.searchUserDir q = some profiles ∧ ∃ p ∈ profiles,
      e = p.entry domain.hostname ∧ (ending domain.hostname).isSuffixOf p.userId = true := by
  unfold Homeserver.listed Homeserver.searchLocalUsers at he
  cases hdir : domain.searchUserDir q with
  | none =>
      rw [hdir] at he
      cases he
  | some profiles =>
      rw [hdir] at he
      obtain ⟨p, hp, rfl⟩ := List.mem_map.mp he
      obtain ⟨hmem, hkeep⟩ := List.mem_filter.mp hp
      exact ⟨profiles, rfl, p, hmem, rfl, (Bool.and_eq_true_iff.mp hkeep).1⟩

/-- The directory has user ids, which begin with `@`. -/
def Homeserver.HasUserIds (h : Homeserver) : Prop :=
  ∀ q profiles, h.searchUserDir q = some profiles → ∀ p ∈ profiles,
    (py "@").isPrefixOf p.userId = true

theorem fetchDomain_onGet (hids : h.HasUserIds) :
    fetchDomain h.hostname (some (onGet U h query)) = some (h.shown U (strip U query)) := by
  refine entriesOf_map_json fun e he => ?_
  unfold Homeserver.shown at he
  split at he
  · cases he
  · obtain ⟨profiles, hdir, p, hp, rfl, hending⟩ := of_mem_listed he
    exact ⟨rfl, Bool.and_eq_true_iff.mpr ⟨hids _ _ hdir p hp, hending⟩⟩

theorem gather_network (hnames : ∀ d ∈ domains, (servers d).hostname = d)
    (hids : ∀ d ∈ domains, (servers d).HasUserIds) :
    gather (fun d => if up d then some (onGet U (servers d) query) else none) domains =
      some (domains.flatMap fun d =>
        if up d then (servers d).shown U (strip U query) else []) := by
  induction domains with
  | nil => rfl
  | cons d domains ih =>
      obtain ⟨hname, hnames⟩ := List.forall_mem_cons.mp hnames
      obtain ⟨hid, hids⟩ := List.forall_mem_cons.mp hids
      rw [gather_cons, ih hnames hids, List.flatMap_cons]
      cases up d with
      | false => rfl
      | true =>
          have hfetch := @fetchDomain_onGet U (servers d) query hid
          rw [hname] at hfetch
          rw [if_pos rfl, if_pos rfl, hfetch]
          rfl

/-- **A search of the whole network.**  Where every server of the whitelist runs this module (under
the name it is asked by, over a directory of user ids), a search for two letters or more finds what
the server's own directory has, and then what each of the others that are up, and that show their
users, finds in its own directory for the same words: once each, and fifty at most. -/
theorem search_of_network (hnames : ∀ d ∈ domains, (servers d).hostname = d)
    (hids : ∀ d ∈ domains, (servers d).HasUserIds)
    (hlong : minFederatedQueryLen ≤ (strip U query).length) :
    search U h domains (fun d q => if up d then some (onGet U (servers d) q) else none) query =
      (h.searchLocalUsers U (strip U query)).map fun own =>
        (deduplicateUsers (own ++ domains.flatMap fun d =>
          if up d ∧ (servers d).shareUsersOverFederation then
            (servers d).listed U (strip U query) else [])).take maxResults := by
  have hne : strip U query ≠ [] := by
    rintro hnil
    rw [hnil] at hlong
    exact absurd hlong (by decide)
  have hshown : ∀ d, (if up d then (servers d).shown U (strip U query) else []) =
      if up d ∧ (servers d).shareUsersOverFederation then
        (servers d).listed U (strip U query) else [] := by
    intro d
    unfold Homeserver.shown
    cases up d with
    | false => rfl
    | true => cases (servers d).shareUsersOverFederation <;> simp [hne]
  unfold search
  rw [searchFor_eq hne, federated, if_pos hlong, gather_network hnames hids, strip_strip]
  simp only [hshown, Option.map_some]
  cases h.searchLocalUsers U (strip U query) with
  | none => rfl
  | some own => rfl

theorem directoryOf_hasUserIds {hostname userId name : String}
    (hid : (py "@").isPrefixOf (py userId) = true) :
    (directoryOf hostname userId name).HasUserIds := by
  intro q profiles hdir p hp
  obtain rfl := Option.some.inj hdir
  obtain rfl := List.mem_singleton.mp hp
  exact hid

/-- Two other servers of one user each. -/
def twoServers (d : PyStr) : Homeserver :=
  if d = py "b.org" then directoryOf "b.org" "@ann:b.org" "Ann"
  else directoryOf "c.org" "@hannah:c.org" "ann"

theorem search_of_network_half : search plainUnicode (directoryOf "a.org" "@anna:a.org" "x")
    [py "b.org", py "c.org"]
    (fun d q => if d = py "b.org" then some (onGet plainUnicode (twoServers d) q) else none)
    (py "an ") =
      some [⟨py "@anna:a.org", .str (py "x"), .null, py "a.org"⟩,
        ⟨py "@ann:b.org", .str (py "Ann"), .null, py "b.org"⟩] := by
  have hids : ∀ d ∈ [py "b.org", py "c.org"], (twoServers d).HasUserIds := by
    intro d _
    unfold twoServers
    split
    · exact directoryOf_hasUserIds (by decide)
    · exact directoryOf_hasUserIds (by decide)
  have hrun := @search_of_network plainUnicode (directoryOf "a.org" "@anna:a.org" "x")
    [py "b.org", py "c.org"] (py "an ") twoServers (fun d => d = py "b.org") (by decide) hids
    (by decide)
  simp only [decide_eq_true_eq] at hrun
  rw [hrun]
  decide

end Network

end UserSearch
end Liza
