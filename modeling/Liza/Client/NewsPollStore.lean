/-
# No stored vote is lost

`_persist` of `clients/flutter/lib/utils/news_poll.dart` reads the local copy of the account data,
adds a vote, prunes, and writes the whole.  What should be stored is the fold of the votes over what
was stored at first (`keptVotes`).

The local copy changes with a sync only.  So a vote that is stored before the last one has come
back is added to a copy without it, and the write drops the last one.  `OneByOne` rules this out;
then, in every state where nothing is under way, the server holds what should be stored.  Values
are compared by what is read from them (`readVotes`), because `_persist` writes nothing where the
content is the same up to the order of keys.

An ack stores its own `closed`, and not that of the state; so an ack that does not say `closed`
opens a poll that was stored as closed.  `OneByOne` rules this out, too.
-/

import Liza.Client.NewsPoll

set_option autoImplicit false

namespace Liza
namespace Client

open Lib

/-! ### What is read from the account data -/

/-- The answers and the flag that are read from a stored value. -/
def voteRead (v : Json) : Option (List PyStr × Bool) :=
  match v with
  | .obj d => some ((tryGetStrings d "answers").getD [], storedClosed v)
  | _ => none

/-- What is read from the account data, in its order. -/
def readVotes (content : Dict) : Assoc PyStr (Option (List PyStr × Bool)) :=
  content.map fun e => (e.1, voteRead e.2)

section Reading

variable {m w : Dict} {p : PyStr} {v : Json} {answers : List PyStr} {closed : Bool}

/-- A poll is closed as it is read. -/
theorem storedClosed_eq (v : Json) : storedClosed v = (voteRead v).any Prod.snd := by
  cases v <;> rfl

theorem mapM_asStr (l : List PyStr) : (l.map Json.str).mapM Sygnal.asStr = some l := by
  induction l with
  | nil => rfl
  | cons x rest ih => simp [List.mapM_cons, Sygnal.asStr, ih]

theorem voteRead_storedVote (answers : List PyStr) (closed : Bool) :
    voteRead (storedVote answers closed) = some (answers, closed) := by
  have hanswers : tryGetStrings [("answers", .arr (answers.map .str)), ("closed", .bool closed)]
      "answers" = some answers := mapM_asStr answers
  have hget : Dict.get? [("answers", .arr (answers.map .str)), ("closed", .bool closed)] "closed" =
      some (.bool closed) := rfl
  have hclosed : storedClosed (storedVote answers closed) = closed := by
    show decide (Dict.get? _ _ = some (Json.bool true)) = closed
    rw [hget]
    cases closed <;> rfl
  show some ((tryGetStrings _ _).getD [], storedClosed (storedVote answers closed)) = _
  rw [hanswers, hclosed]
  rfl

theorem get?_readVotes (m : Dict) (p : PyStr) :
    Assoc.get? (readVotes m) p = (Dict.get? m p).map voteRead := by
  induction m with
  | nil => rfl
  | cons e rest ih =>
      obtain ⟨l, v⟩ := e
      show (if l = p then some (voteRead v) else Assoc.get? (readVotes rest) p) = _
      rw [Dict.get?_cons, ih]
      split <;> rfl

theorem readVotes_set (m : Dict) (p : PyStr) (v : Json) :
    readVotes (m.set p v) = Assoc.set (readVotes m) p (voteRead v) := by
  induction m with
  | nil => rfl
  | cons e rest ih =>
      obtain ⟨l, u⟩ := e
      show readVotes (if l = p then _ else _) =
        if l = p then (p, voteRead v) :: readVotes rest
        else (l, voteRead u) :: Assoc.set (readVotes rest) p (voteRead v)
      split
      · rfl
      · rw [← ih]
        rfl

theorem readVotes_filter (m : Dict) (keys : List PyStr) :
    readVotes (m.filter fun e => e.1 ∉ keys) = (readVotes m).filter fun e => e.1 ∉ keys := by
  unfold readVotes
  rw [List.filter_map]
  rfl

theorem closedKeys_eq (m : Dict) :
    closedKeys m = ((readVotes m).filter fun e => e.2.any Prod.snd).map Prod.fst := by
  unfold closedKeys readVotes
  rw [List.filter_map, List.map_map]
  simp only [Function.comp_def, storedClosed_eq]

/-- What is kept depends on what is read. -/
theorem readVotes_prune (h : readVotes m = readVotes w) :
    readVotes (pruneStoredVotes m) = readVotes (pruneStoredVotes w) := by
  have hkeys : closedKeys m = closedKeys w := by rw [closedKeys_eq, closedKeys_eq, h]
  unfold pruneStoredVotes
  rw [hkeys]
  split
  · exact h
  · rw [readVotes_filter, readVotes_filter, h]

/-- The answers that are read for a poll. -/
theorem answers_fromAccountData (h : Assoc.get? (readVotes m) p = some (some (answers, closed))) :
    (fromAccountData m p).answers = answers := by
  rw [get?_readVotes] at h
  obtain ⟨v, hv, hread⟩ := Option.map_eq_some_iff.1 h
  cases v with
  | obj d =>
      have hmap : tryGetMap m p = some d := by
        unfold tryGetMap
        rw [hv]
      unfold fromAccountData
      rw [hmap]
      exact (Prod.mk.inj (Option.some.inj hread)).1
  | _ => cases hread

end Reading

/-! ### What is kept -/

section Keeping

variable {m : Dict} {p : PyStr} {v : Json}

theorem mem_keys_of_mem_closedKeys (h : p ∈ closedKeys m) : ∃ v, (p, v) ∈ m := by
  obtain ⟨e, he, rfl⟩ := List.mem_map.1 h
  exact ⟨e.2, (List.mem_filter.1 he).1⟩

/-- What is kept is a part of what was there. -/
theorem prune_sublist (m : Dict) : (pruneStoredVotes m).Sublist m := by
  unfold pruneStoredVotes
  split
  · exact List.Sublist.refl m
  · exact List.filter_sublist

theorem get?_filter_notMem (m : Dict) (keys : List PyStr) (p : PyStr) :
    Dict.get? (m.filter fun e => e.1 ∉ keys) p = if p ∈ keys then none else Dict.get? m p := by
  induction m with
  | nil => simp
  | cons e rest ih =>
      obtain ⟨l, w⟩ := e
      by_cases hl : l ∈ keys
      · rw [List.filter_cons_of_neg (by simpa using hl), ih, Dict.get?_cons]
        by_cases heq : l = p
        · rw [if_pos heq, if_pos (heq ▸ hl), if_pos (heq ▸ hl)]
        · rw [if_neg heq]
      · rw [List.filter_cons_of_pos (by simpa using hl), Dict.get?_cons, Dict.get?_cons, ih]
        by_cases heq : l = p
        · rw [if_pos heq, if_pos heq, if_neg (heq ▸ hl)]
        · rw [if_neg heq, if_neg heq]

theorem get?_of_prune (h : Dict.get? (pruneStoredVotes m) p = some v) : Dict.get? m p = some v := by
  unfold pruneStoredVotes at h
  split at h
  · exact h
  · rw [get?_filter_notMem] at h
    split at h
    · cases h
    · exact h

/-- Where as many items are kept as there were, all are. -/
theorem prune_of_length (h : m.length ≤ (pruneStoredVotes m).length) : pruneStoredVotes m = m :=
  (prune_sublist m).eq_of_length_le h

theorem set_of_none (h : Dict.get? m p = none) (v : Json) : m.set p v = m ++ [(p, v)] := by
  induction m with
  | nil => rfl
  | cons e rest ih =>
      obtain ⟨l, w⟩ := e
      rw [Dict.get?_cons] at h
      split at h
      · cases h
      · rename_i hne
        show (if l = p then _ else (l, w) :: Dict.set rest p v) = _
        rw [if_neg hne, ih h]
        rfl

theorem length_set (h : (Dict.get? m p).isSome = true) (v : Json) :
    (m.set p v).length = m.length := by
  induction m with
  | nil => cases h
  | cons e rest ih =>
      obtain ⟨l, w⟩ := e
      show (if l = p then (p, v) :: rest else (l, w) :: Dict.set rest p v).length = _
      rw [Dict.get?_cons] at h
      split
      · rfl
      · rename_i hne
        rw [if_neg hne] at h
        rw [List.length_cons, List.length_cons, ih h]

/-- The vote that was stored last is kept: it is the newest of those that are closed. -/
theorem get?_prune_set_new (h : Dict.get? m p = none) (v : Json) :
    Dict.get? (pruneStoredVotes (m.set p v)) p = some v := by
  have hset := Dict.get?_set_self m p v
  unfold pruneStoredVotes
  split
  · exact hset
  rename_i hmany
  rw [get?_filter_notMem, hset, if_neg]
  have hold : p ∉ closedKeys m := by
    intro hp
    obtain ⟨u, hu⟩ := mem_keys_of_mem_closedKeys hp
    clear hset hmany
    induction m with
    | nil => cases hu
    | cons e rest ih =>
        obtain ⟨l, w⟩ := e
        rw [Dict.get?_cons] at h
        split at h
        · cases h
        · rename_i hne
          rcases List.mem_cons.1 hu with heq | hrest
          · exact hne (Prod.mk.inj heq).1.symm
          · refine ih h ?_ hrest
            unfold closedKeys at hp ⊢
            rw [List.filter_cons] at hp
            split at hp
            · rcases List.mem_cons.1 hp with heq | hp
              · exact absurd heq.symm hne
              · exact hp
            · exact hp
  have hkeys : closedKeys (m.set p v) = closedKeys m ++ if storedClosed v then [p] else [] := by
    unfold closedKeys
    rw [set_of_none h, List.filter_append, List.map_append]
    cases hv : storedClosed v <;> simp [hv]
  intro hp
  rw [hkeys] at hp hmany
  have hlen : (closedKeys m ++ if storedClosed v then [p] else []).length - newsPollKeepClosed ≤
      (closedKeys m).length := by
    rw [List.length_append, newsPollKeepClosed]
    split <;> simp
  rw [List.take_append_of_le_length hlen] at hp
  exact hold (List.mem_of_mem_take hp)

end Keeping

/-! ### Where nothing is written -/

section DeepEquals

variable {m w : Dict} {p : PyStr} {v : Json} {answers : List PyStr} {closed : Bool}

theorem deepEqualsDict_mem {a b : List (PyStr × Json)} (h : deepEqualsDict a b = true)
    (hmem : (p, v) ∈ a) : ∃ u, Dict.get? b p = some u ∧ deepEquals v u = true := by
  induction a with
  | nil => cases hmem
  | cons e rest ih =>
      obtain ⟨l, x⟩ := e
      simp only [deepEqualsDict, Bool.and_eq_true] at h
      obtain ⟨hhead, hrest⟩ := h
      rcases List.mem_cons.1 hmem with heq | htail
      · obtain ⟨rfl, rfl⟩ := Prod.mk.inj heq
        split at hhead
        · rename_i u hu
          exact ⟨u, hu, hhead⟩
        · cases hhead
      · exact ih hrest htail

theorem deepEqualsList_strings {l : List Json} (h : deepEqualsList (answers.map .str) l = true) :
    l = answers.map .str := by
  induction answers generalizing l with
  | nil =>
      cases l with
      | nil => rfl
      | cons x rest => cases h
  | cons s rest ih =>
      cases l with
      | nil => cases h
      | cons x tail =>
          simp only [List.map_cons, deepEqualsList, Bool.and_eq_true] at h
          have hx : Json.beq (.str s) x = true := by
            have hhead := h.1
            unfold deepEquals at hhead
            exact hhead
          rw [← (Json.beq_iff _ _).1 hx, ih h.2]
          rfl

/-- What equals the stored value of a vote is read as the vote. -/
theorem voteRead_of_deepEquals {u : Json} (h : deepEquals (storedVote answers closed) u = true) :
    voteRead u = some (answers, closed) := by
  cases u with
  | obj d =>
      simp only [storedVote, deepEquals, Bool.and_eq_true] at h
      obtain ⟨x, hx, hxeq⟩ := deepEqualsDict_mem h.2 List.mem_cons_self
      obtain ⟨y, hy, hyeq⟩ := deepEqualsDict_mem h.2 (List.mem_cons_of_mem _ List.mem_cons_self)
      have hy' : y = .bool closed := by
        unfold deepEquals at hyeq
        exact ((Json.beq_iff _ _).1 hyeq).symm
      have hx' : x = .arr (answers.map .str) := by
        cases x with
        | arr l =>
            simp only [deepEquals] at hxeq
            rw [deepEqualsList_strings hxeq]
        | _ =>
            unfold deepEquals at hxeq
            cases (Json.beq_iff _ _).1 hxeq
      subst hx' hy'
      have hanswers : tryGetStrings d "answers" = some answers := by
        unfold tryGetStrings
        rw [hx]
        exact mapM_asStr answers
      have hclosed : storedClosed (.obj d) = closed := by
        show decide (Dict.get? d _ = some (Json.bool true)) = closed
        rw [hy]
        cases closed <;> rfl
      show some ((tryGetStrings d _).getD [], storedClosed (.obj d)) = _
      rw [hanswers, hclosed]
      rfl
  | _ =>
      unfold storedVote deepEquals at h
      cases (Json.beq_iff _ _).1 h

/-- **Where `_persist` writes nothing, the vote is stored already.** -/
theorem readVotes_of_persist_none {vote : PersistedVote} (h : persistContent m vote = none) :
    readVotes (pruneStoredVotes (m.set vote.pollId (storedVote vote.answers vote.closed))) =
      readVotes m := by
  have hequal : deepEquals
      (.obj (pruneStoredVotes (m.set vote.pollId (storedVote vote.answers vote.closed))))
      (.obj m) = true := by
    by_contra hne
    unfold persistContent at h
    rw [if_neg hne] at h
    cases h
  simp only [deepEquals, Bool.and_eq_true, beq_iff_eq] at hequal
  obtain ⟨hlen, hitems⟩ := hequal
  -- a vote in a new poll is kept, and so it would be found in the old content
  have hthere : (Dict.get? m vote.pollId).isSome = true := by
    by_contra hne
    have hnone : Dict.get? m vote.pollId = none := by simpa using hne
    have hmem := Dict.mem_of_get? (get?_prune_set_new hnone (storedVote vote.answers vote.closed))
    obtain ⟨u, hu, -⟩ := deepEqualsDict_mem hitems hmem
    rw [hnone] at hu
    cases hu
  have hset := length_set hthere (storedVote vote.answers vote.closed)
  have hall := prune_of_length (m := m.set vote.pollId (storedVote vote.answers vote.closed))
    (by rw [hlen, hset])
  rw [hall] at hitems ⊢
  have hmem := Dict.mem_of_get?
    (Dict.get?_set_self m vote.pollId (storedVote vote.answers vote.closed))
  obtain ⟨u, hu, hequal⟩ := deepEqualsDict_mem hitems hmem
  rw [readVotes_set, Assoc.set_of_get?]
  rw [get?_readVotes, hu, Option.map_some, voteRead_of_deepEquals hequal, voteRead_storedVote]

end DeepEquals

/-! ### What should be stored -/

/-- The votes over what was stored at first, with `pruneStoredVotes` after each of them. -/
def keptVotes (initial : Dict) (persisted : List PersistedVote) : Dict :=
  persisted.foldl (fun m v => pruneStoredVotes (m.set v.pollId (storedVote v.answers v.closed))) initial

/-- The last vote of a poll. -/
def latestVote (persisted : List PersistedVote) (p : PyStr) : Option PersistedVote :=
  persisted.reverse.find? fun v => v.pollId = p

theorem keptVotes_append (initial : Dict) (persisted : List PersistedVote) (v : PersistedVote) :
    keptVotes initial (persisted ++ [v]) =
      pruneStoredVotes ((keptVotes initial persisted).set v.pollId (storedVote v.answers v.closed)) := by
  unfold keptVotes
  rw [List.foldl_append]
  rfl

theorem latestVote_append (persisted : List PersistedVote) (v : PersistedVote) (p : PyStr) :
    latestVote (persisted ++ [v]) p = if v.pollId = p then some v else latestVote persisted p := by
  unfold latestVote
  rw [List.reverse_append, List.reverse_singleton, List.singleton_append, List.find?_cons]
  by_cases h : v.pollId = p <;> simp [h]

/-- What is kept of a poll is its last vote. -/
theorem get?_keptVotes {initial : Dict} {persisted : List PersistedVote} {p : PyStr}
    {v : PersistedVote} {u : Json} (hlatest : latestVote persisted p = some v)
    (hu : Dict.get? (keptVotes initial persisted) p = some u) :
    u = storedVote v.answers v.closed := by
  induction persisted using List.reverseRecOn with
  | nil => cases hlatest
  | append_singleton rest x ih =>
      rw [latestVote_append] at hlatest
      rw [keptVotes_append] at hu
      have hset := get?_of_prune hu
      rw [Dict.get?_set] at hset
      by_cases hx : x.pollId = p
      · rw [if_pos hx] at hlatest
        obtain rfl := Option.some.inj hlatest
        rw [if_pos hx.symm] at hset
        exact (Option.some.inj hset).symm
      · rw [if_neg hx] at hlatest
        rw [if_neg (Ne.symm hx)] at hset
        exact ih hlatest hset

/-! ### The store, step by step -/

/-- What the service holds of the account data. -/
@[ext]
structure VoteStore where
  accountData : StoredVotes
  server : StoredVotes
  writes : List StoredVotes
  echoes : List StoredVotes
  initial : Dict
  persisted : List PersistedVote

/-- The store of a service. -/
def PollService.store (s : PollService) : VoteStore :=
  ⟨s.accountData, s.server, s.writes, s.echoes, s.initial, s.persisted⟩

namespace VoteStore

/-- The poll was stored as closed at some time. -/
def EverClosed (m : VoteStore) (p : PyStr) : Prop :=
  (Dict.get? m.initial p).any storedClosed = true ∨
    ∃ v ∈ m.persisted, v.pollId = p ∧ v.closed = true

instance (m : VoteStore) (p : PyStr) : Decidable (m.EverClosed p) :=
  inferInstanceAs (Decidable (_ ∨ _))

/-- The contents that are stored, or on their way. -/
def contents (m : VoteStore) : List Dict := m.server.content :: m.writes.map StoredVotes.content

/-- A content is read as what should be stored. -/
def Holds (m : VoteStore) (content : Dict) : Prop :=
  readVotes content = readVotes (keptVotes m.initial m.persisted)

end VoteStore

/-- What may happen to the store, where votes are stored one by one. -/
inductive StoreMove : VoteStore → VoteStore → Prop
  /-- Nothing is under way, and the vote changes what is stored. -/
  | persist (m : VoteStore) (v : PersistedVote) (pruned : Dict) (seqs : PyStr → ℤ)
      (hw : m.writes = []) (he : m.echoes = []) (hc : v.closed = false → ¬m.EverClosed v.pollId)
      (h : persistContent m.accountData.content v = some pruned) :
      StoreMove m { m with writes := [⟨pruned, seqs⟩], persisted := m.persisted ++ [v] }
  /-- Nothing is under way, and the vote is stored already. -/
  | stored (m : VoteStore) (v : PersistedVote) (hw : m.writes = []) (he : m.echoes = [])
      (hc : v.closed = false → ¬m.EverClosed v.pollId)
      (h : persistContent m.accountData.content v = none) :
      StoreMove m { m with persisted := m.persisted ++ [v] }
  | sync (m : VoteStore) (stored : StoredVotes) (rest : List StoredVotes)
      (h : m.echoes = stored :: rest) : StoreMove m { m with accountData := stored, echoes := rest }
  | written (m : VoteStore) (i : ℕ) (stored : StoredVotes) (h : m.writes[i]? = some stored) :
      StoreMove m { m with
        server := stored, writes := m.writes.eraseIdx i, echoes := m.echoes ++ [stored] }

/-- The invariant of the store: at most one write or one echo is under way, and the newest content
is what should be stored. -/
structure GoodStore (m : VoteStore) : Prop where
  phase :
    (m.writes = [] ∧ m.Holds m.server.content ∧
      (m.echoes = [] ∧ m.accountData = m.server ∨ m.echoes = [m.server])) ∨
    ∃ w, m.writes = [w] ∧ m.echoes = [] ∧ m.Holds w.content
  closed : ∀ c ∈ m.contents, ∀ p v, Dict.get? c p = some v → storedClosed v = true → m.EverClosed p
  kept : ∀ p v, Dict.get? m.server.content p = some v → storedClosed v = true →
    ∀ w ∈ m.writes, ∀ u, Dict.get? w.content p = some u → storedClosed u = true

/-- The poll was closed, and no content has it open. -/
def StaysClosed (p : PyStr) (m : VoteStore) : Prop :=
  m.EverClosed p ∧ ∀ c ∈ m.contents, ∀ v, Dict.get? c p = some v → storedClosed v = true

section Moves

variable {m m' : VoteStore} {p : PyStr}

theorem storedClosed_storedVote (answers : List PyStr) (closed : Bool) :
    storedClosed (storedVote answers closed) = closed := by
  rw [storedClosed_eq, voteRead_storedVote]
  rfl

theorem VoteStore.EverClosed.append {server accountData : StoredVotes} {writes : List StoredVotes}
    {echoes : List StoredVotes} (h : m.EverClosed p) (v : PersistedVote) :
    VoteStore.EverClosed ⟨accountData, server, writes, echoes, m.initial, m.persisted ++ [v]⟩ p :=
  h.imp id fun ⟨x, hx, hp⟩ => ⟨x, List.mem_append_left _ hx, hp⟩

/-- Where nothing is under way, the local copy is up to date. -/
theorem GoodStore.settled (h : GoodStore m) (hw : m.writes = []) (he : m.echoes = []) :
    m.Holds m.server.content ∧ m.accountData = m.server := by
  rcases h.phase with ⟨-, hholds, ⟨-, hcopy⟩ | hecho⟩ | ⟨w, hwrites, -⟩
  · exact ⟨hholds, hcopy⟩
  · rw [he] at hecho
    cases hecho
  · rw [hw] at hwrites
    cases hwrites

/-- The content that `_persist` writes. -/
theorem eq_of_persist_some {cur pruned : Dict} {v : PersistedVote}
    (h : persistContent cur v = some pruned) :
    pruned = pruneStoredVotes (cur.set v.pollId (storedVote v.answers v.closed)) := by
  simp only [persistContent] at h
  split at h
  · cases h
  · exact (Option.some.inj h).symm

/-- A value of the content that `_persist` writes is the vote, or was there. -/
theorem get?_persistContent {cur pruned : Dict} {v : PersistedVote} {u : Json}
    (h : persistContent cur v = some pruned) (hu : Dict.get? pruned p = some u) :
    (p = v.pollId ∧ u = storedVote v.answers v.closed) ∨
      (p ≠ v.pollId ∧ Dict.get? cur p = some u) := by
  rw [eq_of_persist_some h] at hu
  have hset := get?_of_prune hu
  rw [Dict.get?_set] at hset
  split at hset
  · rename_i heq
    exact .inl ⟨heq, (Option.some.inj hset).symm⟩
  · rename_i hne
    exact .inr ⟨hne, hset⟩

/-- The content that is written is what should be stored. -/
theorem holds_persistContent {v : PersistedVote} {pruned : Dict} {cur : Dict}
    (hholds : m.Holds cur) (h : persistContent cur v = some pruned) :
    readVotes pruned = readVotes (keptVotes m.initial (m.persisted ++ [v])) := by
  rw [eq_of_persist_some h, keptVotes_append]
  refine readVotes_prune ?_
  rw [readVotes_set, readVotes_set, hholds]

/-- **A move keeps the store good.** -/
theorem GoodStore.move (hm : GoodStore m) (h : StoreMove m m') : GoodStore m' := by
  cases h with
  | persist v pruned seqs hw he hc hpersist =>
      obtain ⟨hholds, hcopy⟩ := hm.settled hw he
      rw [hcopy] at hpersist
      refine ⟨.inr ⟨_, rfl, he, holds_persistContent hholds hpersist⟩, fun c hmem p u hu hcl => ?_,
        fun p x hx hcl w hmem u hu => ?_⟩
      · rcases List.mem_cons.1 hmem with rfl | hnew
        · exact (hm.closed _ List.mem_cons_self p u hu hcl).append v
        · obtain rfl := List.mem_singleton.1 hnew
          rcases get?_persistContent hpersist hu with ⟨rfl, rfl⟩ | ⟨-, hold⟩
          · rw [storedClosed_storedVote] at hcl
            exact .inr ⟨v, List.mem_append_right _ (List.mem_singleton.2 rfl), rfl, hcl⟩
          · exact (hm.closed _ List.mem_cons_self p u hold hcl).append v
      · obtain rfl := List.mem_singleton.1 hmem
        rcases get?_persistContent hpersist hu with ⟨rfl, rfl⟩ | ⟨-, hold⟩
        · rw [storedClosed_storedVote]
          by_contra hopen
          exact hc (by simpa using hopen) (hm.closed _ List.mem_cons_self _ x hx hcl)
        · obtain rfl := Option.some.inj (hx.symm.trans hold)
          exact hcl
  | stored v hw he hc hpersist =>
      obtain ⟨hholds, hcopy⟩ := hm.settled hw he
      rw [hcopy] at hpersist
      refine ⟨.inl ⟨hw, ?_, .inl ⟨he, hcopy⟩⟩, fun c hmem p u hu hcl =>
        (hm.closed c hmem p u hu hcl).append v, hm.kept⟩
      show readVotes m.server.content = readVotes (keptVotes m.initial (m.persisted ++ [v]))
      rw [keptVotes_append, ← readVotes_of_persist_none hpersist]
      refine readVotes_prune ?_
      rw [readVotes_set, readVotes_set, hholds]
  | sync stored rest hechoes =>
      refine ⟨?_, hm.closed, hm.kept⟩
      rcases hm.phase with ⟨hw, hholds, ⟨hnil, -⟩ | hone⟩ | ⟨w, -, hnil, -⟩
      · rw [hechoes] at hnil
        cases hnil
      · rw [hechoes] at hone
        obtain ⟨rfl, rfl⟩ := List.cons.inj hone
        exact .inl ⟨hw, hholds, .inl ⟨rfl, rfl⟩⟩
      · rw [hechoes] at hnil
        cases hnil
  | written i stored hget =>
      rcases hm.phase with ⟨hw, -⟩ | ⟨w, hw, he, hholds⟩
      · rw [hw] at hget
        cases hget
      · rw [hw] at hget
        cases i with
        | succ i => cases hget
        | zero =>
            obtain rfl := Option.some.inj hget
            have hnil : m.writes.eraseIdx 0 = [] := by rw [hw]; rfl
            refine ⟨.inl ⟨hnil, hholds, .inr (by rw [he]; rfl)⟩, fun c hmem => ?_,
              fun p v _ _ u hu => ?_⟩
            · refine hm.closed c ?_
              have hc : c ∈ [w.content] := by simpa [VoteStore.contents, hw] using hmem
              rw [List.mem_singleton.1 hc]
              exact List.mem_cons_of_mem _ (List.mem_map.2 ⟨w, by rw [hw]; simp, rfl⟩)
            · have hmem : u ∈ m.writes.eraseIdx 0 := hu
              rw [hnil] at hmem
              cases hmem

/-- A poll that the server has as closed is open in no content. -/
theorem GoodStore.staysClosed (hm : GoodStore m) {v : Json}
    (hv : Dict.get? m.server.content p = some v) (hcl : storedClosed v = true) :
    StaysClosed p m := by
  refine ⟨hm.closed _ List.mem_cons_self p v hv hcl, fun c hmem u hu => ?_⟩
  rcases List.mem_cons.1 hmem with rfl | hrest
  · obtain rfl := Option.some.inj (hv.symm.trans hu)
    exact hcl
  · obtain ⟨w, hw, rfl⟩ := List.mem_map.1 hrest
    exact hm.kept p v hv hcl w hw u hu

/-- **A move leaves a closed poll closed.** -/
theorem StaysClosed.move (hm : GoodStore m) (hp : StaysClosed p m) (h : StoreMove m m') :
    StaysClosed p m' := by
  obtain ⟨hever, hall⟩ := hp
  cases h with
  | persist v pruned seqs hw he hc hpersist =>
      obtain ⟨-, hcopy⟩ := hm.settled hw he
      rw [hcopy] at hpersist
      refine ⟨hever.append v, fun c hmem u hu => ?_⟩
      rcases List.mem_cons.1 hmem with rfl | hnew
      · exact hall _ List.mem_cons_self u hu
      · obtain rfl := List.mem_singleton.1 hnew
        rcases get?_persistContent hpersist hu with ⟨rfl, rfl⟩ | ⟨-, hold⟩
        · rw [storedClosed_storedVote]
          by_contra hopen
          exact hc (by simpa using hopen) hever
        · exact hall _ List.mem_cons_self u hold
  | stored v hw he hc hpersist => exact ⟨hever.append v, hall⟩
  | sync stored rest hechoes => exact ⟨hever, hall⟩
  | written i stored hget =>
      refine ⟨hever, fun c hmem u hu => hall c ?_ u hu⟩
      have hstored : stored ∈ m.writes := List.mem_of_getElem? hget
      rcases List.mem_cons.1 hmem with rfl | hrest
      · exact List.mem_cons_of_mem _ (List.mem_map.2 ⟨stored, hstored, rfl⟩)
      · obtain ⟨w, hw, rfl⟩ := List.mem_map.1 hrest
        exact List.mem_cons_of_mem _ (List.mem_map.2 ⟨w, List.mem_of_mem_eraseIdx hw, rfl⟩)

end Moves

/-! ### Which moves a step makes -/

/-- The ack is applied, and `_persist` is called. -/
def StoresAck (s : PollService) (pollId reqId : PyStr) (content : Dict) : Prop :=
  (∀ v ∈ s.votes.get? pollId, v.reqId = reqId) ∧
    (s.votes.get? pollId = none →
      (s.appliedSeq.get? pollId).getD 0 ≤ (tryGetInt content "seq").getD 0) ∧
    (tryGetString content "error" = none ∨ tryGetString content "error" = some (py "closed"))

instance (s : PollService) (pollId reqId : PyStr) (content : Dict) :
    Decidable (StoresAck s pollId reqId content) :=
  inferInstanceAs (Decidable (_ ∧ _ ∧ _))

/-- The condition on a step: an ack that is stored comes when nothing is under way, and says that a
poll is closed where it was closed before.  No write fails, and no other device writes. -/
def OneByOne (s : PollService) : PollAction → Prop
  | .ack senderId content =>
      senderId ∈ newsBotMxids → ∀ reqId ∈ tryGetString content "req_id",
        ∀ pollId ∈ tryGetString content "poll_id", StoresAck s pollId reqId content →
          s.writes = [] ∧ s.echoes = [] ∧
            ((tryGetBool content "closed").getD false = false → ¬s.store.EverClosed pollId)
  | .failed _ => False
  | .other _ => False
  | _ => True

instance (s : PollService) : (a : PollAction) → Decidable (OneByOne s a)
  | .ack senderId content =>
      inferInstanceAs (Decidable (senderId ∈ newsBotMxids →
        ∀ reqId ∈ tryGetString content "req_id", ∀ pollId ∈ tryGetString content "poll_id",
          StoresAck s pollId reqId content → s.writes = [] ∧ s.echoes = [] ∧
            ((tryGetBool content "closed").getD false = false → ¬s.store.EverClosed pollId)))
  | .failed _ | .other _ => .isFalse id
  | .ensureLoaded .. | .vote .. | .timeout .. | .sync | .written .. => .isTrue trivial

section Steps

variable {s t : PollService} {q : PyStr}

theorem store_touch (s : PollService) (q : PyStr) : (s.touch q).store = s.store := by
  unfold PollService.touch
  split <;> rfl

theorem store_ensureLoaded (s : PollService) (q : PyStr) (closed : Bool) :
    (s.ensureLoaded q closed).store = s.store := by
  have htouch := store_touch { s with mineRequested := q :: s.mineRequested } q
  unfold PollService.ensureLoaded
  split
  · rfl
  · dsimp only
    split
    · exact htouch
    · exact htouch

theorem store_vote (s : PollService) (q : PyStr) (answers : List PyStr) (now : ℤ) (reqId : PyStr) :
    (s.vote q answers now reqId).store = s.store := store_touch s q

theorem store_timeout (h : s.timeout q = some t) : t.store = s.store := by
  unfold PollService.timeout at h
  split at h
  · cases h
  · split at h
    · obtain rfl := Option.some.inj h
      rfl
    · obtain rfl := Option.some.inj h
      exact store_touch { s with votes := s.votes.erase q } q

/-- Storing a vote is a move. -/
theorem store_persist (s : PollService) (v : PersistedVote) (x : ℤ) (hw : s.writes = [])
    (he : s.echoes = []) (hc : v.closed = false → ¬s.store.EverClosed v.pollId) :
    StoreMove s.store (s.persist v x).store := by
  unfold PollService.persist
  dsimp only
  split
  · rename_i hnone
    exact .stored s.store v hw he hc hnone
  · rename_i pruned hsome
    have hmove := StoreMove.persist s.store v pruned
      (fun p => if p = v.pollId then x else s.accountData.seqs p) hw he hc hsome
    have hwrites : s.writes ++ [⟨pruned, fun p => if p = v.pollId then x else
        s.accountData.seqs p⟩] = [⟨pruned, fun p => if p = v.pollId then x else
        s.accountData.seqs p⟩] := by rw [hw]; rfl
    unfold PollService.store at hmove ⊢
    rw [hwrites]
    exact hmove

theorem store_onAck (s : PollService) (q reqId : PyStr) (content : Dict)
    (hC : StoresAck s q reqId content → s.writes = [] ∧ s.echoes = [] ∧
      ((tryGetBool content "closed").getD false = false → ¬s.store.EverClosed q)) :
    (s.onAck q reqId content).store = s.store ∨
      StoreMove s.store (s.onAck q reqId content).store := by
  unfold PollService.onAck
  dsimp only
  split
  · exact .inl rfl
  rename_i hreq
  split
  · exact .inl rfl
  rename_i hnew
  have htouch := store_touch { s with
    appliedSeq := s.appliedSeq.set q ((tryGetInt content "seq").getD 0)
    votes := s.votes.erase q } q
  split
  · rename_i herror
    obtain ⟨hw, he, hclosed⟩ := hC ⟨fun v hv => by
        by_contra hne
        rw [Option.mem_def.1 hv] at hreq
        exact hreq (by simp [hne]),
      fun hnone => Int.not_lt.1 fun hlt => hnew ⟨hnone, hlt⟩, herror⟩
    refine .inr ?_
    have hstore : ∀ u : PollService, u.store = s.store → ∀ x,
        StoreMove s.store (u.persist ⟨q, (tryGetStrings content "answers").getD [],
          (tryGetBool content "closed").getD false⟩ x).store := by
      intro u hu x
      have hwrites : u.writes = [] := (congrArg VoteStore.writes hu).trans hw
      have hechoes : u.echoes = [] := (congrArg VoteStore.echoes hu).trans he
      rw [← hu] at hclosed ⊢
      exact store_persist u _ x hwrites hechoes hclosed
    refine hstore _ ?_ _
    exact htouch
  · exact .inl htouch

/-- **What a step does to the store.** -/
theorem store_step {a : PollAction} (hC : OneByOne s a) (h : pollStep s a = some t) :
    t.store = s.store ∨ StoreMove s.store t.store := by
  cases a with
  | ensureLoaded q closed =>
      obtain rfl := Option.some.inj h
      exact .inl (store_ensureLoaded s q closed)
  | vote q answers now reqId =>
      obtain rfl := Option.some.inj h
      exact .inl (store_vote s q answers now reqId)
  | timeout q => exact .inl (store_timeout h)
  | ack senderId content =>
      obtain rfl := Option.some.inj h
      unfold PollService.onToDevice
      split
      · rename_i reqId q hreq hq
        split
        · rename_i hsender
          exact store_onAck s q reqId content (hC hsender reqId hreq q hq)
        · exact .inl rfl
      · exact .inl rfl
  | sync =>
      simp only [pollStep] at h
      split at h
      · cases h
      · rename_i stored rest hechoes
        obtain rfl := Option.some.inj h
        exact .inr (.sync s.store stored rest hechoes)
  | written i =>
      simp only [pollStep] at h
      split at h
      · cases h
      · rename_i stored hget
        obtain rfl := Option.some.inj h
        exact .inr (.written s.store i stored hget)
  | failed i => cases hC
  | other stored => cases hC

theorem goodStore_start (accountData server : StoredVotes) :
    GoodStore (PollService.start accountData server).store where
  phase := .inl ⟨rfl, rfl, .inr rfl⟩
  closed c hmem p v hv hcl := by
    obtain rfl := List.mem_singleton.1 hmem
    have hinitial : Dict.get? (PollService.start accountData server).store.initial p = some v := hv
    exact .inl (by rw [hinitial]; exact hcl)
  kept p v _ _ w hw := by cases hw

variable {as : List PollAction}

theorem goodStore_run (h : Exec pollStep OneByOne s as t) (hs : GoodStore s.store) :
    GoodStore t.store := by
  refine h.invariant (I := fun u => GoodStore u.store) hs fun u a u' hu hC hstep => ?_
  rcases store_step hC hstep with hsame | hmove
  · exact hsame ▸ hu
  · exact hu.move hmove

theorem staysClosed_run {p : PyStr} (h : Exec pollStep OneByOne s as t) (hs : GoodStore s.store)
    (hp : StaysClosed p s.store) : StaysClosed p t.store := by
  refine (h.invariant (I := fun u => GoodStore u.store ∧ StaysClosed p u.store) ⟨hs, hp⟩
    fun u a u' hu hC hstep => ?_).2
  rcases store_step hC hstep with hsame | hmove
  · exact hsame ▸ hu
  · exact ⟨hu.1.move hmove, hu.2.move hu.1 hmove⟩

end Steps

/-- **No stored vote is lost, in every run that stores votes one by one: where nothing is under way,
the server holds the last answers of every poll that is kept; and a poll that is stored as closed is
not stored as open again.** -/
theorem stored_votes_kept (accountData server : StoredVotes) (as : List PollAction) (s : PollService)
    (h : Exec pollStep OneByOne (PollService.start accountData server) as s) :
    (s.writes = [] → s.echoes = [] → ∀ p v, latestVote s.persisted p = some v →
      (Dict.get? (keptVotes s.initial s.persisted) p).isSome = true →
      (fromAccountData s.server.content p).answers = v.answers) ∧
    ∀ bs t, Exec pollStep OneByOne s bs t → ∀ p v w,
      Dict.get? s.server.content p = some v → storedClosed v = true →
      Dict.get? t.server.content p = some w → storedClosed w = true := by
  have hgood := goodStore_run h (goodStore_start accountData server)
  constructor
  · intro hw he p v hlatest hkept
    obtain ⟨hholds, -⟩ := hgood.settled hw he
    obtain ⟨u, hu⟩ := Option.isSome_iff_exists.1 hkept
    have hvote := get?_keptVotes hlatest hu
    have hread : Assoc.get? (readVotes s.server.content) p = some (some (v.answers, v.closed)) := by
      have hsame : readVotes s.server.content = readVotes (keptVotes s.initial s.persisted) := hholds
      rw [hsame, get?_readVotes, hu, hvote, Option.map_some, voteRead_storedVote]
    exact answers_fromAccountData hread
  · intro bs t ht p v w hv hcl hw
    have hstays := staysClosed_run ht hgood (hgood.staysClosed hv hcl)
    exact hstays.2 _ List.mem_cons_self w hw

/-- The bot's answer about the vote in a poll. -/
def answerOf (pollId : PyStr) (answers : List PyStr) (closed : Bool) : PollAction :=
  .ack "@liza-news:bots.liza.ru" [("req_id", .str "r1"), ("poll_id", .str pollId),
    ("answers", .arr (answers.map .str)), ("closed", .bool closed)]

/-- Two votes, the second one after the first has come back. -/
theorem stored_votes_kept_one_by_one :
    ∃ s, Exec pollStep OneByOne (PollService.start ⟨[], fun _ => 0⟩ ⟨[], fun _ => 0⟩)
        [.sync, answerOf "p1" ["a"] true, .written 0, .sync, answerOf "p2" ["b"] false, .written 0,
          .sync] s ∧
      (fromAccountData s.server.content "p1").answers = [py "a"] ∧
      (fromAccountData s.server.content "p2").answers = [py "b"] := by
  obtain ⟨s, hs, hw, he, h₁, hk₁, h₂, hk₂⟩ : ∃ s, Exec pollStep OneByOne
      (PollService.start ⟨[], fun _ => 0⟩ ⟨[], fun _ => 0⟩)
        [.sync, answerOf "p1" ["a"] true, .written 0, .sync, answerOf "p2" ["b"] false, .written 0,
          .sync] s ∧ s.writes = [] ∧ s.echoes = [] ∧
      latestVote s.persisted "p1" = some ⟨"p1", ["a"], true⟩ ∧
      (Dict.get? (keptVotes s.initial s.persisted) "p1").isSome = true ∧
      latestVote s.persisted "p2" = some ⟨"p2", ["b"], false⟩ ∧
      (Dict.get? (keptVotes s.initial s.persisted) "p2").isSome = true :=
    exists_exec_of_runs (p := fun s : PollService => s.writes = [] ∧ s.echoes = [] ∧
      latestVote s.persisted "p1" = some ⟨"p1", ["a"], true⟩ ∧
      (Dict.get? (keptVotes s.initial s.persisted) "p1").isSome = true ∧
      latestVote s.persisted "p2" = some ⟨"p2", ["b"], false⟩ ∧
      (Dict.get? (keptVotes s.initial s.persisted) "p2").isSome = true) (by decide +kernel)
  have hkept := (stored_votes_kept _ _ _ s hs).1 hw he
  exact ⟨s, hs, hkept _ _ h₁ hk₁, hkept _ _ h₂ hk₂⟩

/-- **The second of two votes that come close together drops the first, and an ack that does not say
`closed` opens a poll again.** -/
theorem stored_vote_lost :
    (∃ s, Exec pollStep (fun _ _ => True)
        (PollService.start ⟨[], fun _ => 0⟩ ⟨[], fun _ => 0⟩)
        [.sync, answerOf "p1" ["a"] false, answerOf "p2" ["b"] false, .written 0, .written 0, .sync,
          .sync] s ∧
      s.writes = [] ∧ s.echoes = [] ∧
      latestVote s.persisted "p1" = some ⟨"p1", ["a"], false⟩ ∧
      (Dict.get? (keptVotes s.initial s.persisted) "p1").isSome = true ∧
      (fromAccountData s.server.content "p1").answers = []) ∧
    ∃ s t, Exec pollStep (fun _ _ => True)
        (PollService.start ⟨[], fun _ => 0⟩ ⟨[], fun _ => 0⟩)
        [.sync, answerOf "p1" ["a"] true, .written 0, .sync, answerOf "p1" ["a"] false] s ∧
      pollStep s (.written 0) = some t ∧
      (Dict.get? s.server.content "p1").any storedClosed = true ∧
      (Dict.get? t.server.content "p1").any (fun v => !storedClosed v) = true := by
  constructor
  · exact exists_exec_of_runs (p := fun s : PollService => s.writes = [] ∧ s.echoes = [] ∧
      latestVote s.persisted "p1" = some ⟨"p1", ["a"], false⟩ ∧
      (Dict.get? (keptVotes s.initial s.persisted) "p1").isSome = true ∧
      (fromAccountData s.server.content "p1").answers = []) (by decide +kernel)
  · exact exists_step_of_runs (p := fun s t : PollService =>
      (Dict.get? s.server.content "p1").any storedClosed = true ∧
      (Dict.get? t.server.content "p1").any (fun v => !storedClosed v) = true) (by decide +kernel)

end Client
end Liza
