/-
# Old stories are taken away

`servers/synapse/modules/stories_membership/__init__.py`: `_run_cleanup_safe` and what it starts,
with `story_is_expired` of `_logic.py`.  A round reads the clock, searches the tables for the
stories that are past their time and have no redaction yet, and redacts them one after the other in
the name of their authors.  The timer of the next round is set whether or not this one is over, so
rounds may overlap; and one that takes long redacts what another has redacted meanwhile.

A round may begin at any moment, with any reading of the clock.  The search raises where the
database does, or where an event is no object (`AttributeError` is not caught in its loops).  A
redaction is refused, or gets through, or gets through and raises all the same.  Events are never
purged, and the rows of a query come in the order of the table.
-/

import Liza.StoriesMembership.Hidden
import Liza.Lib.PyOps
import Liza.Lib.Run
import Mathlib.Data.List.Nodup

set_option autoImplicit false

namespace Liza
namespace StoriesMembership
namespace Cleanup

open Lib Synapse

/-! ### The tables -/

abbrev EventId := PyStr

/-- A row of `events` with its `event_json`: what `json.loads` makes of it, if it does not raise. -/
structure Row where
  roomId : RoomId
  eventId : EventId
  sender : UserId
  type : PyStr
  json : Option Json

/-- What a round keeps of an expired story. -/
structure Expired where
  roomId : RoomId
  eventId : EventId
  sender : UserId
deriving DecidableEq

def Row.expired (row : Row) : Expired := ⟨row.roomId, row.eventId, row.sender⟩

/-- The create events of the current state, the other events, and what `redactions` says is
redacted. -/
structure Tables where
  creates : List (RoomId × Option Json)
  events : List Row
  redactions : List EventId

/-! ### The search -/

/-- `v.get(key)`: a value without `get` raises. -/
def getOf (key : PyStr) : Json → Option Json
  | .obj d => some (Dict.get d key)
  | _ => none

/-- `json.loads(raw_json).get("content") or {}`. -/
def contentOf (event : Json) : Option Json :=
  (getOf "content" event).map fun content => content.or (.obj [])

/-- The test of the first loop of `_find_expired_stories_txn`, on the create event of a room. -/
def isStoriesRoom : Option Json → Option Bool
  | none => some false
  | some event => do
      let content ← contentOf event
      let tag ← getOf storiesTag content
      some tag.truthy

/-- `isinstance(v, int)`; `bool` is a subclass of `int`. -/
def asInt : Json → Option ℤ
  | .int n => some n
  | .bool b => some (if b then 1 else 0)
  | _ => none

/-- `story_is_expired`. -/
def storyIsExpired (content : Json) (nowMs : ℤ) : Option Bool := do
  let story ← getOf "com.liza.story" content
  match story with
  | .obj story =>
      match asInt (Dict.get story "expires_ts") with
      | some expires => some (expires < nowMs)
      | none => some false
  | _ => some false

/-- The test of the second loop, on a message. -/
def messageIsExpired (nowMs : ℤ) : Option Json → Option Bool
  | none => some false
  | some event => do
      let content ← contentOf event
      storyIsExpired content nowMs

/-- The elements that pass a test, which may raise. -/
def keep {α : Type} (test : α → Option Bool) : List α → Option (List α)
  | [] => some []
  | a :: l => do
      let passed ← test a
      let rest ← keep test l
      some (if passed then a :: rest else rest)

/-- The messages of some rooms that have no redaction: the second query. -/
def candidates (db : Tables) (rooms : List RoomId) : List Row :=
  db.events.filter fun row => row.type = py "m.room.message" ∧ row.roomId ∈ rooms ∧
    row.eventId ∉ db.redactions

/-- `_find_expired_stories_txn`. -/
def findExpiredStories (db : Tables) (nowMs : ℤ) : Option (List Expired) := do
  let storiesRooms ← keep (fun create => isStoriesRoom create.2) db.creates
  if storiesRooms = [] then some []
  else
    let rows := candidates db (storiesRooms.map Prod.fst)
    let expired ← keep (fun row => messageIsExpired nowMs row.json) rows
    some (expired.map Row.expired)

/-! ### The rounds -/

/-- Where `_cleanup_round_with_now` is: before its search; with what is left to redact and what
could not be; or over, with what could not be redacted if it got as far. -/
inductive Round where
  | finding (nowMs : ℤ)
  | redacting (nowMs : ℤ) (rest failed : List Expired)
  | ended (failed : Option (List Expired))
deriving DecidableEq

/-- A redaction that the module has sent: by which round, when that round had read the clock, and of
what. -/
structure Sent where
  round : ℕ
  nowMs : ℤ
  expired : Expired

structure State where
  db : Tables
  rounds : List Round
  sent : List Sent

def State.init : State := ⟨⟨[], [], []⟩, [], []⟩

/-- What becomes of a redaction. -/
inductive Answer where
  | sent
  | sentAndRaised
  | refused
deriving DecidableEq

def Answer.persisted : Answer → Bool
  | .refused => false
  | _ => true

def Answer.raised : Answer → Bool
  | .sent => false
  | _ => true

inductive Act where
  /-- `_run_cleanup_safe`. -/
  | begin (nowMs : ℤ)
  /-- The search of a round; the database may raise. -/
  | find (i : ℕ) (ok : Bool)
  /-- The next redaction of a round. -/
  | redact (i : ℕ) (answer : Answer)
  /-- The loop of a round is over. -/
  | finish (i : ℕ)
  /-- Another event is persisted. -/
  | persist (row : Row)
  /-- A room is created. -/
  | create (roomId : RoomId) (json : Option Json)
  /-- Someone else redacts. -/
  | redactOther (eventId : EventId)
  /-- The server is restarted. -/
  | restart

/-- A round is over when the process is. -/
def Round.lost : Round → Round
  | .ended failed => .ended failed
  | _ => .ended none

variable (s : State)

def State.setRound (i : ℕ) (round : Round) : State := { s with rounds := s.rounds.set i round }

/-- The body of the loop of a round, with what the redaction comes to. -/
def State.redactNext (i : ℕ) (nowMs : ℤ) (e : Expired) (rest failed : List Expired)
    (answer : Answer) : State where
  db := if answer.persisted then { s.db with redactions := e.eventId :: s.db.redactions } else s.db
  rounds := s.rounds.set i (.redacting nowMs rest (if answer.raised then e :: failed else failed))
  sent := if answer.persisted then ⟨i, nowMs, e⟩ :: s.sent else s.sent

def step (s : State) : Act → Option State
  | .begin nowMs => some { s with rounds := s.rounds ++ [.finding nowMs] }
  | .find i ok =>
      match s.rounds[i]? with
      | some (.finding nowMs) =>
          match (if ok then findExpiredStories s.db nowMs else none) with
          | some expired => some (s.setRound i (.redacting nowMs expired []))
          | none => some (s.setRound i (.ended none))
      | _ => none
  | .redact i answer =>
      match s.rounds[i]? with
      | some (.redacting nowMs (e :: rest) failed) =>
          some (s.redactNext i nowMs e rest failed answer)
      | _ => none
  | .finish i =>
      match s.rounds[i]? with
      | some (.redacting _ [] failed) => some (s.setRound i (.ended (some failed)))
      | _ => none
  | .persist row =>
      if row.eventId ∈ s.db.events.map Row.eventId then none
      else some { s with db := { s.db with events := s.db.events ++ [row] } }
  | .create roomId json =>
      if roomId ∈ s.db.creates.map Prod.fst then none
      else some { s with db := { s.db with creates := s.db.creates ++ [(roomId, json)] } }
  | .redactOther eventId =>
      some { s with db := { s.db with redactions := eventId :: s.db.redactions } }
  | .restart => some { s with rounds := s.rounds.map Round.lost }

/-! ### What a search finds -/

section Search

variable {α β : Type} {test : α → Option Bool} {l r : List α} {a : α} {db : Tables} {nowMs : ℤ}
  {found : List Expired} {e : Expired} {row : Row}

theorem keep_eq_filter (h : keep test l = some r) :
    r = l.filter fun a => test a = some true := by
  induction l generalizing r with
  | nil => exact (Option.some.inj h).symm
  | cons b l ih =>
      obtain ⟨passed, hpassed, h⟩ := Option.bind_eq_some_iff.1 h
      obtain ⟨rest, hrest, h⟩ := Option.bind_eq_some_iff.1 h
      obtain rfl := Option.some.inj h
      cases passed with
      | true => simp [hpassed, ih hrest]
      | false => simp [hpassed, ih hrest]

theorem mem_keep (h : keep test l = some r) : a ∈ r ↔ a ∈ l ∧ test a = some true := by
  rw [keep_eq_filter h, List.mem_filter, decide_eq_true_eq]

/-- A message of a stories room that is past its time. -/
structure Row.IsExpiredStory (db : Tables) (nowMs : ℤ) (row : Row) : Prop where
  mem : row ∈ db.events
  message : row.type = py "m.room.message"
  room : ∃ create ∈ db.creates, create.1 = row.roomId ∧ isStoriesRoom create.2 = some true
  expired : messageIsExpired nowMs row.json = some true

theorem findExpiredStories_cases (h : findExpiredStories db nowMs = some found) :
    ∃ rooms, keep (fun create => isStoriesRoom create.2) db.creates = some rooms ∧
      (rooms = [] ∧ found = [] ∨ ∃ expired, keep (fun row : Row => messageIsExpired nowMs row.json)
        (candidates db (rooms.map Prod.fst)) = some expired ∧ found = expired.map Row.expired) := by
  obtain ⟨rooms, hrooms, h⟩ := Option.bind_eq_some_iff.1 h
  refine ⟨rooms, hrooms, ?_⟩
  by_cases hnil : rooms = []
  · rw [if_pos hnil] at h
    exact .inl ⟨hnil, (Option.some.inj h).symm⟩
  · rw [if_neg hnil] at h
    obtain ⟨expired, hexpired, h⟩ := Option.bind_eq_some_iff.1 h
    exact .inr ⟨expired, hexpired, (Option.some.inj h).symm⟩

theorem mem_candidates {rooms : List RoomId} : row ∈ candidates db rooms ↔
    row ∈ db.events ∧ row.type = py "m.room.message" ∧ row.roomId ∈ rooms ∧
      row.eventId ∉ db.redactions := by
  rw [candidates, List.mem_filter, decide_eq_true_eq]

theorem mem_findExpiredStories (h : findExpiredStories db nowMs = some found) :
    e ∈ found ↔ ∃ row : Row, row.IsExpiredStory db nowMs ∧ row.eventId ∉ db.redactions ∧
      row.expired = e := by
  obtain ⟨rooms, hrooms, h⟩ := findExpiredStories_cases h
  have hroom (room : RoomId) : room ∈ rooms.map Prod.fst ↔
      ∃ create ∈ db.creates, create.1 = room ∧ isStoriesRoom create.2 = some true := by
    rw [List.mem_map]
    constructor
    · rintro ⟨create, hcreate, rfl⟩
      obtain ⟨hmem, hstories⟩ := (mem_keep hrooms).1 hcreate
      exact ⟨create, hmem, rfl, hstories⟩
    · rintro ⟨create, hmem, rfl, hstories⟩
      exact ⟨create, (mem_keep hrooms).2 ⟨hmem, hstories⟩, rfl⟩
  obtain ⟨rfl, rfl⟩ | ⟨expired, hexpired, rfl⟩ := h
  · refine ⟨fun he => absurd he List.not_mem_nil, ?_⟩
    rintro ⟨row, hrow, -⟩
    exact absurd ((hroom _).2 hrow.room) List.not_mem_nil
  · rw [List.mem_map]
    constructor
    · rintro ⟨row, hrow, rfl⟩
      obtain ⟨hmem, hpast⟩ := (mem_keep hexpired).1 hrow
      obtain ⟨hevent, htype, hin, hred⟩ := mem_candidates.1 hmem
      exact ⟨row, ⟨hevent, htype, (hroom _).1 hin, hpast⟩, hred, rfl⟩
    · rintro ⟨row, hrow, hred, rfl⟩
      refine ⟨row, (mem_keep hexpired).2 ⟨mem_candidates.2 ?_, hrow.expired⟩, rfl⟩
      exact ⟨hrow.mem, hrow.message, (hroom _).2 hrow.room, hred⟩

theorem nodup_findExpiredStories (hdb : (db.events.map Row.eventId).Nodup)
    (h : findExpiredStories db nowMs = some found) : (found.map Expired.eventId).Nodup := by
  obtain ⟨rooms, -, ⟨-, rfl⟩ | ⟨expired, hexpired, rfl⟩⟩ := findExpiredStories_cases h
  · exact List.nodup_nil
  · have hsub : expired.Sublist db.events := by
      rw [keep_eq_filter hexpired]
      exact List.filter_sublist.trans List.filter_sublist
    rw [List.map_map]
    exact hdb.sublist (hsub.map Row.eventId)

theorem storyIsExpired_iff {content : Json} : storyIsExpired content nowMs = some true ↔
    ∃ c story expires, content = .obj c ∧ Dict.get c "com.liza.story" = .obj story ∧
      asInt (Dict.get story "expires_ts") = some expires ∧ expires < nowMs := by
  unfold storyIsExpired
  cases content with
  | obj c =>
      cases hstory : Dict.get c "com.liza.story" with
      | obj story =>
          cases hexpires : asInt (Dict.get story "expires_ts") with
          | none => simp [getOf, hstory, hexpires]
          | some expires => simp [getOf, hstory, hexpires]
      | _ => simp [getOf, hstory]
  | _ => simp [getOf]

end Search

/-! ### What a step does -/

section Steps

variable {s t : State} {a : Act} {i j : ℕ} {nowMs : ℤ} {rest failed : List Expired} {e : Expired}

/-- The tables only grow. -/
structure Tables.Le (db db' : Tables) : Prop where
  creates : db.creates ⊆ db'.creates
  events : db.events ⊆ db'.events
  redactions : db.redactions ⊆ db'.redactions

theorem Tables.Le.refl (db : Tables) : db.Le db :=
  ⟨List.Subset.refl _, List.Subset.refl _, List.Subset.refl _⟩

theorem Tables.Le.trans {db db' db'' : Tables} (h : db.Le db') (h' : db'.Le db'') : db.Le db'' :=
  ⟨List.Subset.trans h.creates h'.creates, List.Subset.trans h.events h'.events,
    List.Subset.trans h.redactions h'.redactions⟩

theorem Row.IsExpiredStory.mono {db db' : Tables} {row : Row} (h : row.IsExpiredStory db nowMs)
    (hle : db.Le db') : row.IsExpiredStory db' nowMs := by
  obtain ⟨create, hcreate, hroom⟩ := h.room
  exact ⟨hle.events h.mem, h.message, ⟨create, hle.creates hcreate, hroom⟩, h.expired⟩

/-- A redaction is taken from the list of a round. -/
theorem redact_cases {answer : Answer} (h : step s (.redact i answer) = some t) :
    ∃ nowMs e rest failed, s.rounds[i]? = some (.redacting nowMs (e :: rest) failed) ∧
      t = s.redactNext i nowMs e rest failed answer := by
  simp only [step] at h
  split at h
  · next nowMs e rest failed hround =>
      exact ⟨nowMs, e, rest, failed, hround, (Option.some.inj h).symm⟩
  · cases h

theorem find_cases {ok : Bool} (h : step s (.find i ok) = some t) :
    ∃ nowMs, s.rounds[i]? = some (.finding nowMs) ∧
      ((∃ found, findExpiredStories s.db nowMs = some found ∧
          t = s.setRound i (.redacting nowMs found [])) ∨
        t = s.setRound i (.ended none)) := by
  simp only [step] at h
  split at h
  · next nowMs hround =>
      refine ⟨nowMs, hround, ?_⟩
      cases ok with
      | true =>
          rw [if_pos rfl] at h
          cases hfound : findExpiredStories s.db nowMs with
          | none =>
              rw [hfound] at h
              exact .inr (Option.some.inj h).symm
          | some found =>
              rw [hfound] at h
              exact .inl ⟨found, rfl, (Option.some.inj h).symm⟩
      | false =>
          rw [if_neg Bool.false_ne_true] at h
          exact .inr (Option.some.inj h).symm
  · cases h

theorem finish_cases (h : step s (.finish i) = some t) :
    ∃ nowMs failed, s.rounds[i]? = some (.redacting nowMs [] failed) ∧
      t = s.setRound i (.ended (some failed)) := by
  simp only [step] at h
  split at h
  · next nowMs failed hround => exact ⟨nowMs, failed, hround, (Option.some.inj h).symm⟩
  · cases h

theorem persist_cases {row : Row} (h : step s (.persist row) = some t) :
    row.eventId ∉ s.db.events.map Row.eventId ∧
      t = { s with db := { s.db with events := s.db.events ++ [row] } } := by
  simp only [step] at h
  split at h
  · cases h
  · next hnew => exact ⟨hnew, (Option.some.inj h).symm⟩

theorem create_cases {roomId : RoomId} {json : Option Json}
    (h : step s (.create roomId json) = some t) :
    t = { s with db := { s.db with creates := s.db.creates ++ [(roomId, json)] } } := by
  simp only [step] at h
  split at h
  · cases h
  · exact (Option.some.inj h).symm

theorem le_redactNext (answer : Answer) :
    s.db.Le (s.redactNext i nowMs e rest failed answer).db := by
  cases answer with
  | refused => exact .refl _
  | sent => exact ⟨fun _ => id, fun _ => id, List.subset_cons_self _ _⟩
  | sentAndRaised => exact ⟨fun _ => id, fun _ => id, List.subset_cons_self _ _⟩

theorem step_le (h : step s a = some t) : s.db.Le t.db := by
  cases a with
  | begin nowMs =>
      obtain rfl := Option.some.inj h
      exact .refl _
  | find i ok =>
      obtain ⟨nowMs, -, ⟨found, -, rfl⟩ | rfl⟩ := find_cases h
      · exact .refl _
      · exact .refl _
  | redact i answer =>
      obtain ⟨nowMs, e, rest, failed, -, rfl⟩ := redact_cases h
      exact le_redactNext answer
  | finish i =>
      obtain ⟨nowMs, failed, -, rfl⟩ := finish_cases h
      exact .refl _
  | persist row =>
      obtain ⟨-, rfl⟩ := persist_cases h
      exact ⟨fun _ => id, List.subset_append_left _ _, fun _ => id⟩
  | create roomId json =>
      obtain rfl := create_cases h
      exact ⟨List.subset_append_left _ _, fun _ => id, fun _ => id⟩
  | redactOther eventId =>
      obtain rfl := Option.some.inj h
      exact ⟨fun _ => id, fun _ => id, List.subset_cons_self _ _⟩
  | restart =>
      obtain rfl := Option.some.inj h
      exact .refl _

/-- The rows of `events` are told apart by their ids. -/
theorem step_nodup (h : step s a = some t) (hs : (s.db.events.map Row.eventId).Nodup) :
    (t.db.events.map Row.eventId).Nodup := by
  cases a with
  | persist row =>
      obtain ⟨hnew, rfl⟩ := persist_cases h
      rw [List.map_append, List.map_singleton, List.nodup_append]
      refine ⟨hs, List.nodup_singleton _, ?_⟩
      rintro a ha b hb rfl
      exact hnew (List.mem_singleton.1 hb ▸ ha)
  | find i ok =>
      obtain ⟨nowMs, -, ⟨found, -, rfl⟩ | rfl⟩ := find_cases h
      · exact hs
      · exact hs
  | redact i answer =>
      obtain ⟨nowMs, e, rest, failed, -, rfl⟩ := redact_cases h
      cases answer with
      | refused => exact hs
      | sent => exact hs
      | sentAndRaised => exact hs
  | finish i =>
      obtain ⟨nowMs, failed, -, rfl⟩ := finish_cases h
      exact hs
  | create roomId json =>
      obtain rfl := create_cases h
      exact hs
  | begin nowMs =>
      obtain rfl := Option.some.inj h
      exact hs
  | redactOther eventId =>
      obtain rfl := Option.some.inj h
      exact hs
  | restart =>
      obtain rfl := Option.some.inj h
      exact hs

/-- What a step does to the round `j`. -/
inductive Turn (s : State) (a : Act) (t : State) (j : ℕ) : Option Round → Option Round → Prop
  | same (r : Option Round) : Turn s a t j r r
  | began (nowMs : ℤ) : Turn s a t j none (some (.finding nowMs))
  | found {nowMs : ℤ} {found : List Expired} (h : findExpiredStories s.db nowMs = some found) :
      Turn s a t j (some (.finding nowMs)) (some (.redacting nowMs found []))
  | redacted (nowMs : ℤ) {e : Expired} (rest failed : List Expired) {answer : Answer}
      (ha : a = .redact j answer) (h : answer.persisted = true → e.eventId ∈ t.db.redactions) :
      Turn s a t j (some (.redacting nowMs (e :: rest) failed))
        (some (.redacting nowMs rest (if answer.raised then e :: failed else failed)))
  | finished (nowMs : ℤ) (failed : List Expired) :
      Turn s a t j (some (.redacting nowMs [] failed)) (some (.ended (some failed)))
  | lost (r : Round) : Turn s a t j (some r) (some (.ended none))

/-- A step that changes one round. -/
theorem turn_set {r r' : Round} (hr : s.rounds[i]? = some r) (ht : t.rounds = s.rounds.set i r')
    (hturn : Turn s a t i (some r) (some r')) (j : ℕ) :
    Turn s a t j s.rounds[j]? t.rounds[j]? := by
  rw [ht]
  by_cases hij : i = j
  · subst hij
    rw [List.getElem?_set_self (List.getElem?_eq_some_iff.1 hr).1, hr]
    exact hturn
  · rw [List.getElem?_set_ne hij]
    exact .same _

theorem turn_append (nowMs : ℤ) (ht : t.rounds = s.rounds ++ [.finding nowMs]) (j : ℕ) :
    Turn s a t j s.rounds[j]? t.rounds[j]? := by
  rw [ht]
  rcases Nat.lt_trichotomy j s.rounds.length with hlt | rfl | hgt
  · rw [List.getElem?_append_left hlt]
    exact .same _
  · rw [List.getElem?_concat_length, List.getElem?_eq_none (Nat.le_refl _)]
    exact .began nowMs
  · rw [List.getElem?_eq_none (Nat.le_of_lt hgt), List.getElem?_eq_none]
    · exact .same _
    · rw [List.length_append, List.length_singleton]
      exact hgt

theorem turn_lost (ht : t.rounds = s.rounds.map Round.lost) (j : ℕ) :
    Turn s a t j s.rounds[j]? t.rounds[j]? := by
  rw [ht, List.getElem?_map]
  cases s.rounds[j]? with
  | none => exact .same _
  | some r =>
      cases r with
      | finding nowMs => exact .lost _
      | redacting nowMs rest failed => exact .lost _
      | ended failed => exact .same _

/-- **What a step does to a round.** -/
theorem step_turn (h : step s a = some t) (j : ℕ) : Turn s a t j s.rounds[j]? t.rounds[j]? := by
  cases a with
  | begin nowMs =>
      obtain rfl := Option.some.inj h
      exact turn_append nowMs rfl j
  | find i ok =>
      obtain ⟨nowMs, hround, ⟨found, hfound, rfl⟩ | rfl⟩ := find_cases h
      · exact turn_set hround rfl (.found hfound) j
      · exact turn_set hround rfl (.lost _) j
  | redact i answer =>
      obtain ⟨nowMs, e, rest, failed, hround, rfl⟩ := redact_cases h
      refine turn_set hround rfl (.redacted nowMs rest failed rfl fun hp => ?_) j
      rw [State.redactNext, if_pos hp]
      exact List.mem_cons_self
  | finish i =>
      obtain ⟨nowMs, failed, hround, rfl⟩ := finish_cases h
      exact turn_set hround rfl (.finished nowMs failed) j
  | persist row =>
      obtain ⟨-, rfl⟩ := persist_cases h
      exact .same _
  | create roomId json =>
      obtain rfl := create_cases h
      exact .same _
  | redactOther eventId =>
      obtain rfl := Option.some.inj h
      exact .same _
  | restart =>
      obtain rfl := Option.some.inj h
      exact turn_lost rfl j

/-- What is sent is what a round has next. -/
theorem sent_cases {x : Sent} (h : step s a = some t) (hx : x ∈ t.sent) : x ∈ s.sent ∨
    ∃ rest failed, s.rounds[x.round]? = some (.redacting x.nowMs (x.expired :: rest) failed) := by
  cases a with
  | redact i answer =>
      obtain ⟨nowMs, e, rest, failed, hround, rfl⟩ := redact_cases h
      unfold State.redactNext at hx
      cases hp : answer.persisted with
      | true =>
          rw [hp, if_pos rfl] at hx
          rcases List.mem_cons.1 hx with rfl | hx
          · exact .inr ⟨rest, failed, hround⟩
          · exact .inl hx
      | false =>
          rw [hp, if_neg Bool.false_ne_true] at hx
          exact .inl hx
  | find i ok =>
      obtain ⟨nowMs, -, ⟨found, -, rfl⟩ | rfl⟩ := find_cases h
      · exact .inl hx
      · exact .inl hx
  | finish i =>
      obtain ⟨nowMs, failed, -, rfl⟩ := finish_cases h
      exact .inl hx
  | persist row =>
      obtain ⟨-, rfl⟩ := persist_cases h
      exact .inl hx
  | create roomId json =>
      obtain rfl := create_cases h
      exact .inl hx
  | begin nowMs =>
      obtain rfl := Option.some.inj h
      exact .inl hx
  | redactOther eventId =>
      obtain rfl := Option.some.inj h
      exact .inl hx
  | restart =>
      obtain rfl := Option.some.inj h
      exact .inl hx

end Steps

/-! ### Runs -/

/-- A stories room, and a story in it that is shown until 50. -/
def annsRoom : Json := .obj [("content", .obj [("com.liza.stories", .bool true)])]

def annsStory : Row where
  roomId := "!stories:liza"
  eventId := "$story"
  sender := "@ann:liza"
  type := "m.room.message"
  json := some (.obj [("content",
    .obj [("com.liza.story", .obj [("expires_ts", .int 50)])])])

section Runs

variable {s s' t : State} {as bs : List Act} {i j : ℕ} {nowMs nowMs' : ℤ}
  {rest rest' failed failed' : List Expired} {e e' : Expired} {answer : Answer} {x : Sent}

/-- What holds of the rounds and of what they have sent. -/
structure Sound (s : State) : Prop where
  ids : (s.db.events.map Row.eventId).Nodup
  rests : ∀ {j : ℕ} {nowMs : ℤ} {rest failed : List Expired},
    s.rounds[j]? = some (.redacting nowMs rest failed) → (rest.map Expired.eventId).Nodup ∧
      ∀ e ∈ rest, ∃ row : Row, row.IsExpiredStory s.db nowMs ∧ row.expired = e
  sent : ∀ x ∈ s.sent, ∃ row : Row, row.IsExpiredStory s.db x.nowMs ∧ row.expired = x.expired

theorem Sound.init : Sound .init := by
  refine ⟨List.nodup_nil, fun h => ?_, fun x hx => absurd hx List.not_mem_nil⟩
  cases h

theorem Sound.step {a : Act} (hs : Sound s) (h : step s a = some t) : Sound t := by
  have hle := step_le h
  refine ⟨step_nodup h hs.ids, fun {j nowMs rest failed} hj => ?_, fun x hx => ?_⟩
  · have hturn := step_turn h j
    rw [hj] at hturn
    have key (hnodup : (rest.map Expired.eventId).Nodup)
        (hrows : ∀ e ∈ rest, ∃ row : Row, row.IsExpiredStory s.db nowMs ∧ row.expired = e) :
        (rest.map Expired.eventId).Nodup ∧
          ∀ e ∈ rest, ∃ row : Row, row.IsExpiredStory t.db nowMs ∧ row.expired = e := by
      refine ⟨hnodup, fun e he => ?_⟩
      obtain ⟨row, hrow, heq⟩ := hrows e he
      exact ⟨row, hrow.mono hle, heq⟩
    generalize hbefore : s.rounds[j]? = before at hturn
    cases hturn with
    | same => exact key (hs.rests hbefore).1 (hs.rests hbefore).2
    | found hfound =>
        refine key (nodup_findExpiredStories hs.ids hfound) fun e he => ?_
        obtain ⟨row, hrow, -, heq⟩ := (mem_findExpiredStories hfound).1 he
        exact ⟨row, hrow, heq⟩
    | redacted _ _ failed ha hred =>
        obtain ⟨hnodup, hrows⟩ := hs.rests hbefore
        exact key (List.nodup_cons.1 hnodup).2 fun e he => hrows e (List.mem_cons_of_mem _ he)
  · rcases sent_cases h hx with hx | ⟨rest, failed, hround⟩
    · obtain ⟨row, hrow, heq⟩ := hs.sent x hx
      exact ⟨row, hrow.mono hle, heq⟩
    · obtain ⟨row, hrow, heq⟩ := (hs.rests hround).2 _ List.mem_cons_self
      exact ⟨row, hrow.mono hle, heq⟩

theorem Sound.of_exec (h : Exec Cleanup.step (fun _ _ => True) .init as s) : Sound s :=
  h.invariant .init fun _ _ _ hs _ hstep => hs.step hstep

/-- **Only old stories are redacted.**  Whatever the module redacts in a run is a message of a
stories room that gives a time, before the reading of the clock of the round, until which it is
shown; and it is redacted in the name of its author. -/
theorem redacts_expired (h : Exec step (fun _ _ => True) .init as s) (hx : x ∈ s.sent) :
    ∃ row ∈ s.db.events, row.eventId = x.expired.eventId ∧ row.sender = x.expired.sender ∧
      row.roomId = x.expired.roomId ∧ row.type = py "m.room.message" ∧
      (∃ create ∈ s.db.creates, create.1 = row.roomId ∧ isStoriesRoom create.2 = some true) ∧
      ∃ event content c story expires, row.json = some event ∧ contentOf event = some content ∧
        content = .obj c ∧ Dict.get c "com.liza.story" = .obj story ∧
        asInt (Dict.get story "expires_ts") = some expires ∧ expires < x.nowMs := by
  obtain ⟨row, hrow, heq⟩ := (Sound.of_exec h).sent x hx
  have hexpired := hrow.expired
  refine ⟨row, hrow.mem, by rw [← heq]; rfl, by rw [← heq]; rfl, by rw [← heq]; rfl, hrow.message,
    hrow.room, ?_⟩
  cases hjson : row.json with
  | none =>
      rw [hjson] at hexpired
      cases hexpired
  | some event =>
      rw [hjson] at hexpired
      obtain ⟨content, hcontent, hpast⟩ := Option.bind_eq_some_iff.1 hexpired
      obtain ⟨c, story, expires, hc, hstory, hexpires, hlt⟩ := storyIsExpired_iff.1 hpast
      exact ⟨event, content, c, story, expires, rfl, hcontent, hc, hstory, hexpires, hlt⟩

/-- A round finds the story and redacts it. -/
def oneRound : List Act :=
  [.create "!stories:liza" (some annsRoom), .persist annsStory, .begin 100, .find 0 true,
    .redact 0 .sent]

theorem story_was_expired : ∃ s, Exec step (fun _ _ => True) .init oneRound s ∧
    ∃ x ∈ s.sent, x.expired = annsStory.expired ∧
      ∃ row ∈ s.db.events, row.eventId = x.expired.eventId ∧ row.sender = x.expired.sender ∧
      row.roomId = x.expired.roomId ∧ row.type = py "m.room.message" ∧
      (∃ create ∈ s.db.creates, create.1 = row.roomId ∧ isStoriesRoom create.2 = some true) ∧
      ∃ event content c story expires, row.json = some event ∧ contentOf event = some content ∧
        content = .obj c ∧ Dict.get c "com.liza.story" = .obj story ∧
        asInt (Dict.get story "expires_ts") = some expires ∧ expires < x.nowMs := by
  obtain ⟨s, hs, hsent⟩ : ∃ s, Exec step (fun _ _ => True) .init oneRound s ∧
      s.sent.map Sent.expired = [annsStory.expired] := exists_exec_of_runs (by decide)
  obtain ⟨x, hx, heq⟩ := List.mem_map.1 (hsent ▸ List.mem_singleton_self annsStory.expired)
  exact ⟨s, hs, x, hx, heq, redacts_expired hs hx⟩

/-- What a run that goes on from `s'` keeps of an event that the round `i` has just redacted. -/
structure Redacted (s : State) (i : ℕ) (e : Expired) (t : State) : Prop where
  mem : e.eventId ∈ t.db.redactions
  held : ∀ {j : ℕ} {nowMs : ℤ} {rest failed : List Expired},
    t.rounds[j]? = some (.redacting nowMs rest failed) →
    ∀ e' ∈ rest, e'.eventId = e.eventId → j ≠ i ∧
      ∃ rest' failed', s.rounds[j]? = some (.redacting nowMs rest' failed') ∧ e' ∈ rest'

theorem Redacted.step {a : Act} {u : State} (ht : Redacted s i e t) (h : step t a = some u) :
    Redacted s i e u := by
  refine ⟨(step_le h).redactions ht.mem, fun {j nowMs rest failed} hj e' he' hid => ?_⟩
  have hturn := step_turn h j
  rw [hj] at hturn
  generalize hbefore : t.rounds[j]? = before at hturn
  cases hturn with
  | same => exact ht.held hbefore e' he' hid
  | found hfound =>
      -- what a later search finds has no redaction yet
      obtain ⟨row, -, hnot, rfl⟩ := (mem_findExpiredStories hfound).1 he'
      have hsame : row.eventId = e.eventId := hid
      exact absurd (hsame ▸ ht.mem) hnot
  | redacted _ _ failed ha hred => exact ht.held hbefore e' (List.mem_cons_of_mem _ he') hid

/-- The round that redacts does not have the event a second time. -/
theorem Redacted.start (hs : Sound s)
    (hnext : s.rounds[i]? = some (.redacting nowMs (e :: rest) failed))
    (hstep : Cleanup.step s (.redact i answer) = some s') (hanswer : answer.persisted = true) :
    Redacted s i e s' := by
  obtain ⟨nowMs', e', rest', failed', hround, rfl⟩ := redact_cases hstep
  obtain ⟨rfl, ⟨rfl, rfl⟩, rfl⟩ : nowMs = nowMs' ∧ (e = e' ∧ rest = rest') ∧ failed = failed' := by
    simpa [hnext] using hround
  refine ⟨?_, fun {j nowMs' rest' failed'} hj e' he' hid => ?_⟩
  · rw [State.redactNext, if_pos hanswer]
    exact List.mem_cons_self
  · by_cases hji : j = i
    · subst hji
      have hself : (s.redactNext j nowMs e rest failed answer).rounds[j]? =
          some (.redacting nowMs rest (if answer.raised then e :: failed else failed)) :=
        List.getElem?_set_self (List.getElem?_eq_some_iff.1 hnext).1
      obtain ⟨rfl, rfl, -⟩ : nowMs = nowMs' ∧ rest = rest' ∧
          (if answer.raised then e :: failed else failed) = failed' := by
        simpa [hself] using hj
      have hnodup := (hs.rests hnext).1
      rw [List.map_cons, List.nodup_cons] at hnodup
      exact absurd (hid ▸ List.mem_map_of_mem he') hnodup.1
    · have hother : (s.redactNext i nowMs e rest failed answer).rounds[j]? = s.rounds[j]? :=
        List.getElem?_set_ne (Ne.symm hji)
      exact ⟨hji, rest', failed', hother ▸ hj, he'⟩

/-- **No story is redacted again by a later round.**  In every run, whatever raises in between and
however often the server restarts: a round that comes to redact what another has redacted had found
it before that, so the two overlap, and it is not the same round. -/
theorem redacted_again_overlaps (h : Exec step (fun _ _ => True) .init as s)
    (hnext : s.rounds[i]? = some (.redacting nowMs (e :: rest) failed))
    (hstep : step s (.redact i answer) = some s') (hanswer : answer.persisted = true)
    (h' : Exec step (fun _ _ => True) s' bs t)
    (hagain : t.rounds[j]? = some (.redacting nowMs' (e' :: rest') failed'))
    (hid : e'.eventId = e.eventId) :
    j ≠ i ∧ ∃ before failed, s.rounds[j]? = some (.redacting nowMs' before failed) ∧
      e' ∈ before := by
  have ht : Redacted s i e t := h'.invariant (.start (.of_exec h) hnext hstep hanswer)
    fun _ _ _ hs _ hstep => hs.step hstep
  exact ht.held hagain e' List.mem_cons_self hid

/-- The first round redacts what the second has found as well. -/
def twoRounds : List Act :=
  [.create "!stories:liza" (some annsRoom), .persist annsStory, .begin 100, .find 0 true,
    .begin 160, .find 1 true]

theorem second_had_found_it : ∃ s s', Exec step (fun _ _ => True) .init twoRounds s ∧
    step s (.redact 0 .sent) = some s' ∧
      s'.rounds[1]? = some (.redacting 160 [annsStory.expired] []) ∧ 1 ≠ 0 ∧
      ∃ before failed, s.rounds[1]? = some (.redacting 160 before failed) ∧
        annsStory.expired ∈ before := by
  obtain ⟨s, s', hs, hstep, hfirst, hsecond⟩ :
      ∃ s s', Exec step (fun _ _ => True) .init twoRounds s ∧
        step s (.redact 0 .sent) = some s' ∧
        s.rounds[0]? = some (.redacting 100 [annsStory.expired] []) ∧
        s'.rounds[1]? = some (.redacting 160 [annsStory.expired] []) :=
    exists_step_of_runs (by decide)
  exact ⟨s, s', hs, hstep, hsecond,
    redacted_again_overlaps hs hfirst hstep rfl (.nil s') hsecond rfl⟩

/-- What a round that has searched accounts for. -/
structure Accounts (found : List Expired) (i : ℕ) (t : State) : Prop where
  redacting : ∀ {nowMs : ℤ} {rest failed : List Expired},
    t.rounds[i]? = some (.redacting nowMs rest failed) →
    ∀ e ∈ found, e ∈ rest ∨ e ∈ failed ∨ e.eventId ∈ t.db.redactions
  ended : ∀ {failed : List Expired}, t.rounds[i]? = some (.ended (some failed)) →
    ∀ e ∈ found, e ∈ failed ∨ e.eventId ∈ t.db.redactions
  begun : t.rounds[i]? ≠ none
  searched : ∀ {nowMs : ℤ}, t.rounds[i]? ≠ some (.finding nowMs)

theorem Accounts.step {a : Act} {u : State} {found : List Expired} (ht : Accounts found i t)
    (h : step t a = some u) : Accounts found i u := by
  have hred := (step_le h).redactions
  have hturn := step_turn h i
  generalize hbefore : t.rounds[i]? = before at hturn
  generalize hafter : u.rounds[i]? = after at hturn
  cases hturn with
  | same =>
      refine ⟨fun hj e he => ?_, fun hj e he => ?_, ?_, fun hj => ?_⟩
      · rw [hafter] at hj
        exact (ht.redacting (hbefore.trans hj) e he).imp_right (Or.imp_right fun h => hred h)
      · rw [hafter] at hj
        exact (ht.ended (hbefore.trans hj) e he).imp_right fun h => hred h
      · rw [hafter, ← hbefore]
        exact ht.begun
      · rw [hafter, ← hbefore] at hj
        exact ht.searched hj
  | began nowMs => exact absurd hbefore ht.begun
  | found hfound => exact absurd hbefore ht.searched
  | redacted nowMs rest failed ha hpersisted =>
      rename_i e' answer
      refine ⟨fun hj e he => ?_, fun hj => ?_, ?_, fun hj => ?_⟩
      · rw [hafter] at hj
        obtain ⟨-, rfl, rfl⟩ := Round.redacting.inj (Option.some.inj hj)
        rcases ht.redacting hbefore e he with hmem | hfailed | hold
        · rcases List.mem_cons.1 hmem with rfl | hmem
          · cases answer with
            | sent => exact .inr (.inr (hpersisted rfl))
            | sentAndRaised => exact .inr (.inr (hpersisted rfl))
            | refused => exact .inr (.inl List.mem_cons_self)
          · exact .inl hmem
        · refine .inr (.inl ?_)
          cases answer.raised with
          | true => exact List.mem_cons_of_mem _ hfailed
          | false => exact hfailed
        · exact .inr (.inr (hred hold))
      · rw [hafter] at hj
        cases hj
      · rw [hafter]
        exact Option.some_ne_none _
      · rw [hafter] at hj
        cases hj
  | finished nowMs failed =>
      refine ⟨fun hj => ?_, fun hj e he => ?_, ?_, fun hj => ?_⟩
      · rw [hafter] at hj
        cases hj
      · rw [hafter] at hj
        obtain rfl := Option.some.inj (Round.ended.inj (Option.some.inj hj))
        rcases ht.redacting hbefore e he with hmem | hfailed | hold
        · exact absurd hmem List.not_mem_nil
        · exact .inl hfailed
        · exact .inr (hred hold)
      · rw [hafter]
        exact Option.some_ne_none _
      · rw [hafter] at hj
        cases hj
  | lost r =>
      refine ⟨fun hj => ?_, fun hj => ?_, ?_, fun hj => ?_⟩
      · rw [hafter] at hj
        cases hj
      · rw [hafter] at hj
        cases hj
      · rw [hafter]
        exact Option.some_ne_none _
      · rw [hafter] at hj
        cases hj

/-- A round that has been given up stays so. -/
theorem given_up_step {a : Act} {u : State} (ht : t.rounds[i]? = some (.ended none))
    (h : step t a = some u) : u.rounds[i]? = some (.ended none) := by
  have hturn := step_turn h i
  rw [ht] at hturn
  generalize hafter : u.rounds[i]? = after at hturn
  cases hturn with
  | same => rfl
  | lost r => rfl

/-- **A round passes no story over.**  When a round is over, in any run in which other rounds,
other redactions and new events came in between: whatever was an expired story when it searched is
redacted now, or is among what it could not redact. -/
theorem round_leaves_none {row : Row} (hround : s.rounds[i]? = some (.finding nowMs))
    (hfind : step s (.find i true) = some s')
    (h : Exec step (fun _ _ => True) s' as t) (hend : t.rounds[i]? = some (.ended (some failed)))
    (hrow : row.IsExpiredStory s.db nowMs) :
    row.eventId ∈ t.db.redactions ∨ row.expired ∈ failed := by
  have hlen := (List.getElem?_eq_some_iff.1 hround).1
  obtain ⟨nowMs', hround', hcases⟩ := find_cases hfind
  obtain rfl : nowMs = nowMs' := by simpa [hround] using hround'
  obtain ⟨found, hfound, rfl⟩ | rfl := hcases
  · have hself : (s.setRound i (.redacting nowMs found [])).rounds[i]? =
        some (.redacting nowMs found []) := List.getElem?_set_self hlen
    have hstart : Accounts found i (s.setRound i (.redacting nowMs found [])) := by
      refine ⟨fun hj e he => ?_, fun hj => ?_, ?_, fun hj => ?_⟩
      · rw [hself] at hj
        obtain ⟨-, rfl, -⟩ := Round.redacting.inj (Option.some.inj hj)
        exact .inl he
      · rw [hself] at hj
        cases hj
      · rw [hself]
        exact Option.some_ne_none _
      · rw [hself] at hj
        cases hj
    have ht : Accounts found i t := h.invariant hstart fun _ _ _ hs _ hstep => hs.step hstep
    by_cases hred : row.eventId ∈ s.db.redactions
    · refine .inl (h.invariant (I := fun u => row.eventId ∈ u.db.redactions) hred ?_)
      exact fun _ _ _ hs _ hstep => (step_le hstep).redactions hs
    · have hmem := (mem_findExpiredStories hfound).2 ⟨row, hrow, hred, rfl⟩
      exact (ht.ended hend _ hmem).symm
  · have hself : (s.setRound i (.ended none)).rounds[i]? = some (.ended none) :=
      List.getElem?_set_self hlen
    have ht : t.rounds[i]? = some (.ended none) :=
      h.invariant (I := fun u => u.rounds[i]? = some (.ended none)) hself
        fun _ _ _ hs _ hstep => given_up_step hs hstep
    rw [ht] at hend
    cases hend

/-- A round that has read the clock. -/
def searching : State :=
  ⟨⟨[("!stories:liza", some annsRoom)], [annsStory], []⟩, [.finding 100], []⟩

theorem story_not_passed_over : ∃ s' t, step searching (.find 0 true) = some s' ∧
    Exec step (fun _ _ => True) s' [.redact 0 .sent, .finish 0] t ∧
    t.rounds[0]? = some (.ended (some [])) ∧
    (annsStory.eventId ∈ t.db.redactions ∨ annsStory.expired ∈ ([] : List Expired)) := by
  have hfind : step searching (.find 0 true) =
      some (searching.setRound 0 (.redacting 100 [annsStory.expired] [])) := by rfl
  obtain ⟨t, ht, hend⟩ : ∃ t, Exec step (fun _ _ => True)
      (searching.setRound 0 (.redacting 100 [annsStory.expired] []))
      [.redact 0 .sent, .finish 0] t ∧ t.rounds[0]? = some (.ended (some [])) :=
    exists_exec_of_runs (by decide)
  have hrow : annsStory.IsExpiredStory searching.db 100 := by
    refine ⟨List.mem_singleton_self _, rfl, ?_, by rfl⟩
    exact ⟨("!stories:liza", some annsRoom), List.mem_singleton_self _, rfl, by rfl⟩
  exact ⟨_, t, hfind, ht, hend, round_leaves_none rfl hfind ht hend hrow⟩

end Runs

end Cleanup
end StoriesMembership
end Liza
