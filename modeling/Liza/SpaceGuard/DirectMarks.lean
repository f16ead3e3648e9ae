/-
# The marks of direct chats

`on_create_room` puts the user of a direct chat into `_pending_dm_senders`, and the next creation
event of that user takes the mark away, whichever request it is of.  A request whose mark is not
taken yet is early (`Phase.early`).  The marks fit when a user is marked exactly while a direct
request of theirs is early, and no other request of theirs is early then (`Marks`).  Two requests
of one user at once break that, and so does a direct request that is rejected early, since nothing
else takes its mark away.  A request that is rejected after its room was handed to
`_add_room_to_main_space` leaves a job for a room that does not exist.

In a run where none of these happens (`Serial`) the rooms that are added are the right ones.  Of
`_add_room_to_main_space` there is only that it is started.
-/

import Liza.SpaceGuard.MainSpace

set_option autoImplicit false

namespace Liza
namespace SpaceGuard

open Lib

variable {S : Server} {w t : World} {a : Act} {r : RoomId} {i j : ℕ} {q q' : Request}
  {u : UserId}

/-! ### Which rooms are there -/

/-- The room is stored. -/
def World.Known (w : World) (r : RoomId) : Prop := ∃ e ∈ w.rooms, e.1 = r

instance (w : World) (r : RoomId) : Decidable (w.Known r) :=
  inferInstanceAs (Decidable (∃ e ∈ w.rooms, e.1 = r))

theorem known_of_answer (h : w.Answer (some r)) : w.Known r := by
  obtain ⟨e, he, heq, -⟩ := h
  exact ⟨e, (mem_rows.1 he).1, heq⟩

theorem known_congr (hrooms : t.rooms = w.rooms) : t.Known r ↔ w.Known r := by
  rw [World.Known, World.Known, hrooms]

theorem known_cons {e : RoomId × Room} (hrooms : t.rooms = e :: w.rooms) :
    t.Known r ↔ e.1 = r ∨ w.Known r := by
  simp only [World.Known, hrooms, List.exists_mem_cons_iff]

theorem known_counting {s : RoomId} : (w.counting s).Known r ↔ w.Known r := by
  constructor
  · rintro ⟨e, he, rfl⟩
    obtain ⟨f, hf, rfl⟩ := List.mem_map.1 he
    refine ⟨f, hf, ?_⟩
    split <;> rfl
  · rintro ⟨f, hf, rfl⟩
    refine ⟨_, List.mem_map.2 ⟨f, hf, rfl⟩, ?_⟩
    split <;> rfl

/-- **A room that is there was there before, or is the room of a request, or is remote.** -/
theorem known_of_moves (h : Moves S w a t) (hr : t.Known r) :
    w.Known r ∨ (∃ i ts, a = .persist i ts ∧ r = .ofRequest i) ∨ r.isLocal = false := by
  obtain ⟨hrooms, -⟩ | ⟨i, ts, main, q, rfl, -, -, rfl⟩ | ⟨s, -, rfl⟩ | ⟨room, s, -, rfl⟩ |
    ⟨n, room, -, rfl⟩ | ⟨room, -, rfl⟩ | ⟨room, -, rfl⟩ := database_of_moves h
  · exact .inl ((known_congr hrooms).1 hr)
  · rcases (known_cons (w := w) rfl).1 hr with rfl | hr
    · exact .inr (.inl ⟨i, ts, rfl, rfl⟩)
    · exact .inl hr
  · exact .inl (known_counting.1 hr)
  · exact .inl ((known_congr rfl).1 hr)
  · rcases (known_cons (w := w) rfl).1 hr with rfl | hr
    · exact .inr (.inr rfl)
    · exact .inl hr
  · exact .inl ((known_congr rfl).1 hr)
  · exact .inl ((known_congr rfl).1 hr)

/-- Rooms do not go away. -/
theorem World.Known.moves (hr : w.Known r) (h : Moves S w a t) : t.Known r := by
  obtain ⟨hrooms, -⟩ | ⟨i, ts, main, q, -, -, -, rfl⟩ | ⟨s, -, rfl⟩ | ⟨room, s, -, rfl⟩ |
    ⟨n, room, -, rfl⟩ | ⟨room, -, rfl⟩ | ⟨room, -, rfl⟩ := database_of_moves h
  · exact (known_congr hrooms).2 hr
  · exact (known_cons (w := w) rfl).2 (.inr hr)
  · exact known_counting.2 hr
  · exact (known_congr rfl).2 hr
  · exact (known_cons (w := w) rfl).2 (.inr hr)
  · exact (known_congr rfl).2 hr
  · exact (known_congr rfl).2 hr

theorem Moves.length_le (h : Moves S w a t) : w.requests.length ≤ t.requests.length := by
  cases h with
  | begin user config => simp [World.onCreateRoom]
  | take hq hphase => simp [takeMark_eq, remember_eq, World.setPhase]
  | checkCached hq hphase hcache => simp [takeMark_eq, World.setPhase]
  | settle hanswer => simp [remember_eq]
  | restart => simp [World.restarted]
  | _ =>
      simp [World.setPhase, World.remember, World.addRoom, World.persistRoom, World.counting,
        World.leaveRoom, World.backRoom]

/-- **A request stays as it is, or gets on.** -/
theorem next_of_moves (h : Moves S w a t) (hq : w.requests[i]? = some q) :
    ∃ q', t.requests[i]? = some q' ∧ (q' = q ∨ Advance S w i q a q'.phase) := by
  have hi : i < w.requests.length := (List.getElem?_eq_some_iff.1 hq).1
  have hlt : i < t.requests.length := Nat.lt_of_lt_of_le hi h.length_le
  refine ⟨t.requests[i], List.getElem?_eq_getElem hlt, ?_⟩
  obtain hsame | ⟨-, -, -, hlength, -⟩ | ⟨p, hp, -, hadvance⟩ :=
    request_of_moves h (List.getElem?_eq_getElem hlt)
  · obtain rfl := Option.some.inj (hq.symm.trans hsame)
    exact .inl rfl
  · omega
  · obtain rfl := Option.some.inj (hq.symm.trans hp)
    exact .inr hadvance

/-- A request whose room is stored gets no further. -/
theorem Advance.not_created {phase : Phase} (h : Advance S w i q a phase) (main : Option RoomId) :
    q.phase ≠ .created main := by
  intro heq
  cases h with
  | take main' hp =>
      rcases hp with hp | ⟨hp, -⟩
      · cases heq.symm.trans hp
      · cases heq.symm.trans hp
  | reject hact hp => exact hp main heq
  | ask hp => cases heq.symm.trans hp
  | tell hp => cases heq.symm.trans hp
  | allow hp => cases heq.symm.trans hp
  | check hp => cases heq.symm.trans hp
  | creator hp => cases heq.symm.trans hp
  | persist hp => cases heq.symm.trans hp
  | refuse hp => cases heq.symm.trans hp

/-- Whatever is told, kept or looked for is a room that is there; a room of a request is there
only when the request has stored it. -/
structure Rooms (w : World) : Prop where
  held : ∀ r, w.cache = some r ∨ w.InFlight (some r) → w.Known r
  sought : ∀ (i : ℕ) (q : Request) (r : RoomId), w.requests[i]? = some q →
    q.phase = .finding r → w.Known r
  stored : ∀ i : ℕ, w.Known (.ofRequest i) → ∃ q main, w.requests[i]? = some q ∧
    q.phase = .created main

theorem rooms_init : Rooms World.init where
  held r hr := by
    rcases hr with hr | hr | ⟨i, q, hq, -⟩
    · cases hr
    · exact absurd hr List.not_mem_nil
    · simp [World.init] at hq
  sought i q r hq := by simp [World.init] at hq
  stored i hi := by
    obtain ⟨e, he, -⟩ := hi
    exact absurd he List.not_mem_nil

theorem finding_nextPhase {marked : Bool} {main : Option RoomId}
    (h : nextPhase S i q marked main = .finding r) : main = some r := by
  cases main with
  | none => cases h
  | some m =>
      simp only [nextPhase] at h
      split at h
      · rw [Phase.finding.inj h]
      · cases h

theorem finding_startPhase {config : Dict} : w.startPhase config ≠ .finding r := by
  unfold World.startPhase
  split
  · exact nofun
  · exact nofun
  · split <;> exact nofun

/-- **One step keeps it so.** -/
theorem Rooms.moves (hs : Rooms w) (h : Moves S w a t) : Rooms t := by
  refine ⟨fun r hr => ?_, fun i q' r hq' hfinding => ?_, fun i hi => ?_⟩
  · rcases hr with hr | hr
    · exact (hs.held r (cache_of_moves h hr)).moves h
    · rcases inFlight_of_moves h hr with hin | hanswer
      · exact (hs.held r (.inr hin)).moves h
      · exact (known_of_answer hanswer).moves h
  · obtain hsame | ⟨user, config, -, -, rfl⟩ | ⟨q, hq, -, hadvance⟩ := request_of_moves h hq'
    · exact (hs.sought i q' r hsame hfinding).moves h
    · exact absurd hfinding finding_startPhase
    · rw [hfinding] at hadvance
      generalize hphase : Phase.finding r = phase at hadvance
      cases hadvance with
      | take main hp =>
          obtain rfl := finding_nextPhase hphase.symm
          rcases hp with hp | ⟨-, hcache⟩
          · exact (hs.held r (.inr (.inr ⟨i, q, hq, by rw [hp]; rfl⟩))).moves h
          · exact (hs.held r (.inl hcache)).moves h
      | _ => cases hphase
  · obtain hold | ⟨j, ts, rfl, heq⟩ | hremote := known_of_moves h hi
    · obtain ⟨q, main, hq, hphase⟩ := hs.stored i hold
      obtain ⟨q', hq', rfl | hadvance⟩ := next_of_moves h hq
      · exact ⟨q', main, hq', hphase⟩
      · exact absurd hphase (hadvance.not_created main)
    · cases h with
      | @persist _ _ main q hq hphase =>
          obtain rfl := RoomId.ofRequest.inj heq
          have hnew : (w.setPhase i q (.created main)).requests[i]? =
              some { q with phase := .created main } := by rw [getElem?_setPhase hq, if_pos rfl]
          exact ⟨_, main, hnew, rfl⟩
    · cases hremote

/-! ### The marks -/

/-- The creation event of the request has not taken the mark of the user yet. -/
def Phase.early : Phase → Bool
  | .asking => true
  | .answered _ => true
  | .allowed => true
  | .checking => true
  | .told _ => true
  | .finding _ => false
  | .checked _ => false
  | .created _ => false
  | .rejected => false

/-- An early request of `u`, for a direct chat or not. -/
def World.Early (w : World) (i : ℕ) (u : UserId) (direct : Bool) : Prop :=
  ∃ q, w.requests[i]? = some q ∧ q.phase.early = true ∧ q.user = u ∧ isDmCreation q.config = direct

/-- The lookup of `on_create_room` has found a main space, so the request will be refused. -/
def Phase.refused : Phase → Bool
  | .answered main => main.isSome
  | _ => false

/-- A job is started for the room of the request. -/
def World.Launched (w : World) (i : ℕ) : Prop := ∃ job ∈ w.jobs, job.room = .ofRequest i

instance (w : World) (i : ℕ) : Decidable (w.Launched i) :=
  inferInstanceAs (Decidable (∃ job ∈ w.jobs, job.room = .ofRequest i))

/-- The main space whose creator is looked up. -/
def Phase.sought : Phase → Option RoomId
  | .finding main => some main
  | _ => none

/-- A direct request is the only early one of its user, and is not rejected early; no request is
rejected when a job is started for its room; and the main space has its current state when its
creator is looked up. -/
def Serial (w : World) : Act → Prop
  | .begin user config => (isDmCreation config = true → w.startPhase config ≠ .rejected) ∧
      (w.startPhase config ≠ .rejected → ∀ q ∈ w.requests, q.phase.early = true → q.user = user →
        isDmCreation q.config = false ∧ isDmCreation config = false)
  | .resume i => ∀ q ∈ w.requests[i]?, q.phase.refused = true → isDmCreation q.config = false
  | .reject i => ¬w.Launched i ∧
      ∀ q ∈ w.requests[i]?, q.phase.early = true → isDmCreation q.config = false
  | .creator i => ∀ q ∈ w.requests[i]?, ∀ main ∈ q.phase.sought, main ∉ w.left
  | .restart => ∀ job ∈ w.jobs, w.Known job.room
  | _ => True

instance (w : World) : (a : Act) → Decidable (Serial w a)
  | .begin user config => inferInstanceAs (Decidable
      ((isDmCreation config = true → w.startPhase config ≠ .rejected) ∧
        (w.startPhase config ≠ .rejected → ∀ q ∈ w.requests, q.phase.early = true →
          q.user = user → isDmCreation q.config = false ∧ isDmCreation config = false)))
  | .resume i => inferInstanceAs (Decidable (∀ q ∈ w.requests[i]?, q.phase.refused = true →
      isDmCreation q.config = false))
  | .reject i => inferInstanceAs (Decidable (¬w.Launched i ∧ ∀ q ∈ w.requests[i]?,
      q.phase.early = true → isDmCreation q.config = false))
  | .restart => inferInstanceAs (Decidable (∀ job ∈ w.jobs, w.Known job.room))
  | .query .. => .isTrue trivial
  | .check _ => .isTrue trivial
  | .creator i => inferInstanceAs (Decidable (∀ q ∈ w.requests[i]?, ∀ main ∈ q.phase.sought,
      main ∉ w.left))
  | .persist .. => .isTrue trivial
  | .count _ => .isTrue trivial
  | .child .. => .isTrue trivial
  | .join .. => .isTrue trivial
  | .leave _ => .isTrue trivial
  | .back _ => .isTrue trivial
  | .glance _ => .isTrue trivial
  | .settle _ => .isTrue trivial

/-- A user is marked while a direct request of theirs is early, and then no other one is. -/
structure Marks (w : World) : Prop where
  marked : ∀ u, u ∈ w.pendingDmSenders ↔ ∃ i, w.Early i u true
  alone : ∀ (i j : ℕ) (u : UserId) (direct : Bool), w.Early i u true → w.Early j u direct → i = j

theorem marks_init : Marks World.init where
  marked u := by simp [World.init, World.Early]
  alone i j u direct hi := by
    obtain ⟨q, hq, -⟩ := hi
    simp [World.init] at hq

/-- Marks that fit go on to fit when no early request comes, and no direct one goes. -/
theorem Marks.of_early (hs : Marks w)
    (hold : ∀ j u direct, t.Early j u direct → w.Early j u direct)
    (hstay : ∀ j u, w.Early j u true → t.Early j u true)
    (hpending : t.pendingDmSenders = w.pendingDmSenders) : Marks t where
  marked u := by
    rw [hpending, hs.marked u]
    exact exists_congr fun i => ⟨hstay i u, hold i u true⟩
  alone i j u direct hi hj := hs.alone i j u direct (hold i u true hi) (hold j u direct hj)

theorem early_congr (hrequests : t.requests = w.requests) {direct : Bool} :
    t.Early i u direct ↔ w.Early i u direct := by
  rw [World.Early, World.Early, hrequests]

theorem early_setPhase {phase : Phase} {direct : Bool} (hq : w.requests[i]? = some q) :
    (w.setPhase i q phase).Early j u direct ↔
      if i = j then phase.early = true ∧ q.user = u ∧ isDmCreation q.config = direct
      else w.Early j u direct := by
  rw [World.Early, getElem?_setPhase hq]
  split
  · simp
  · rfl

/-- A request that is early before when it is after, and if it is direct the other way too. -/
theorem Marks.setPhase {phase : Phase} (hs : Marks w) (hq : w.requests[i]? = some q)
    (hold : phase.early = true → q.phase.early = true)
    (hstay : q.phase.early = true → isDmCreation q.config = true → phase.early = true)
    (hrequests : t.requests = (w.setPhase i q phase).requests)
    (hpending : t.pendingDmSenders = w.pendingDmSenders) : Marks t := by
  refine hs.of_early (fun j u direct hj => ?_) (fun j u hj => ?_) hpending
  · rw [early_congr hrequests, early_setPhase hq] at hj
    split at hj
    · rename_i hij
      subst hij
      exact ⟨q, hq, hold hj.1, hj.2⟩
    · exact hj
  · rw [early_congr hrequests, early_setPhase hq]
    split
    · rename_i hij
      subst hij
      obtain ⟨p, hp, hearly, huser, hdirect⟩ := hj
      obtain rfl := Option.some.inj (hq.symm.trans hp)
      exact ⟨hstay hearly hdirect, huser, hdirect⟩
    · exact hj

/-- **The mark that an early request finds is its own.** -/
theorem Marks.mark_eq (hs : Marks w) (hq : w.requests[i]? = some q)
    (hearly : q.phase.early = true) :
    decide (q.user ∈ w.pendingDmSenders) = isDmCreation q.config := by
  have hi : w.Early i q.user (isDmCreation q.config) := ⟨q, hq, hearly, rfl, rfl⟩
  cases hdirect : isDmCreation q.config with
  | true =>
      rw [hdirect] at hi
      exact decide_eq_true ((hs.marked q.user).2 ⟨i, hi⟩)
  | false =>
      refine decide_eq_false fun hmem => ?_
      obtain ⟨j, hj⟩ := (hs.marked q.user).1 hmem
      obtain rfl := hs.alone j i q.user _ hj hi
      obtain ⟨p, hp, -, -, hp'⟩ := hj
      obtain rfl := Option.some.inj (hq.symm.trans hp)
      rw [hdirect] at hp'
      cases hp'

theorem not_early_nextPhase {marked : Bool} {main : Option RoomId} :
    (nextPhase S i q marked main).early = false := by
  cases main with
  | none => rfl
  | some m =>
      simp only [nextPhase]
      split <;> rfl

/-- The mark is taken away by the request that it was made for. -/
theorem Marks.takeMark {phase : Phase} (hs : Marks w) (hq : w.requests[i]? = some q)
    (hearly : q.phase.early = true) (hphase : phase.early = false)
    (hrequests : t.requests = (w.setPhase i q phase).requests)
    (hpending : t.pendingDmSenders = w.pendingDmSenders.filter fun u => u ≠ q.user) : Marks t := by
  have hi : w.Early i q.user (isDmCreation q.config) := ⟨q, hq, hearly, rfl, rfl⟩
  have hiff : ∀ j u direct, t.Early j u direct ↔ i ≠ j ∧ w.Early j u direct := by
    intro j u direct
    rw [early_congr hrequests, early_setPhase hq, hphase]
    split
    · rename_i hij
      simp [hij]
    · rename_i hij
      simp [hij]
  refine ⟨fun u => ?_, fun j k u direct hj hk => ?_⟩
  · have hmem : u ∈ t.pendingDmSenders ↔ u ∈ w.pendingDmSenders ∧ u ≠ q.user := by
      rw [hpending]
      simp
    rw [hmem, hs.marked u]
    constructor
    · rintro ⟨⟨j, hj⟩, hne⟩
      refine ⟨j, (hiff j u true).2 ⟨?_, hj⟩⟩
      rintro rfl
      obtain ⟨p, hp, -, rfl, -⟩ := hj
      exact hne (by rw [Option.some.inj (hq.symm.trans hp)])
    · rintro ⟨j, hj⟩
      obtain ⟨hij, hj⟩ := (hiff j u true).1 hj
      refine ⟨⟨j, hj⟩, ?_⟩
      rintro rfl
      exact hij (hs.alone j i q.user _ hj hi).symm
  · exact hs.alone j k u direct ((hiff j u true).1 hj).2 ((hiff k u direct).1 hk).2

theorem early_startPhase {config : Dict} :
    (w.startPhase config).early = true ↔ w.startPhase config ≠ .rejected := by
  unfold World.startPhase
  split
  · simp [Phase.early]
  · simp [Phase.early]
  · split <;> simp [Phase.early]

/-- A request begins when no early request of its user is in its way. -/
theorem Marks.onCreateRoom {user : UserId} {config : Dict} (hs : Marks w)
    (hserial : Serial w (.begin user config)) : Marks (w.onCreateRoom user config) := by
  obtain ⟨hstart, hfree⟩ := hserial
  have hiff : ∀ j u direct, (w.onCreateRoom user config).Early j u direct ↔
      w.Early j u direct ∨ (j = w.requests.length ∧ w.startPhase config ≠ .rejected ∧ user = u ∧
        isDmCreation config = direct) := by
    intro j u direct
    rw [World.Early, getElem?_onCreateRoom]
    split
    · rename_i hj
      have hnone : ¬w.Early j u direct := by
        rintro ⟨p, hp, -⟩
        have hlt := (List.getElem?_eq_some_iff.1 hp).1
        omega
      subst hj
      simp [hnone, early_startPhase]
    · rename_i hj
      simp [hj, World.Early]
  -- A direct request that was early already is not of the user.
  have hother : ∀ j u direct, w.Early j u direct → w.startPhase config ≠ .rejected → user = u →
      direct = false ∧ isDmCreation config = false := by
    rintro j u direct ⟨p, hp, hearly, hu, rfl⟩ hne rfl
    exact hfree hne p (List.mem_of_getElem? hp) hearly hu
  refine ⟨fun u => ?_, fun i j u direct hi hj => ?_⟩
  · have hmem : u ∈ (w.onCreateRoom user config).pendingDmSenders ↔
        (isDmCreation config = true ∧ u = user) ∨ u ∈ w.pendingDmSenders := by
      show u ∈ (if isDmCreation config = true then user :: w.pendingDmSenders
        else w.pendingDmSenders) ↔ _
      split
      · rename_i hdirect
        simp [hdirect]
      · rename_i hdirect
        simp [hdirect]
    rw [hmem, hs.marked u]
    constructor
    · rintro (⟨hdirect, rfl⟩ | ⟨i, hi⟩)
      · exact ⟨_, (hiff _ _ _).2 (.inr ⟨rfl, hstart hdirect, rfl, hdirect⟩)⟩
      · exact ⟨i, (hiff _ _ _).2 (.inl hi)⟩
    · rintro ⟨i, hi⟩
      rcases (hiff _ _ _).1 hi with hi | ⟨-, -, rfl, hdirect⟩
      · exact .inr ⟨i, hi⟩
      · exact .inl ⟨hdirect, rfl⟩
  · rcases (hiff _ _ _).1 hi with hi | ⟨rfl, hne, rfl, hdirect⟩
    · rcases (hiff _ _ _).1 hj with hj | ⟨-, hne, rfl, -⟩
      · exact hs.alone i j u direct hi hj
      · cases (hother i user true hi hne rfl).1
    · rcases (hiff _ _ _).1 hj with hj | ⟨rfl, -, -, -⟩
      · rw [(hother j user direct hj hne rfl).2] at hdirect
        cases hdirect
      · rfl

theorem marks_restarted : Marks w.restarted := by
  have hnone : ∀ j u direct, ¬w.restarted.Early j u direct := by
    rintro j u direct ⟨q', hq', hearly, -⟩
    rw [getElem?_restarted] at hq'
    obtain ⟨q, -, rfl⟩ := Option.map_eq_some_iff.1 hq'
    unfold Request.dropped at hearly
    split at hearly
    · rename_i hphase
      rw [hphase] at hearly
      cases hearly
    · cases hearly
  refine ⟨fun u => ?_, fun i j u direct hi => absurd hi (hnone i u true)⟩
  constructor
  · exact fun hmem => absurd hmem List.not_mem_nil
  · rintro ⟨i, hi⟩
    exact absurd hi (hnone i u true)

/-- **One step keeps the marks fitting.** -/
theorem Marks.moves (hs : Marks w) (h : Moves S w a t) (hserial : Serial w a) : Marks t := by
  have hsame : ∀ {t : World}, t.requests = w.requests →
      t.pendingDmSenders = w.pendingDmSenders → Marks t := fun hrequests hpending =>
    hs.of_early (fun j u direct => (early_congr hrequests).1)
      (fun j u => (early_congr hrequests).2) hpending
  cases h with
  | begin user config => exact hs.onCreateRoom hserial
  | ask hq hphase hanswer =>
      exact hs.setPhase hq (by simp [hphase, Phase.early]) (fun _ _ => rfl) rfl rfl
  | tell hq hphase hanswer =>
      exact hs.setPhase hq (by simp [hphase, Phase.early]) (fun _ _ => rfl) rfl rfl
  | refuse hq hphase =>
      refine hs.setPhase hq (by simp [Phase.early]) (fun _ hdirect => ?_) rfl rfl
      rw [hserial _ hq (by rw [hphase]; rfl)] at hdirect
      cases hdirect
  | allow hq hphase =>
      exact hs.setPhase hq (by simp [hphase, Phase.early]) (fun _ _ => rfl) rfl rfl
  | take hq hphase =>
      rw [takeMark_eq, remember_eq]
      exact hs.takeMark hq (by rw [hphase]; rfl) not_early_nextPhase rfl rfl
  | reject hq hphase =>
      refine hs.setPhase hq (by simp [Phase.early]) (fun hearly hdirect => ?_) rfl rfl
      rw [hserial.2 _ hq hearly] at hdirect
      cases hdirect
  | check hq hphase hcache =>
      exact hs.setPhase hq (by simp [hphase, Phase.early]) (fun _ _ => rfl) rfl rfl
  | checkCached hq hphase hcache =>
      rw [takeMark_eq]
      exact hs.takeMark hq (by rw [hphase]; rfl) not_early_nextPhase rfl rfl
  | creator hq hphase =>
      exact hs.setPhase hq (by simp [Phase.early]) (by simp [hphase, Phase.early]) rfl rfl
  | persist hq hphase =>
      exact hs.setPhase hq (by simp [Phase.early]) (by simp [hphase, Phase.early]) rfl rfl
  | count r => exact hsame rfl rfl
  | child room r => exact hsame rfl rfl
  | join hnew => exact hsame rfl rfl
  | leave hthere => exact hsame rfl rfl
  | back hleft => exact hsame rfl rfl
  | glance hanswer => exact hsame rfl rfl
  | settle hanswer =>
      rw [remember_eq]
      exact hsame rfl rfl
  | restart => exact marks_restarted

/-! ### The jobs -/

/-- The room of the request is to be added to the main space that `check_event_allowed` was told
of. -/
def Wanted (S : Server) (q : Request) (main : Option RoomId) : Prop :=
  S.autoAddNew = true ∧ main.isSome = true ∧ S.isMine q.user = true ∧
    isSpaceConfig q.config ≠ some true ∧ isDmCreation q.config = false

instance (S : Server) (q : Request) (main : Option RoomId) : Decidable (Wanted S q main) :=
  inferInstanceAs (Decidable (S.autoAddNew = true ∧ main.isSome = true ∧ S.isMine q.user = true ∧
    isSpaceConfig q.config ≠ some true ∧ isDmCreation q.config = false))

/-- Whether a job is started for a request, at each point of its way. -/
def Fits (S : Server) (q : Request) (launched : Prop) : Phase → Prop
  | .finding m => ¬launched ∧ Wanted S q (some m)
  | .checked main => launched ↔ Wanted S q main
  | .created main => launched ↔ Wanted S q main
  | _ => ¬launched

/-- **Only the step that finds the creator of the main space starts a job.** -/
theorem launched_of_moves (hrooms : Rooms w) (hserial : Serial w a) (h : Moves S w a t) :
    t.Launched j ↔ w.Launched j ∨ a = .creator j := by
  have hsame : t.jobs = w.jobs → (∀ i, a ≠ .creator i) →
      (t.Launched j ↔ w.Launched j ∨ a = .creator j) := by
    intro hjobs hact
    rw [World.Launched, World.Launched, hjobs, or_iff_left (hact j)]
  cases h with
  | @creator i m q hq hphase =>
      obtain ⟨e, he, heq⟩ := hrooms.sought i q m hq hphase
      have hfind : (w.rooms.find? fun e => e.1 = m).isSome = true :=
        List.find?_isSome.2 ⟨e, he, decide_eq_true heq⟩
      obtain ⟨f, hf⟩ := Option.isSome_iff_exists.1 hfind
      have hcreator : w.roomCreator m = some f.2.creator := by
        rw [World.roomCreator, if_neg (hserial q hq m (by rw [hphase]; rfl)), hf]
        rfl
      have hjobs : (w.addRoom i q m).jobs = ⟨.ofRequest i, m, f.2.creator⟩ :: w.jobs := by
        unfold World.addRoom
        simp only [hcreator]
      simp only [World.Launched, hjobs, List.exists_mem_cons_iff, RoomId.ofRequest.injEq,
        Act.creator.injEq]
      exact or_comm
  | take hq hphase => exact hsame (by rw [takeMark_eq, remember_eq]; rfl) (by simp)
  | checkCached hq hphase hcache => exact hsame (by rw [takeMark_eq]; rfl) (by simp)
  | settle hanswer => exact hsame (by rw [remember_eq]) (by simp)
  | _ => exact hsame rfl (by simp)

/-- Jobs are started for the requests that they fit, and for no request to come. -/
structure Jobs (S : Server) (w : World) : Prop where
  fits : ∀ (i : ℕ) (q : Request), w.requests[i]? = some q → Fits S q (w.Launched i) q.phase
  fresh : ∀ i : ℕ, w.requests.length ≤ i → ¬w.Launched i

theorem jobs_init : Jobs S World.init where
  fits i q hq := by simp [World.init] at hq
  fresh i _ hi := by
    obtain ⟨job, hjob, -⟩ := hi
    exact absurd hjob List.not_mem_nil

/-- No job is started for a request whose creation event is not checked yet. -/
theorem Jobs.not_launched (hs : Jobs S w) (hq : w.requests[i]? = some q)
    (hphase : q.phase.early = true) : ¬w.Launched i := by
  have hfits := hs.fits i q hq
  generalize q.phase = phase at hphase hfits
  cases phase with
  | finding m => cases hphase
  | checked main => cases hphase
  | created main => cases hphase
  | _ => exact hfits

/-- What `check_event_allowed` decides when the mark is the one of the request. -/
theorem fits_nextPhase {main : Option RoomId} {launched : Prop} (hnot : ¬launched)
    (hne : ∀ m, main = some m → RoomId.ofRequest i ≠ m) :
    Fits S q launched (nextPhase S i q (isDmCreation q.config) main) := by
  cases main with
  | none =>
      show launched ↔ Wanted S q none
      simp [hnot, Wanted]
  | some m =>
      simp only [nextPhase]
      split
      · rename_i hcand
        refine ⟨hnot, ?_⟩
        simpa [Wanted, isAutoAddCandidate, hne m rfl, and_assoc] using hcand
      · rename_i hcand
        show launched ↔ Wanted S q (some m)
        refine iff_of_false hnot fun hwanted => hcand ?_
        obtain ⟨hauto, -, hmine, hspace, hdirect⟩ := hwanted
        simp [isAutoAddCandidate, hauto, hmine, hspace, hdirect, hne m rfl]

theorem fits_startPhase {config : Dict} {launched : Prop} (hnot : ¬launched) :
    Fits S q launched (w.startPhase config) := by
  unfold World.startPhase
  split
  · exact hnot
  · exact hnot
  · split <;> exact hnot

/-- A room that is there is not the one of a request that has not stored it. -/
theorem Rooms.ofRequest_ne (hrooms : Rooms w) (hq : w.requests[i]? = some q)
    (hphase : ∀ main, q.phase ≠ .created main) {m : RoomId} (hm : w.Known m) :
    RoomId.ofRequest i ≠ m := by
  rintro rfl
  obtain ⟨p, main, hp, hcreated⟩ := hrooms.stored i hm
  obtain rfl := Option.some.inj (hq.symm.trans hp)
  exact hphase main hcreated

/-- No job is started for a request that stops. -/
theorem Rooms.not_launched (hrooms : Rooms w) (hserial : Serial w a)
    (hq : w.requests[i]? = some q) (hact : a = .reject i ∨ a = .restart)
    (hphase : ∀ main, q.phase ≠ .created main) : ¬w.Launched i := by
  rcases hact with rfl | rfl
  · exact hserial.1
  · rintro ⟨job, hjob, heq⟩
    exact hrooms.ofRequest_ne hq hphase (hserial job hjob) heq.symm

/-- What a request gets to fits what it was at. -/
theorem Jobs.advance (hs : Jobs S w) (hrooms : Rooms w) (hmarks : Marks w) (hserial : Serial w a)
    (hq : w.requests[i]? = some q) {phase : Phase} (hadvance : Advance S w i q a phase)
    (hact : a ≠ .creator i) : Fits S q (w.Launched i) phase := by
  have hfits := hs.fits i q hq
  have hcreated := hadvance.not_created
  cases hadvance with
  | ask hp => exact hs.not_launched hq (by rw [hp]; rfl)
  | tell hp => exact hs.not_launched hq (by rw [hp]; rfl)
  | allow hp => exact hs.not_launched hq (by rw [hp]; rfl)
  | check hp => exact hs.not_launched hq (by rw [hp]; rfl)
  | refuse hp => exact hs.not_launched hq (by rw [hp]; rfl)
  | take main hp =>
      have hearly : q.phase.early = true := by
        rcases hp with hp | ⟨hp, -⟩
        · rw [hp]
          rfl
        · rw [hp]
          rfl
      rw [hmarks.mark_eq hq hearly]
      refine fits_nextPhase (hs.not_launched hq hearly) ?_
      rintro m rfl
      refine hrooms.ofRequest_ne hq hcreated (hrooms.held m ?_)
      rcases hp with hp | ⟨-, hcache⟩
      · exact .inr (.inr ⟨i, q, hq, by rw [hp]; rfl⟩)
      · exact .inl hcache
  | creator hp => exact absurd rfl hact
  | persist hp =>
      rw [hp] at hfits
      exact hfits
  | reject hstop hp => exact hrooms.not_launched hserial hq hstop hp

/-- **One step keeps the jobs fitting.** -/
theorem Jobs.moves (hs : Jobs S w) (hrooms : Rooms w) (hmarks : Marks w) (h : Moves S w a t)
    (hserial : Serial w a) : Jobs S t := by
  refine ⟨fun i q' hq' => ?_, fun i hi hlaunched => ?_⟩
  · by_cases hact : a = .creator i
    · have hlaunched : t.Launched i := (launched_of_moves hrooms hserial h).2 (.inr hact)
      subst hact
      cases h with
      | @creator _ m q hq hphase =>
          have hset : (w.setPhase i q (.checked (some m))).requests[i]? = some q' := hq'
          rw [getElem?_setPhase hq, if_pos rfl] at hset
          obtain rfl := Option.some.inj hset
          have hfits := hs.fits i q hq
          rw [hphase] at hfits
          exact iff_of_true hlaunched hfits.2
    · have hiff : t.Launched i ↔ w.Launched i := by
        rw [launched_of_moves hrooms hserial h, or_iff_left hact]
      rw [propext hiff]
      obtain hsame | ⟨user, config, -, rfl, rfl⟩ | ⟨q, hq, heq, hadvance⟩ := request_of_moves h hq'
      · exact hs.fits i q' hsame
      · exact fits_startPhase (hs.fresh _ (Nat.le_refl _))
      · have hfits := hs.advance hrooms hmarks hserial hq hadvance hact
        rw [heq]
        exact hfits
  · rcases (launched_of_moves hrooms hserial h).1 hlaunched with hold | rfl
    · exact hs.fresh i (Nat.le_trans h.length_le hi) hold
    · cases h with
      | creator hq hphase =>
          have hlt := (List.getElem?_eq_some_iff.1 hq).1
          have hle := Moves.length_le (.creator (S := S) hq hphase)
          omega

/-! ### Runs -/

/-- The rooms, the marks and the jobs are as they should be. -/
structure Fair (S : Server) (w : World) : Prop where
  rooms : Rooms w
  marks : Marks w
  jobs : Jobs S w

theorem Fair.moves (hs : Fair S w) (h : Moves S w a t) (hserial : Serial w a) : Fair S t :=
  ⟨hs.rooms.moves h, hs.marks.moves h hserial, hs.jobs.moves hs.rooms hs.marks h hserial⟩

/-- **A room is added exactly when it should be.**  In every run in which direct requests are
alone and not rejected early, and no request is rejected when its room is being added: the room
of a request that has stored it is added to the main space exactly when the user is local, the
room is no space, and the request was not direct; and no room of a rejected request is added. -/
theorem direct_marks_exact {as : List Act} (h : Exec (step S) Serial World.init as w)
    (hq : w.requests[i]? = some q) :
    (∀ main, q.phase = .created main → (w.Launched i ↔ Wanted S q main)) ∧
      (q.phase = .rejected → ¬w.Launched i) := by
  have hs : Fair S w := h.invariant ⟨rooms_init, marks_init, jobs_init⟩
    fun _ _ _ hs hserial hstep => hs.moves (moves_of_step hstep) hserial
  have hfits := hs.jobs.fits i q hq
  refine ⟨fun main hphase => ?_, fun hphase => ?_⟩
  · rw [hphase] at hfits
    exact hfits
  · rw [hphase] at hfits
    exact hfits

/-- A request for a direct chat. -/
def directConfig : Dict := [("is_direct", .bool true)]

/-- Bob asks for a direct chat, and Alice for a group meanwhile. -/
def sideBySide : List Act :=
  [.begin "@bob:liza.ru" directConfig, .begin "@alice:liza.ru" [], .check 2,
    .query 2 (some (.ofRequest 0)), .resume 2, .check 1, .creator 2, .persist 2 5, .persist 1 6]

/-- The group is added to the main space, and the direct chat is not. -/
theorem direct_marks_exact_side_by_side :
    ∃ w, Exec (step localServer) Serial World.init (makeMain ++ sideBySide) w ∧
      w.Launched 2 ∧ ¬w.Launched 1 := by
  obtain ⟨w, h, hdirect, hgroup⟩ := exists_exec_of_runs (f := step localServer) (C := Serial)
    (s := World.init) (l := makeMain ++ sideBySide)
    (p := fun w => w.requests[1]? = some
        ⟨"@bob:liza.ru", directConfig, .created (some (.ofRequest 0))⟩ ∧
      w.requests[2]? = some ⟨"@alice:liza.ru", [], .created (some (.ofRequest 0))⟩)
    (by decide +kernel)
  refine ⟨w, h, ?_, ?_⟩
  · exact ((direct_marks_exact h hgroup).1 _ rfl).2 (by decide +kernel)
  · exact fun hlaunched =>
      absurd (((direct_marks_exact h hdirect).1 _ rfl).1 hlaunched) (by decide +kernel)

/-- Bob's direct request is rejected, and then he creates a group. -/
def rejectedDirect : List Act :=
  [.begin "@bob:liza.ru" directConfig, .reject 1, .begin "@bob:liza.ru" [], .check 2,
    .query 2 (some (.ofRequest 0)), .resume 2, .persist 2 5]

/-- Bob creates a direct chat and a group at the same time. -/
def bothAtOnce : List Act :=
  [.begin "@bob:liza.ru" directConfig, .begin "@bob:liza.ru" [], .check 2,
    .query 2 (some (.ofRequest 0)), .resume 2, .check 1, .creator 1, .persist 1 5, .persist 2 6]

/-- The group after the rejected direct request is not added; of two requests at once the direct
chat is added, and the group is not. -/
theorem direct_marks_confused :
    (∃ w, Exec (step localServer) (fun _ _ => True) World.init (makeMain ++ rejectedDirect) w ∧
      w.requests[2]? = some ⟨"@bob:liza.ru", [], .created (some (.ofRequest 0))⟩ ∧
      Wanted localServer ⟨"@bob:liza.ru", [], .created (some (.ofRequest 0))⟩
        (some (.ofRequest 0)) ∧ ¬w.Launched 2) ∧
    ∃ w, Exec (step localServer) (fun _ _ => True) World.init (makeMain ++ bothAtOnce) w ∧
      w.requests[1]? = some ⟨"@bob:liza.ru", directConfig, .created (some (.ofRequest 0))⟩ ∧
      w.requests[2]? = some ⟨"@bob:liza.ru", [], .created (some (.ofRequest 0))⟩ ∧
      w.Launched 1 ∧ ¬w.Launched 2 :=
  ⟨exists_exec_of_runs (by decide +kernel), exists_exec_of_runs (by decide +kernel)⟩

end SpaceGuard
end Liza
