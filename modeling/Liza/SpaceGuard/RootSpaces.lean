/-
# At most one root space

`on_create_room` lets a request for a root space through when there is no main space, and its
room is stored many awaits later.  So the requests for spaces that were let through and have not
ended yet (`Phase.passed`) matter: while there is one, no second request may be let through.  The
lookup reads `room_stats_state`, which a new space enters later still, and a space whose request
names a parent is not looked up at all, though it is a root space until its parent gets the
`m.space.child` event.  And a space is a root space again when the last room with an
`m.space.child` event for it is left.  Nothing in the module orders the requests, or sees to the
rooms that are left.  In a run where each of these is so by itself (`NoRace`) there is at most one
root space in every state.
-/

import Liza.SpaceGuard.MainSpace

set_option autoImplicit false

namespace Liza
namespace SpaceGuard

open Lib

variable {S : Server} {w t : World} {a : Act} {r r' : RoomId} {i j : ℕ}

/-! ### Root spaces, and requests that may make one -/

/-- `r` is a space of this server, and no room has an `m.space.child` event for it. -/
def World.Root (w : World) (r : RoomId) : Prop :=
  r.isLocal = true ∧ (∃ e ∈ w.rooms, e.1 = r ∧ e.2.isSpace = true) ∧ w.NoParent r

instance (w : World) (r : RoomId) : Decidable (w.Root r) :=
  inferInstanceAs (Decidable (r.isLocal = true ∧ (∃ e ∈ w.rooms, e.1 = r ∧ e.2.isSpace = true) ∧
    w.NoParent r))

/-- There is no root space. -/
def World.NoRoot (w : World) : Prop :=
  ∀ e ∈ w.rooms, e.1.isLocal = true → e.2.isSpace = true → ¬w.NoParent e.1

/-- Every root space is in `room_stats_state` and has its current state. -/
def World.RootsCounted (w : World) : Prop :=
  ∀ e ∈ w.rooms, e.1.isLocal = true → e.2.isSpace = true → w.NoParent e.1 →
    e.2.counted = true ∧ e.1 ∉ w.left

/-- No space is a root space only when the room is left. -/
def World.KeepsParents (w : World) (room : RoomId) : Prop :=
  ∀ e ∈ w.rooms, e.1.isLocal = true → e.2.isSpace = true → (w.leaveRoom room).NoParent e.1 →
    w.NoParent e.1

/-- `on_create_room` lets the request through, or has done so, and its room is not there yet. -/
def Phase.passed : Phase → Bool
  | .asking => false
  | .answered main => main.isNone
  | .allowed => true
  | .checking => true
  | .told _ => true
  | .finding _ => true
  | .checked _ => true
  | .created _ => false
  | .rejected => false

/-- The request is for a space, and was let through. -/
def Request.Passed (q : Request) : Prop :=
  isSpaceConfig q.config = some true ∧ q.phase.passed = true

/-- No request for a space is let through. -/
def World.NonePassed (w : World) : Prop := ∀ q ∈ w.requests, ¬q.Passed

/-- A request for a space with a parent begins, and the lookup for a root space finds nothing,
only when no other request for a space is let through and no root space is out of sight; and no room
is left that has the last `m.space.child` event for a space. -/
def NoRace (w : World) : Act → Prop
  | .begin _ config => isSpaceConfig config = some true → isRootSpaceCreation config = some false →
      w.NonePassed ∧ w.NoRoot
  | .query i none => ∀ q ∈ w.requests[i]?, q.phase = .asking → w.NonePassed ∧ w.RootsCounted
  | .leave room => w.KeepsParents room
  | _ => True

instance (w : World) : Decidable w.NoRoot :=
  inferInstanceAs (Decidable (∀ e ∈ w.rooms, e.1.isLocal = true → e.2.isSpace = true →
    ¬w.NoParent e.1))

instance (w : World) : Decidable w.RootsCounted :=
  inferInstanceAs (Decidable (∀ e ∈ w.rooms, e.1.isLocal = true → e.2.isSpace = true →
    w.NoParent e.1 → e.2.counted = true ∧ e.1 ∉ w.left))

instance (w : World) (room : RoomId) : Decidable (w.KeepsParents room) :=
  inferInstanceAs (Decidable (∀ e ∈ w.rooms, e.1.isLocal = true → e.2.isSpace = true →
    (w.leaveRoom room).NoParent e.1 → w.NoParent e.1))

instance (q : Request) : Decidable q.Passed :=
  inferInstanceAs (Decidable (isSpaceConfig q.config = some true ∧ q.phase.passed = true))

instance (w : World) : Decidable w.NonePassed :=
  inferInstanceAs (Decidable (∀ q ∈ w.requests, ¬q.Passed))

instance (w : World) : (a : Act) → Decidable (NoRace w a)
  | .begin _ config => inferInstanceAs (Decidable (isSpaceConfig config = some true →
      isRootSpaceCreation config = some false → w.NonePassed ∧ w.NoRoot))
  | .query i none => inferInstanceAs (Decidable (∀ q ∈ w.requests[i]?, q.phase = .asking →
      w.NonePassed ∧ w.RootsCounted))
  | .query _ (some _) => .isTrue trivial
  | .resume _ => .isTrue trivial
  | .reject _ => .isTrue trivial
  | .check _ => .isTrue trivial
  | .creator _ => .isTrue trivial
  | .persist .. => .isTrue trivial
  | .count _ => .isTrue trivial
  | .child .. => .isTrue trivial
  | .join .. => .isTrue trivial
  | .leave room => inferInstanceAs (Decidable (w.KeepsParents room))
  | .back _ => .isTrue trivial
  | .glance _ => .isTrue trivial
  | .settle _ => .isTrue trivial
  | .restart => .isTrue trivial

theorem World.NoRoot.not_root (h : w.NoRoot) : ¬w.Root r := by
  rintro ⟨hlocal, ⟨e, he, rfl, hspace⟩, hparent⟩
  exact h e he hlocal hspace hparent

/-- **When every root space is counted, a lookup that finds nothing means that there is none.** -/
theorem World.RootsCounted.not_root (h : w.RootsCounted) (hanswer : w.Answer none) :
    ¬w.Root r := by
  rintro ⟨hlocal, ⟨e, he, rfl, hspace⟩, hparent⟩
  obtain ⟨hcounted, hleft⟩ := h e he hlocal hspace hparent
  have hrow : e ∈ w.rows := mem_rows.2 ⟨he, hspace, hcounted, hleft, hparent⟩
  rw [show w.rows = [] from hanswer] at hrow
  exact absurd hrow List.not_mem_nil

/-! ### Steps -/

theorem root_congr (hrooms : t.rooms = w.rooms) (hchildren : t.children = w.children) :
    t.Root r ↔ w.Root r := by
  unfold World.Root World.NoParent
  rw [hrooms, hchildren]

theorem root_counting {s : RoomId} (h : (w.counting s).Root r) : w.Root r := by
  obtain ⟨hlocal, ⟨e, he, rfl, hspace⟩, hparent⟩ := h
  obtain ⟨f, hf, rfl⟩ := List.mem_map.1 he
  split at hspace
  · rename_i hs
    rw [if_pos hs] at hlocal hparent ⊢
    exact ⟨hlocal, ⟨f, hf, rfl, hspace⟩, hparent⟩
  · rename_i hs
    rw [if_neg hs] at hlocal hparent ⊢
    exact ⟨hlocal, ⟨f, hf, rfl, hspace⟩, hparent⟩

/-- **A new root space is the room of a request that was let through.** -/
theorem root_of_moves (h : Moves S w a t) (hrace : NoRace w a) (hr : t.Root r) :
    w.Root r ∨ ∃ i q main ts, w.requests[i]? = some q ∧ q.Passed ∧
      t = w.persistRoom i q main ts ∧ r = .ofRequest i := by
  obtain ⟨hrooms, hchildren, -⟩ | ⟨i, ts, main, q, -, hq, hphase, rfl⟩ | ⟨s, -, rfl⟩ |
    ⟨room, s, -, rfl⟩ | ⟨n, room, -, rfl⟩ | ⟨room, rfl, rfl⟩ | ⟨room, -, rfl⟩ :=
    database_of_moves h
  · exact .inl ((root_congr hrooms hchildren).1 hr)
  · obtain ⟨hlocal, ⟨e, he, rfl, hspace⟩, hparent⟩ := hr
    rcases List.mem_cons.1 he with rfl | he
    · have hpassed : q.Passed := ⟨of_decide_eq_true hspace, by rw [hphase]; rfl⟩
      exact .inr ⟨i, q, main, ts, hq, hpassed, rfl, rfl⟩
    · exact .inl ⟨hlocal, ⟨e, he, rfl, hspace⟩, hparent⟩
  · exact .inl (root_counting hr)
  · obtain ⟨hlocal, hroom, hparent⟩ := hr
    exact .inl ⟨hlocal, hroom, fun c hc => hparent c (List.mem_cons_of_mem _ hc)⟩
  · -- A room of another server is not local.
    obtain ⟨hlocal, ⟨e, he, rfl, hspace⟩, hparent⟩ := hr
    rcases List.mem_cons.1 he with rfl | he
    · cases hlocal
    · exact .inl ⟨hlocal, ⟨e, he, rfl, hspace⟩, hparent⟩
  · obtain ⟨hlocal, ⟨e, he, rfl, hspace⟩, hparent⟩ := hr
    exact .inl ⟨hlocal, ⟨e, he, rfl, hspace⟩, hrace e he hlocal hspace hparent⟩
  · exact .inl ((root_congr rfl rfl).1 hr)

/-- A request that begins is let through at once only when it is not for a root space. -/
theorem not_root_of_passed_start {config : Dict} (h : (w.startPhase config).passed = true) :
    isRootSpaceCreation config = some false := by
  unfold World.startPhase at h
  split at h
  · cases h
  · assumption
  · split at h <;> cases h

/-- The request that a step may let through. -/
def World.turn (w : World) : Act → ℕ
  | .begin .. => w.requests.length
  | .query i _ => i
  | _ => 0

/-- **A request for a space was let through before, or is let through now**: no other is, and
there is no root space. -/
theorem passed_of_moves (h : Moves S w a t) (hrace : NoRace w a) {q' : Request}
    (hq' : t.requests[j]? = some q') (hpassed : q'.Passed) :
    (∃ q, w.requests[j]? = some q ∧ q.Passed) ∨
      (j = w.turn a ∧ w.NonePassed ∧ ∀ r, ¬w.Root r) := by
  obtain hsame | ⟨user, config, rfl, hj, rfl⟩ | ⟨q, hq, heq, hadvance⟩ := request_of_moves h hq'
  · exact .inl ⟨q', hsame, hpassed⟩
  · obtain ⟨hspace, hstart⟩ := hpassed
    obtain ⟨hnone, hroot⟩ := hrace hspace (not_root_of_passed_start hstart)
    exact .inr ⟨hj, hnone, fun r => hroot.not_root⟩
  · have hspace : isSpaceConfig q.config = some true := by
      have := hpassed.1
      rwa [heq] at this
    have hphase := hpassed.2
    generalize q'.phase = phase at hadvance hphase
    have hold : q.phase.passed = true → (∃ q, w.requests[j]? = some q ∧ q.Passed) ∨
        (j = w.turn a ∧ w.NonePassed ∧ ∀ r, ¬w.Root r) := fun hp => .inl ⟨q, hq, hspace, hp⟩
    cases hadvance with
    | @ask answer hasking hanswer =>
        cases answer with
        | none =>
            obtain ⟨hnone, hcounted⟩ := hrace q hq hasking
            exact .inr ⟨rfl, hnone, fun r => hcounted.not_root hanswer⟩
        | some m => cases hphase
    | tell hp hanswer => exact hold (by rw [hp]; rfl)
    | allow hp => exact hold (by rw [hp]; rfl)
    | check hp => exact hold (by rw [hp]; rfl)
    | take main hp =>
        rcases hp with hp | ⟨hp, -⟩
        · exact hold (by rw [hp]; rfl)
        · exact hold (by rw [hp]; rfl)
    | creator hp => exact hold (by rw [hp]; rfl)
    | persist hp => cases hphase
    | refuse hp => cases hphase
    | reject hact hp => cases hphase

/-! ### The invariant -/

/-- There is one root space at most; one request for a space is let through at most, and none
when there is a root space. -/
structure OneRoot (w : World) : Prop where
  one : ∀ r r', w.Root r → w.Root r' → r = r'
  alone : ∀ (i j : ℕ) (q q' : Request), w.requests[i]? = some q → q.Passed →
    w.requests[j]? = some q' → q'.Passed → i = j
  clear : ∀ (i : ℕ) (q : Request), w.requests[i]? = some q → q.Passed → ∀ r, ¬w.Root r

theorem oneRoot_init : OneRoot World.init where
  one r r' hr := by
    obtain ⟨-, ⟨e, he, -⟩, -⟩ := hr
    exact absurd he List.not_mem_nil
  alone i j q q' hq := by simp [World.init] at hq
  clear i q hq := by simp [World.init] at hq

/-- The request whose room is stored is not under way any more. -/
theorem not_passed_persisted {q q' : Request} {main : Option RoomId} {ts : ℕ}
    (hq : w.requests[i]? = some q) (hq' : (w.persistRoom i q main ts).requests[i]? = some q') :
    ¬q'.Passed := by
  have hset : (w.setPhase i q (.created main)).requests[i]? = some q' := hq'
  rw [getElem?_setPhase hq, if_pos rfl] at hset
  obtain rfl := Option.some.inj hset
  rintro ⟨-, hphase⟩
  cases hphase

/-- **One step keeps it so.** -/
theorem OneRoot.moves (hs : OneRoot w) (h : Moves S w a t) (hrace : NoRace w a) : OneRoot t := by
  have hnone : ∀ {i : ℕ} {q : Request}, w.requests[i]? = some q → q.Passed → ¬w.NonePassed :=
    fun hq hpassed hn => hn _ (List.mem_of_getElem? hq) hpassed
  refine ⟨fun r r' hr hr' => ?_, fun i j q q' hq hp hq' hp' => ?_, fun i q hq hp r hr => ?_⟩
  · obtain hr | ⟨i, q, main, ts, hq, hp, ht, rfl⟩ := root_of_moves h hrace hr
    · obtain hr' | ⟨i, q, main, ts, hq, hp, ht, rfl⟩ := root_of_moves h hrace hr'
      · exact hs.one r r' hr hr'
      · exact absurd hr (hs.clear i q hq hp r)
    · obtain hr' | ⟨j, q', main', ts', hq', hp', ht', rfl⟩ := root_of_moves h hrace hr'
      · exact absurd hr' (hs.clear i q hq hp r')
      · rw [hs.alone i j q q' hq hp hq' hp']
  · obtain ⟨p, hwp, hpp⟩ | ⟨hi, hn, -⟩ := passed_of_moves h hrace hq hp
    · obtain ⟨p', hwp', hpp'⟩ | ⟨-, hn, -⟩ := passed_of_moves h hrace hq' hp'
      · exact hs.alone i j p p' hwp hpp hwp' hpp'
      · exact absurd hn (hnone hwp hpp)
    · obtain ⟨p', hwp', hpp'⟩ | ⟨hj, -, -⟩ := passed_of_moves h hrace hq' hp'
      · exact absurd hn (hnone hwp' hpp')
      · rw [hi, hj]
  · obtain hr | ⟨k, p, main, ts, hwp, hpp, rfl, rfl⟩ := root_of_moves h hrace hr
    · obtain ⟨p, hwp, hpp⟩ | ⟨-, -, hroot⟩ := passed_of_moves h hrace hq hp
      · exact hs.clear i p hwp hpp r hr
      · exact hroot r hr
    · obtain ⟨p', hwp', hpp'⟩ | ⟨-, hn, -⟩ := passed_of_moves h hrace hq hp
      · obtain rfl := hs.alone i k p' p hwp' hpp' hwp hpp
        exact not_passed_persisted hwp hq hp
      · exact hnone hwp hpp hn

/-! ### Runs -/

/-- **At most one root space.**  In every run in which the requests for spaces do not race, every
state reached has at most one root space of this server. -/
theorem one_root_space {as : List Act} (h : Exec (step S) NoRace World.init as w)
    (hr : w.Root r) (hr' : w.Root r') : r = r' := by
  have hs : OneRoot w := h.invariant oneRoot_init fun _ _ _ hs hrace hstep =>
    hs.moves (moves_of_step hstep) hrace
  exact hs.one r r' hr hr'

/-- Bob asks for a root space when there is the main space, and is refused. -/
theorem one_root_space_second_refused :
    ∃ w, Exec (step localServer) NoRace World.init
        (makeMain ++ [.begin "@bob:liza.ru" spaceConfig, .query 1 (some (.ofRequest 0)),
          .resume 1]) w ∧
      w.Root (.ofRequest 0) ∧ ∀ r, w.Root r → r = .ofRequest 0 := by
  obtain ⟨w, h, hroot⟩ := exists_exec_of_runs (f := step localServer) (C := NoRace)
    (s := World.init) (l := makeMain ++ [.begin "@bob:liza.ru" spaceConfig,
      .query 1 (some (.ofRequest 0)), .resume 1]) (p := fun w => w.Root (.ofRequest 0))
    (by decide +kernel)
  exact ⟨w, h, hroot, fun r hr => one_root_space h hr hroot⟩

/-- Alice and Bob ask for a root space at the same time, and both get one. -/
theorem two_root_spaces :
    ∃ w, Exec (step localServer) (fun _ _ => True) World.init
        [.begin "@alice:liza.ru" spaceConfig, .begin "@bob:liza.ru" spaceConfig, .query 0 none,
          .query 1 none, .resume 0, .resume 1, .check 0, .query 0 none, .resume 0, .check 1,
          .query 1 none, .resume 1, .persist 0 1, .persist 1 2] w ∧
      w.Root (.ofRequest 0) ∧ w.Root (.ofRequest 1) :=
  exists_exec_of_runs (by decide +kernel)

end SpaceGuard
end Liza
