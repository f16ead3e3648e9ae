/-
# The rooms from before

`_maybe_backfill` of `servers/synapse/modules/single_space_guard/__init__.py`: the rooms that are in
no space are added to the main space, once.  It is started in the background whenever a lookup has
found the main space, and goes on to the end only if it is the first since Synapse was started and
the flag `backfill_done` is not in the database.

The states are those of `Module` with what the backfill keeps.  What a pass does to the rooms and to
the cache are steps of `Module`: its lookup of the main space is `glance` and `settle`, and an event
that it sends is `child`.  Any transaction may raise (`fail`), any event may be refused (`send`), and
Synapse may be started again at any point; `added` and `failed` are the rooms whose event was
accepted or refused.

The publication of the main space in the directory, which is started beside the backfill, is left
out.
-/

import Liza.Lib.Past
import Liza.SpaceGuard.DirectMarks

set_option autoImplicit false

namespace Liza
namespace SpaceGuard

open Lib

/-! ### The state -/

/-- The `await` that a pass waits at. -/
inductive FillStage where
  /-- the lookup of the main space -/
  | asking
  /-- the lookup of the main space, which has run -/
  | told (main : Option RoomId)
  /-- `_create_meta_txn` -/
  | schema (main : RoomId)
  /-- `_get_meta_txn` -/
  | flag (main : RoomId)
  /-- `_main_space_creator` -/
  | creator (main : RoomId)
  /-- `_orphan_rooms_txn` -/
  | orphans (main : RoomId) (creator : UserId)
  /-- `_add_room_to_main_space` of the next room, or `_set_meta_txn` after the last one -/
  | adding (main : RoomId) (creator : UserId) (rest : List RoomId)
deriving DecidableEq

/-- No room has been looked for yet. -/
def FillStage.early : FillStage → Bool
  | .asking | .told _ | .schema _ | .flag _ => true
  | _ => false

/-- The server, the flag in the database, `_backfill_started`, how many processes were launched and
have not begun, and those that are on their way. -/
structure Filling where
  world : World
  done : Bool
  started : Bool
  launched : ℕ
  passes : List FillStage
  added : List RoomId
  failed : List RoomId
deriving DecidableEq

/-- A new server. -/
def Filling.init : Filling := ⟨World.init, false, false, 0, [], [], []⟩

/-- `_orphan_rooms_txn`, with the rooms that have local users and those of the `m.direct` of
anyone. -/
def World.orphanRooms (w : World) (main : RoomId) (occupied direct : List RoomId) : List RoomId :=
  ((w.rooms.filter fun e => e.2.counted && !e.2.isSpace && e.1 ≠ main && e.1 ∈ occupied &&
    w.children.all fun c => c.2 ≠ e.1).map Prod.fst).filter fun r => r ∉ direct && r.isLocal

/-! ### The steps -/

/-- What can happen. -/
inductive FillAct where
  /-- a step of the server -/
  | base (a : Act)
  /-- a process that was launched begins -/
  | enter
  /-- the transaction of the lookup -/
  | lookup (i : ℕ) (answer : Option RoomId)
  /-- the answer of the lookup is taken -/
  | resume (i : ℕ)
  | schema (i : ℕ)
  | flag (i : ℕ)
  | creator (i : ℕ)
  | orphans (i : ℕ) (occupied direct : List RoomId)
  /-- an event is accepted or refused -/
  | send (i : ℕ) (accepted : Bool)
  | finish (i : ℕ)
  /-- a transaction raises -/
  | fail (i : ℕ)

/-- The step of a server takes an answer with the main space, which launches a backfill. -/
def World.launches (w : World) : Act → Bool
  | .settle answer => answer.isSome
  | .resume i =>
      match w.requests[i]?.map Request.phase with
      | some (.answered (some _)) => true
      | some (.told (some _)) => true
      | _ => false
  | _ => false

namespace Filling

variable (f : Filling)

/-- The server has taken a step. -/
def moved (a : Act) (w : World) : Filling :=
  match a with
  | .restart => { f with world := w, started := false, launched := 0, passes := [] }
  | a => { f with world := w, launched := f.launched + if f.world.launches a then 1 else 0 }

/-- A pass waits at another point. -/
def setPass (i : ℕ) (stage : FillStage) : Filling := { f with passes := f.passes.set i stage }

/-- A pass has returned. -/
def drop (i : ℕ) : Filling := { f with passes := f.passes.eraseIdx i }

/-- `_maybe_backfill` up to its first `await`. -/
def enter (backfillExisting : Bool) : Filling :=
  if backfillExisting = false ∨ f.started = true then { f with launched := f.launched - 1 }
  else { f with
    launched := f.launched - 1
    started := true
    passes := f.passes ++ [match f.world.cache with | some main => .schema main | none => .asking] }

end Filling

/-- One step. -/
def fillStep (S : Server) (backfillExisting : Bool) (f : Filling) : FillAct → Option Filling
  | .base a => (step S f.world a).map fun w => f.moved a w
  | .enter => if f.launched = 0 then none else some (f.enter backfillExisting)
  | .lookup i answer => do
      match ← f.passes[i]? with
      | .asking =>
          let w ← step S f.world (.glance answer)
          some ((f.moved (.glance answer) w).setPass i (.told answer))
      | _ => none
  | .resume i => do
      match ← f.passes[i]? with
      | .told none =>
          let w ← step S f.world (.settle none)
          some { (f.moved (.settle none) w).drop i with started := false }
      | .told (some main) =>
          let w ← step S f.world (.settle (some main))
          some ((f.moved (.settle (some main)) w).setPass i (.schema main))
      | _ => none
  | .schema i => do
      match ← f.passes[i]? with
      | .schema main => some (f.setPass i (.flag main))
      | _ => none
  | .flag i => do
      match ← f.passes[i]? with
      | .flag main => some (if f.done then f.drop i else f.setPass i (.creator main))
      | _ => none
  | .creator i => do
      match ← f.passes[i]? with
      | .creator main =>
          match f.world.roomCreator main with
          | none => some (f.drop i)
          | some creator => some (f.setPass i (.orphans main creator))
      | _ => none
  | .orphans i occupied direct => do
      match ← f.passes[i]? with
      | .orphans main creator =>
          some (f.setPass i (.adding main creator (f.world.orphanRooms main occupied direct)))
      | _ => none
  | .send i accepted => do
      match ← f.passes[i]? with
      | .adding main creator (room :: rest) =>
          if accepted then
            let w ← step S f.world (.child main room)
            some { (f.moved (.child main room) w).setPass i (.adding main creator rest) with
              added := room :: f.added }
          else some { f.setPass i (.adding main creator rest) with failed := room :: f.failed }
      | _ => none
  | .finish i => do
      match ← f.passes[i]? with
      | .adding _ _ [] => some { f.drop i with done := true }
      | _ => none
  | .fail i => f.passes[i]?.map fun _ => f.drop i

/-! ### The rooms that are found -/

section Rooms

variable {S : Server} {w t : World} {a : Act} {r main : RoomId} {occupied direct : List RoomId}

theorem mem_orphanRooms : r ∈ w.orphanRooms main occupied direct ↔
    (∃ e ∈ w.rooms, e.1 = r ∧ e.2.counted = true ∧ e.2.isSpace = false) ∧ r ≠ main ∧
      r ∈ occupied ∧ w.NoParent r ∧ r ∉ direct ∧ r.isLocal = true := by
  unfold World.orphanRooms World.NoParent
  simp only [List.mem_filter, List.mem_map, Bool.and_eq_true, decide_eq_true_eq, List.all_eq_true,
    Bool.not_eq_true', ne_eq]
  constructor
  · rintro ⟨⟨e, ⟨he, ⟨⟨⟨hcounted, hspace⟩, hmain⟩, hoccupied⟩, hparent⟩, rfl⟩, hdirect, hlocal⟩
    exact ⟨⟨e, he, rfl, hcounted, hspace⟩, hmain, hoccupied, hparent, hdirect, hlocal⟩
  · rintro ⟨⟨e, he, rfl, hcounted, hspace⟩, hmain, hoccupied, hparent, hdirect, hlocal⟩
    exact ⟨⟨e, ⟨he, ⟨⟨⟨hcounted, hspace⟩, hmain⟩, hoccupied⟩, hparent⟩, rfl⟩, hdirect, hlocal⟩

/-- A room is stored once. -/
def World.Ids (w : World) : Prop := (w.rooms.map Prod.fst).Nodup

theorem orphanRooms_nodup (h : w.Ids) : (w.orphanRooms main occupied direct).Nodup :=
  (h.sublist (List.filter_sublist.map _)).filter _

/-- A room keeps its parents, unless a parent is left: an event that takes a child out is an event
for it as well. -/
theorem parent_of_moves (h : Moves S w a t) (hr : ¬w.NoParent r)
    (hleave : ∀ room, a = .leave room → ¬(w.leaveRoom room).NoParent r) : ¬t.NoParent r := by
  refine fun hno => hr ?_
  obtain ⟨-, hchildren, -⟩ | ⟨i, ts, main, q, -, -, -, rfl⟩ | ⟨s, -, rfl⟩ | ⟨room, s, -, rfl⟩ |
    ⟨n, room, -, rfl⟩ | ⟨room, rfl, rfl⟩ | ⟨room, -, rfl⟩ := database_of_moves h
  · rw [World.NoParent, hchildren] at hno
    exact hno
  · exact hno
  · exact hno
  · exact fun c hc => hno c (List.mem_cons_of_mem _ hc)
  · exact hno
  · exact absurd hno (hleave room rfl)
  · exact hno

theorem World.Ids.moves (hs : w.Ids) (hrooms : Rooms w) (h : Moves S w a t) : t.Ids := by
  unfold World.Ids at *
  obtain ⟨hsame, -⟩ | ⟨i, ts, main, q, -, hq, hphase, rfl⟩ | ⟨s, -, rfl⟩ | ⟨room, s, -, rfl⟩ |
    ⟨n, room, rfl, rfl⟩ | ⟨room, -, rfl⟩ | ⟨room, -, rfl⟩ := database_of_moves h
  · rwa [hsame]
  · -- the request has not stored its room before
    refine List.nodup_cons.2 ⟨fun hmem => ?_, hs⟩
    obtain ⟨e, he, heq⟩ := List.mem_map.1 hmem
    obtain ⟨q', main', hq', hphase'⟩ := hrooms.stored i ⟨e, he, heq⟩
    obtain rfl := Option.some.inj (hq.symm.trans hq')
    cases hphase.symm.trans hphase'
  · have hkeys : ((w.counting s).rooms.map Prod.fst) = w.rooms.map Prod.fst := by
      rw [World.counting, List.map_map]
      refine List.map_congr_left fun e _ => ?_
      dsimp only [Function.comp]
      split <;> rfl
    rwa [hkeys]
  · exact hs
  · cases h with
    | join hnew =>
        refine List.nodup_cons.2 ⟨fun hmem => ?_, hs⟩
        obtain ⟨e, he, heq⟩ := List.mem_map.1 hmem
        exact hnew e he heq
  · exact hs
  · exact hs

end Rooms

/-! ### What is known of the backfill -/

section Runs

variable (S : Server) (b : Bool)

/-- The step looks for rooms. -/
def FillAct.looks : FillAct → Bool
  | .orphans .. => true
  | _ => false

/-- The step sends an event. -/
def FillAct.sends : FillAct → Bool
  | .send .. => true
  | _ => false

/-- The rooms were found by a pass that looked for them. -/
def Queried (as : List FillAct) (l : List RoomId) : Prop :=
  Took (fillStep S b) (fun _ _ => True) Filling.init (fun u a => ∃ i main creator occupied direct,
    a = .orphans i occupied direct ∧ u.passes[i]? = some (.orphans main creator) ∧
      l = u.world.orphanRooms main occupied direct) as

/-- The last look of the run has found the rooms, and `n` events have been sent since. -/
def LastLook (as : List FillAct) (l : List RoomId) (n : ℕ) : Prop :=
  ∃ bs i occupied direct cs u main creator, as = bs ++ .orphans i occupied direct :: cs ∧
    Exec (fillStep S b) (fun _ _ => True) Filling.init bs u ∧
    u.passes[i]? = some (.orphans main creator) ∧ l = u.world.orphanRooms main occupied direct ∧
    (∀ a ∈ cs, a.looks = false) ∧ cs.countP FillAct.sends = n

/-- What is known of a pass: it has made the last look, and the rooms that are left are those it has
found, without those that an event has been sent for since. -/
def Pending (as : List FillAct) (f : Filling) : FillStage → Prop
  | .adding _ _ rest => ∃ l n, LastLook S b as l n ∧ n ≤ l.length ∧ rest = l.drop n ∧
      ∀ r ∈ l, r ∈ rest ∨ r ∈ f.added ∨ r ∈ f.failed
  | _ => True

/-- What is known of the backfill. -/
structure Filled (as : List FillAct) (f : Filling) : Prop where
  rooms : Rooms f.world
  ids : f.world.Ids
  idle : f.started = false → f.passes = []
  single : f.passes.length ≤ 1
  queried : ∀ r ∈ f.added, ∃ l, Queried S b as l ∧ r ∈ l
  pending : ∀ p ∈ f.passes, Pending S b as f p
  complete : f.done = true →
    ∃ l, LastLook S b as l l.length ∧ ∀ r ∈ l, r ∈ f.added ∨ r ∈ f.failed
  final : f.done = true → ∀ p ∈ f.passes, p.early = true

variable {S b} {as : List FillAct} {f t : Filling} {i n : ℕ} {p next : FillStage} {w : World}
  {l : List RoomId} {a : FillAct}

theorem filled_init : Filled S b [] Filling.init where
  rooms := rooms_init
  ids := List.nodup_nil
  idle _ := rfl
  single := Nat.zero_le 1
  queried r hr := by cases hr
  pending p hp := by cases hp
  complete h := by cases h
  final h := by cases h

theorem LastLook.queried (h : LastLook S b as l n) : Queried S b as l := by
  obtain ⟨bs, i, occupied, direct, cs, u, main, creator, has, hrun, hp, hl, -, -⟩ := h
  exact ⟨bs, _, cs, u, has, hrun, i, main, creator, occupied, direct, rfl, hp, hl⟩

/-- One more step that does not look for rooms. -/
theorem LastLook.snoc (h : LastLook S b as l n) (ha : a.looks = false) :
    LastLook S b (as ++ [a]) l (n + if a.sends then 1 else 0) := by
  obtain ⟨bs, i, occupied, direct, cs, u, main, creator, rfl, hrun, hp, hl, hcs, hn⟩ := h
  refine ⟨bs, i, occupied, direct, cs ++ [a], u, main, creator, by simp, hrun, hp, hl,
    fun c hc => ?_, ?_⟩
  · rcases List.mem_append.1 hc with hc | hc
    · exact hcs c hc
    · rw [List.mem_singleton.1 hc]
      exact ha
  · rw [List.countP_append, List.countP_singleton, hn]

/-- A step that does neither. -/
theorem LastLook.later (h : LastLook S b as l n) (ha : a.looks = false) (hs : a.sends = false) :
    LastLook S b (as ++ [a]) l n := by
  have := h.snoc ha
  rwa [hs, if_neg Bool.false_ne_true, Nat.add_zero] at this

theorem Pending.later (h : Pending S b as f p) (ha : a.looks = false) (hs : a.sends = false) :
    Pending S b (as ++ [a]) f p := by
  cases p with
  | adding main creator rest =>
      obtain ⟨l, n, hl, hrest⟩ := h
      exact ⟨l, n, hl.later ha hs, hrest⟩
  | _ => trivial

theorem Pending.congr (h : Pending S b as f p) (hadded : t.added = f.added)
    (hfailed : t.failed = f.failed) : Pending S b as t p := by
  cases p with
  | adding main creator rest =>
      rw [Pending, hadded, hfailed]
      exact h
  | _ => trivial

/-- What was known stays known, as long as nothing is looked for or sent. -/
theorem Filled.later (h : Filled S b as f) (ha : a.looks = false) (hs : a.sends = false) :
    Filled S b (as ++ [a]) f where
  rooms := h.rooms
  ids := h.ids
  idle := h.idle
  single := h.single
  queried r hr := by
    obtain ⟨l, hl, hmem⟩ := h.queried r hr
    exact ⟨l, hl.append _, hmem⟩
  pending p hp := (h.pending p hp).later ha hs
  complete hdone := by
    obtain ⟨l, hl, hall⟩ := h.complete hdone
    exact ⟨l, hl.later ha hs, hall⟩
  final := h.final

/-- There is one pass. -/
theorem Filled.eq_single (h : Filled S b as f) (hp : f.passes[i]? = some p) :
    f.passes = [p] ∧ i = 0 := by
  have hsingle := h.single
  match hpasses : f.passes with
  | [] => simp [hpasses] at hp
  | [q] =>
      rw [hpasses] at hp
      match i, hp with
      | 0, hp => exact ⟨by rw [Option.some.inj hp], rfl⟩
  | _ :: _ :: _ => simp [hpasses] at hsingle

/-- A pass that is past the flag has not found it written. -/
theorem Filled.not_done (h : Filled S b as f) (hp : f.passes[i]? = some p)
    (hlate : p.early = false) : ¬f.done = true := by
  intro hdone
  rw [h.final hdone p (List.mem_of_getElem? hp)] at hlate
  cases hlate

theorem Filled.drop (h : Filled S b as f) (i : ℕ) : Filled S b as (f.drop i) where
  rooms := h.rooms
  ids := h.ids
  idle hs := by rw [Filling.drop, h.idle hs, List.eraseIdx_nil]
  single := (List.length_eraseIdx_le _ _).trans h.single
  queried := h.queried
  pending p hp := h.pending p (List.mem_of_mem_eraseIdx hp)
  complete := h.complete
  final hdone p hp := h.final hdone p (List.mem_of_mem_eraseIdx hp)

/-- A pass goes on. -/
theorem Filled.setPass (h : Filled S b as f) (hp : f.passes[i]? = some p)
    (hnext : Pending S b as f next) (hearly : f.done = true → next.early = true) :
    Filled S b as (f.setPass i next) := by
  obtain ⟨hpasses, rfl⟩ := h.eq_single hp
  have hset : (f.setPass 0 next).passes = [next] := by
    rw [Filling.setPass, hpasses, List.set_cons_zero]
  refine ⟨h.rooms, h.ids, fun hs => ?_, by rw [hset, List.length_singleton], h.queried,
    fun q hq => ?_, h.complete, fun hdone q hq => ?_⟩
  · cases hpasses.symm.trans (h.idle hs)
  · rw [hset] at hq
    obtain rfl := List.mem_singleton.1 hq
    exact hnext.congr rfl rfl
  · rw [hset] at hq
    obtain rfl := List.mem_singleton.1 hq
    exact hearly hdone

/-- The server goes on. -/
theorem Filled.moved {a : Act} (h : Filled S b as f) (hstep : step S f.world a = some w) :
    Filled S b as (f.moved a w) := by
  have hmoves := moves_of_step hstep
  have hids := h.ids.moves h.rooms hmoves
  cases a with
  | restart =>
      exact ⟨h.rooms.moves hmoves, hids, fun _ => rfl, Nat.zero_le 1, h.queried,
        fun p hp => (by cases hp), h.complete, fun _ p hp => by cases hp⟩
  | _ =>
      exact ⟨h.rooms.moves hmoves, hids, h.idle, h.single, h.queried,
        fun p hp => (h.pending p hp).congr rfl rfl, h.complete, h.final⟩

theorem Filled.enter (h : Filled S b as f) (b' : Bool) : Filled S b as (f.enter b') := by
  unfold Filling.enter
  split
  · exact ⟨h.rooms, h.ids, h.idle, h.single, h.queried,
      fun p hp => (h.pending p hp).congr rfl rfl, h.complete, h.final⟩
  · rename_i hbegins
    have hstarted : f.started = false := by
      by_contra hne
      exact hbegins (.inr (Bool.eq_true_of_not_eq_false hne))
    -- the flag was not set, so no other pass is on its way
    have hnone := h.idle hstarted
    have hmem : ∀ {q stage : FillStage}, q ∈ f.passes ++ [stage] → q = stage := by
      intro q stage hq
      rw [hnone, List.nil_append] at hq
      exact List.mem_singleton.1 hq
    refine ⟨h.rooms, h.ids, fun hs => (by cases hs), by simp [hnone], h.queried,
      fun p hp => ?_, h.complete, fun _ p hp => ?_⟩
    · obtain rfl := hmem hp
      cases f.world.cache <;> trivial
    · obtain rfl := hmem hp
      cases f.world.cache <;> rfl

/-- A pass has looked for rooms. -/
theorem Filled.looked {occupied direct : List RoomId} {main : RoomId} {creator : UserId}
    (hrun : Exec (fillStep S b) (fun _ _ => True) Filling.init as f) (h : Filled S b as f)
    (hp : f.passes[i]? = some (.orphans main creator)) :
    Filled S b (as ++ [.orphans i occupied direct])
      (f.setPass i (.adding main creator (f.world.orphanRooms main occupied direct))) := by
  have hnotdone := h.not_done hp rfl
  obtain ⟨hpasses, rfl⟩ := h.eq_single hp
  have hset : (f.setPass 0 (.adding main creator
      (f.world.orphanRooms main occupied direct))).passes =
      [.adding main creator (f.world.orphanRooms main occupied direct)] := by
    rw [Filling.setPass, hpasses, List.set_cons_zero]
  refine ⟨h.rooms, h.ids, fun hs => ?_, by rw [hset, List.length_singleton], fun r hr => ?_,
    fun q hq => ?_, fun hdone => absurd hdone hnotdone, fun hdone => absurd hdone hnotdone⟩
  · cases hpasses.symm.trans (h.idle hs)
  · obtain ⟨l, hl, hmem⟩ := h.queried r hr
    exact ⟨l, hl.append _, hmem⟩
  · rw [hset] at hq
    obtain rfl := List.mem_singleton.1 hq
    exact ⟨_, 0, ⟨as, 0, occupied, direct, [], f, main, creator, rfl, hrun, hp, rfl,
      fun c hc => (by cases hc), rfl⟩, Nat.zero_le _, rfl, fun r hr => .inl hr⟩

/-- An event was accepted, and its room is added, or it was refused, and its room is passed over. -/
theorem Filled.sent {main room : RoomId} {creator : UserId} {rest added failed : List RoomId}
    {u : Filling} (h : Filled S b as f) (hu : Filled S b as u)
    (hp : f.passes[i]? = some (.adding main creator (room :: rest)))
    (hpasses' : u.passes = f.passes) (hstarted : u.started = f.started) (hdone' : u.done = f.done)
    (hadded : ∀ r ∈ added, r = room ∨ r ∈ f.added) (ha : a.looks = false) (hs : a.sends = true)
    (hkept : ∀ r, r = room ∨ r ∈ f.added ∨ r ∈ f.failed → r ∈ added ∨ r ∈ failed) :
    Filled S b (as ++ [a])
      { u.setPass i (.adding main creator rest) with added := added, failed := failed } := by
  obtain ⟨l, n, hl, hle, hdrop, hall⟩ := h.pending _ (List.mem_of_getElem? hp)
  have hnotdone := h.not_done hp rfl
  obtain ⟨hpasses, rfl⟩ := h.eq_single hp
  have hset : u.passes.set 0 (.adding main creator rest) = [.adding main creator rest] := by
    rw [hpasses', hpasses, List.set_cons_zero]
  have hlt : n < l.length := by
    by_contra hge
    rw [List.drop_eq_nil_of_le (by omega)] at hdrop
    cases hdrop
  have hrest : room = l[n] ∧ rest = l.drop (n + 1) := by
    rw [List.drop_eq_getElem_cons hlt] at hdrop
    exact List.cons.inj hdrop
  refine ⟨hu.rooms, hu.ids, fun hs => ?_, ?_, fun r hr => ?_, fun q hq => ?_,
    fun hdone => absurd (hdone'.symm.trans hdone) hnotdone,
    fun hdone => absurd (hdone'.symm.trans hdone) hnotdone⟩
  · cases hpasses.symm.trans (h.idle (hstarted.symm.trans hs))
  · show (u.passes.set 0 _).length ≤ 1
    rw [hset, List.length_singleton]
  · rcases hadded r hr with rfl | hr
    · exact ⟨l, hl.queried.append _, hrest.1 ▸ List.getElem_mem hlt⟩
    · obtain ⟨l, hl, hmem⟩ := h.queried r hr
      exact ⟨l, hl.append _, hmem⟩
  · have hq : q ∈ u.passes.set 0 (.adding main creator rest) := hq
    rw [hset] at hq
    obtain rfl := List.mem_singleton.1 hq
    refine ⟨l, n + 1, ?_, hlt, hrest.2, fun r hr => ?_⟩
    · have := hl.snoc ha
      rwa [hs, if_pos rfl] at this
    · rcases hall r hr with hr | hr
      · rcases List.mem_cons.1 hr with rfl | hr
        · exact .inr (hkept r (.inl rfl))
        · exact .inl hr
      · exact .inr (hkept r (.inr hr))

/-- The last room has had its event, and the flag is written. -/
theorem Filled.finish {main : RoomId} {creator : UserId} (h : Filled S b as f)
    (hp : f.passes[i]? = some (.adding main creator [])) :
    Filled S b as { f.drop i with done := true } := by
  obtain ⟨l, n, hl, hle, hdrop, hall⟩ := h.pending _ (List.mem_of_getElem? hp)
  obtain ⟨hpasses, rfl⟩ := h.eq_single hp
  have hnone : (f.drop 0).passes = [] := by rw [Filling.drop, hpasses, List.eraseIdx_cons_zero]
  have hdrop' := h.drop 0
  obtain rfl : n = l.length := by
    have := List.drop_eq_nil_iff.1 hdrop.symm
    omega
  refine ⟨h.rooms, h.ids, fun _ => hnone, hdrop'.single, h.queried, fun q hq => ?_,
    fun _ => ⟨l, hl, fun r hr => ?_⟩, fun _ q hq => ?_⟩
  · rw [hnone] at hq
    cases hq
  · exact (hall r hr).resolve_left List.not_mem_nil
  · rw [hnone] at hq
    cases hq

/-- **A step keeps what is known.** -/
theorem Filled.step (hrun : Exec (fillStep S b) (fun _ _ => True) Filling.init as f)
    (h : Filled S b as f) (hstep : fillStep S b f a = some t) : Filled S b (as ++ [a]) t := by
  cases a with
  | base a =>
      obtain ⟨w, hw, rfl⟩ := Option.map_eq_some_iff.1 hstep
      exact (h.later rfl rfl).moved hw
  | enter =>
      simp only [fillStep] at hstep
      split at hstep
      · cases hstep
      · obtain rfl := Option.some.inj hstep
        exact (h.later rfl rfl).enter b
  | fail i =>
      obtain ⟨p, -, rfl⟩ := Option.map_eq_some_iff.1 hstep
      exact (h.later rfl rfl).drop i
  | lookup i answer =>
      obtain ⟨p, hp, hstep⟩ := Option.bind_eq_some_iff.1 hstep
      cases p with
      | asking =>
          obtain ⟨w, hw, hstep⟩ := Option.bind_eq_some_iff.1 hstep
          obtain rfl := Option.some.inj hstep
          exact ((h.later rfl rfl).moved hw).setPass hp trivial fun _ => rfl
      | _ => cases hstep
  | resume i =>
      obtain ⟨p, hp, hstep⟩ := Option.bind_eq_some_iff.1 hstep
      cases p with
      | told main =>
          cases main with
          | none =>
              obtain ⟨w, hw, hstep⟩ := Option.bind_eq_some_iff.1 hstep
              obtain rfl := Option.some.inj hstep
              have hmoved := (h.later (a := .resume i) rfl rfl).moved hw
              obtain ⟨hpasses, rfl⟩ := h.eq_single hp
              have hnone : ((f.moved (.settle none) w).drop 0).passes = [] := by
                show f.passes.eraseIdx 0 = []
                rw [hpasses, List.eraseIdx_cons_zero]
              have hdrop := hmoved.drop 0
              exact ⟨hdrop.rooms, hdrop.ids, fun _ => hnone, hdrop.single, hdrop.queried,
                fun q hq => (by rw [hnone] at hq; cases hq), hdrop.complete, hdrop.final⟩
          | some main =>
              obtain ⟨w, hw, hstep⟩ := Option.bind_eq_some_iff.1 hstep
              obtain rfl := Option.some.inj hstep
              exact ((h.later rfl rfl).moved hw).setPass hp trivial fun _ => rfl
      | _ => cases hstep
  | schema i =>
      obtain ⟨p, hp, hstep⟩ := Option.bind_eq_some_iff.1 hstep
      cases p with
      | schema main =>
          obtain rfl := Option.some.inj hstep
          exact (h.later rfl rfl).setPass hp trivial fun _ => rfl
      | _ => cases hstep
  | flag i =>
      obtain ⟨p, hp, hstep⟩ := Option.bind_eq_some_iff.1 hstep
      cases p with
      | flag main =>
          obtain rfl := Option.some.inj hstep
          split
          · exact (h.later rfl rfl).drop i
          · rename_i hdone
            exact (h.later rfl rfl).setPass hp trivial fun h => absurd h hdone
      | _ => cases hstep
  | creator i =>
      obtain ⟨p, hp, hstep⟩ := Option.bind_eq_some_iff.1 hstep
      cases p with
      | creator main =>
          simp only at hstep
          split at hstep
          · obtain rfl := Option.some.inj hstep
            exact (h.later rfl rfl).drop i
          · obtain rfl := Option.some.inj hstep
            exact (h.later rfl rfl).setPass hp trivial fun hdone =>
              absurd hdone (h.not_done hp rfl)
      | _ => cases hstep
  | orphans i occupied direct =>
      obtain ⟨p, hp, hstep⟩ := Option.bind_eq_some_iff.1 hstep
      cases p with
      | orphans main creator =>
          obtain rfl := Option.some.inj hstep
          exact h.looked hrun hp
      | _ => cases hstep
  | send i accepted =>
      obtain ⟨p, hp, hstep⟩ := Option.bind_eq_some_iff.1 hstep
      cases p with
      | adding main creator rest =>
          cases rest with
          | nil => cases hstep
          | cons room rest =>
              cases accepted with
              | true =>
                  dsimp only at hstep
                  rw [if_pos rfl] at hstep
                  obtain ⟨w, hw, hstep⟩ := Option.bind_eq_some_iff.1 hstep
                  obtain rfl := Option.some.inj hstep
                  exact h.sent (h.moved hw) hp rfl rfl rfl (fun r hr => List.mem_cons.1 hr) rfl rfl
                    fun r hr => by
                      rcases hr with rfl | hr | hr
                      · exact .inl List.mem_cons_self
                      · exact .inl (List.mem_cons_of_mem _ hr)
                      · exact .inr hr
              | false =>
                  obtain rfl := Option.some.inj hstep
                  exact h.sent h hp rfl rfl rfl (fun r hr => .inr hr) rfl rfl
                    fun r hr => by
                      rcases hr with rfl | hr | hr
                      · exact .inr List.mem_cons_self
                      · exact .inl hr
                      · exact .inr (List.mem_cons_of_mem _ hr)
      | _ => cases hstep
  | finish i =>
      obtain ⟨p, hp, hstep⟩ := Option.bind_eq_some_iff.1 hstep
      cases p with
      | adding main creator rest =>
          cases rest with
          | cons => cases hstep
          | nil =>
              obtain rfl := Option.some.inj hstep
              exact (h.later rfl rfl).finish hp
      | _ => cases hstep

theorem filled_of_run (h : Exec (fillStep S b) (fun _ _ => True) Filling.init as f) :
    Filled S b as f :=
  h.invariant_past filled_init fun _ _ _ _ hrun hf _ hstep => hf.step hrun hstep

theorem moved_kept (f : Filling) (a : Act) (w : World) :
    (f.moved a w).done = f.done ∧ (f.moved a w).added = f.added ∧
      (f.moved a w).failed = f.failed := by
  cases a <;> exact ⟨rfl, rfl, rfl⟩

/-- Once the flag is written no event is sent. -/
theorem Filled.frozen {a : FillAct} (h : Filled S b as f) (hdone : f.done = true)
    (hstep : fillStep S b f a = some t) :
    t.done = true ∧ t.added = f.added ∧ t.failed = f.failed := by
  have hearly := h.final hdone
  have hmoved : ∀ a w, (f.moved a w).done = true ∧ (f.moved a w).added = f.added ∧
      (f.moved a w).failed = f.failed := fun a w =>
    ⟨(moved_kept f a w).1.trans hdone, (moved_kept f a w).2⟩
  cases a with
  | base a =>
      obtain ⟨w, -, rfl⟩ := Option.map_eq_some_iff.1 hstep
      exact hmoved a w
  | enter =>
      simp only [fillStep] at hstep
      split at hstep
      · cases hstep
      · obtain rfl := Option.some.inj hstep
        unfold Filling.enter
        split <;> exact ⟨hdone, rfl, rfl⟩
  | fail i =>
      obtain ⟨p, -, rfl⟩ := Option.map_eq_some_iff.1 hstep
      exact ⟨hdone, rfl, rfl⟩
  | lookup i answer =>
      obtain ⟨p, -, hstep⟩ := Option.bind_eq_some_iff.1 hstep
      cases p with
      | asking =>
          obtain ⟨w, -, hstep⟩ := Option.bind_eq_some_iff.1 hstep
          obtain rfl := Option.some.inj hstep
          exact hmoved _ w
      | _ => cases hstep
  | resume i =>
      obtain ⟨p, -, hstep⟩ := Option.bind_eq_some_iff.1 hstep
      cases p with
      | told main =>
          cases main <;>
          · obtain ⟨w, -, hstep⟩ := Option.bind_eq_some_iff.1 hstep
            obtain rfl := Option.some.inj hstep
            exact hmoved _ w
      | _ => cases hstep
  | schema i =>
      obtain ⟨p, -, hstep⟩ := Option.bind_eq_some_iff.1 hstep
      cases p with
      | schema main =>
          obtain rfl := Option.some.inj hstep
          exact ⟨hdone, rfl, rfl⟩
      | _ => cases hstep
  | flag i =>
      obtain ⟨p, -, hstep⟩ := Option.bind_eq_some_iff.1 hstep
      cases p with
      | flag main =>
          obtain rfl := Option.some.inj hstep
          rw [if_pos hdone]
          exact ⟨hdone, rfl, rfl⟩
      | _ => cases hstep
  | creator i | orphans i occupied direct | send i accepted | finish i =>
      -- no pass has got that far
      obtain ⟨p, hp, hstep⟩ := Option.bind_eq_some_iff.1 hstep
      have hp := hearly p (List.mem_of_getElem? hp)
      cases p with
      | creator | orphans | adding => cases hp
      | _ => cases hstep

/-! ### No room twice -/

/-- No room that was added loses its last `m.space.child` event because a room is left. -/
def KeepsAdded (f : Filling) : FillAct → Prop
  | .base (.leave room) => ∀ r ∈ f.added, ¬(f.world.leaveRoom room).NoParent r
  | _ => True

instance (f : Filling) : (a : FillAct) → Decidable (KeepsAdded f a)
  | .base (.leave room) =>
      inferInstanceAs (Decidable (∀ r ∈ f.added, ¬(f.world.leaveRoom room).NoParent r))
  | .base (.begin ..) => .isTrue trivial
  | .base (.query ..) => .isTrue trivial
  | .base (.resume _) => .isTrue trivial
  | .base (.reject _) => .isTrue trivial
  | .base (.check _) => .isTrue trivial
  | .base (.creator _) => .isTrue trivial
  | .base (.persist ..) => .isTrue trivial
  | .base (.count _) => .isTrue trivial
  | .base (.child ..) => .isTrue trivial
  | .base (.join ..) => .isTrue trivial
  | .base (.back _) => .isTrue trivial
  | .base (.glance _) => .isTrue trivial
  | .base (.settle _) => .isTrue trivial
  | .base .restart => .isTrue trivial
  | .enter => .isTrue trivial
  | .lookup .. => .isTrue trivial
  | .resume _ => .isTrue trivial
  | .schema _ => .isTrue trivial
  | .flag _ => .isTrue trivial
  | .creator _ => .isTrue trivial
  | .orphans .. => .isTrue trivial
  | .send .. => .isTrue trivial
  | .finish _ => .isTrue trivial
  | .fail _ => .isTrue trivial

/-- The rooms that were added have a parent, and those that a pass is to add were not added yet. -/
structure Once (f : Filling) : Prop where
  sent : ∀ r ∈ f.added, ¬f.world.NoParent r
  once : f.added.Nodup
  fresh : ∀ main creator rest, .adding main creator rest ∈ f.passes →
    rest.Nodup ∧ ∀ r ∈ rest, r ∉ f.added

/-- The passes that add rooms are as they were. -/
theorem Once.of_passes (h : Once f) (hworld : ∀ r ∈ f.added, ¬t.world.NoParent r)
    (hadded : t.added = f.added)
    (hpasses : ∀ main creator rest, .adding main creator rest ∈ t.passes →
      .adding main creator rest ∈ f.passes) : Once t where
  sent := hadded ▸ hworld
  once := hadded ▸ h.once
  fresh main creator rest hp := hadded ▸ h.fresh main creator rest (hpasses main creator rest hp)

theorem Once.drop (h : Once f) (i : ℕ) : Once (f.drop i) :=
  h.of_passes h.sent rfl fun _ _ _ hp => List.mem_of_mem_eraseIdx hp

/-- A pass goes on that does not come to the rooms. -/
theorem Once.setPass (h : Once f) (hnext : ∀ main creator rest, next ≠ .adding main creator rest) :
    Once (f.setPass i next) := by
  refine h.of_passes h.sent rfl fun main creator rest hp => ?_
  rcases List.mem_or_eq_of_mem_set hp with hp | hp
  · exact hp
  · exact absurd hp.symm (hnext main creator rest)

theorem Once.moved {a : Act} (h : Once f) (hc : KeepsAdded f (.base a))
    (hstep : step S f.world a = some w) : Once (f.moved a w) := by
  have hsent : ∀ r ∈ f.added, ¬w.NoParent r := fun r hr =>
    parent_of_moves (moves_of_step hstep) (h.sent r hr) fun room hroom => by
      subst hroom
      exact hc r hr
  cases a with
  | restart => exact h.of_passes hsent rfl fun _ _ _ hp => by cases hp
  | _ => exact h.of_passes hsent rfl fun _ _ _ hp => hp

/-- An event was accepted, and its room is added, or it was refused. -/
theorem Once.sent_next {main room : RoomId} {creator : UserId} {rest failed : List RoomId}
    {u : Filling} (accepted : Bool) (hf : Filled S b as f) (h : Once f)
    (hp : f.passes[i]? = some (.adding main creator (room :: rest)))
    (hpasses : u.passes = f.passes) (hsent : ∀ r ∈ f.added, ¬u.world.NoParent r)
    (hroom : accepted = true → ¬u.world.NoParent room) :
    Once { u.setPass i (.adding main creator rest) with
      added := if accepted then room :: f.added else f.added, failed := failed } := by
  obtain ⟨hnodup, hnew⟩ := h.fresh main creator _ (List.mem_of_getElem? hp)
  obtain ⟨hnot, hnodup'⟩ := List.nodup_cons.1 hnodup
  obtain ⟨hsingle, rfl⟩ := hf.eq_single hp
  have hset : u.passes.set 0 (.adding main creator rest) = [.adding main creator rest] := by
    rw [hpasses, hsingle, List.set_cons_zero]
  have hfresh : ∀ main' creator' rest', .adding main' creator' rest' ∈
      u.passes.set 0 (.adding main creator rest) → rest' = rest := by
    intro main' creator' rest' hmem
    rw [hset] at hmem
    cases List.mem_singleton.1 hmem
    rfl
  cases accepted with
  | true =>
      refine ⟨fun r hr => ?_, List.nodup_cons.2 ⟨hnew room List.mem_cons_self, h.once⟩,
        fun main' creator' rest' hmem => ?_⟩
      · rcases List.mem_cons.1 hr with rfl | hr
        · exact hroom rfl
        · exact hsent r hr
      · obtain rfl := hfresh main' creator' rest' hmem
        refine ⟨hnodup', fun r hr hadded => ?_⟩
        rcases List.mem_cons.1 hadded with rfl | hadded
        · exact hnot hr
        · exact hnew r (List.mem_cons_of_mem _ hr) hadded
  | false =>
      refine ⟨hsent, h.once, fun main' creator' rest' hmem => ?_⟩
      obtain rfl := hfresh main' creator' rest' hmem
      exact ⟨hnodup', fun r hr => hnew r (List.mem_cons_of_mem _ hr)⟩

/-- **A step adds no room again.** -/
theorem Once.step (hf : Filled S b as f) (h : Once f) (hc : KeepsAdded f a)
    (hstep : fillStep S b f a = some t) : Once t := by
  cases a with
  | base a =>
      obtain ⟨w, hw, rfl⟩ := Option.map_eq_some_iff.1 hstep
      exact h.moved hc hw
  | enter =>
      simp only [fillStep] at hstep
      split at hstep
      · cases hstep
      · obtain rfl := Option.some.inj hstep
        unfold Filling.enter
        split
        · exact h.of_passes h.sent rfl fun _ _ _ hp => hp
        · refine h.of_passes h.sent rfl fun main creator rest hp => ?_
          rcases List.mem_append.1 hp with hp | hp
          · exact hp
          · cases hcache : f.world.cache <;> rw [hcache] at hp <;> cases List.mem_singleton.1 hp
  | fail i =>
      obtain ⟨p, -, rfl⟩ := Option.map_eq_some_iff.1 hstep
      exact h.drop i
  | lookup i answer =>
      obtain ⟨p, hp, hstep⟩ := Option.bind_eq_some_iff.1 hstep
      cases p with
      | asking =>
          obtain ⟨w, hw, hstep⟩ := Option.bind_eq_some_iff.1 hstep
          obtain rfl := Option.some.inj hstep
          exact (h.moved (a := .glance answer) trivial hw).setPass nofun
      | _ => cases hstep
  | resume i =>
      obtain ⟨p, hp, hstep⟩ := Option.bind_eq_some_iff.1 hstep
      cases p with
      | told main =>
          cases main with
          | none =>
              obtain ⟨w, hw, hstep⟩ := Option.bind_eq_some_iff.1 hstep
              obtain rfl := Option.some.inj hstep
              have hdrop := (h.moved (a := .settle none) trivial hw).drop i
              exact hdrop.of_passes hdrop.sent rfl fun _ _ _ hp => hp
          | some main =>
              obtain ⟨w, hw, hstep⟩ := Option.bind_eq_some_iff.1 hstep
              obtain rfl := Option.some.inj hstep
              exact (h.moved (a := .settle (some main)) trivial hw).setPass nofun
      | _ => cases hstep
  | schema i =>
      obtain ⟨p, hp, hstep⟩ := Option.bind_eq_some_iff.1 hstep
      cases p with
      | schema main =>
          obtain rfl := Option.some.inj hstep
          exact h.setPass nofun
      | _ => cases hstep
  | flag i =>
      obtain ⟨p, hp, hstep⟩ := Option.bind_eq_some_iff.1 hstep
      cases p with
      | flag main =>
          obtain rfl := Option.some.inj hstep
          split
          · exact h.drop i
          · exact h.setPass nofun
      | _ => cases hstep
  | creator i =>
      obtain ⟨p, hp, hstep⟩ := Option.bind_eq_some_iff.1 hstep
      cases p with
      | creator main =>
          simp only at hstep
          split at hstep
          · obtain rfl := Option.some.inj hstep
            exact h.drop i
          · obtain rfl := Option.some.inj hstep
            exact h.setPass nofun
      | _ => cases hstep
  | orphans i occupied direct =>
      obtain ⟨p, hp, hstep⟩ := Option.bind_eq_some_iff.1 hstep
      cases p with
      | orphans main creator =>
          obtain rfl := Option.some.inj hstep
          obtain ⟨hpasses, rfl⟩ := hf.eq_single hp
          refine ⟨h.sent, h.once, fun main' creator' rest hmem => ?_⟩
          rw [Filling.setPass, hpasses, List.set_cons_zero] at hmem
          cases List.mem_singleton.1 hmem
          -- what was added has a parent
          exact ⟨orphanRooms_nodup hf.ids,
            fun r hr hadded => h.sent r hadded (mem_orphanRooms.1 hr).2.2.2.1⟩
      | _ => cases hstep
  | send i accepted =>
      obtain ⟨p, hp, hstep⟩ := Option.bind_eq_some_iff.1 hstep
      cases p with
      | adding main creator rest =>
          cases rest with
          | nil => cases hstep
          | cons room rest =>
              cases accepted with
              | true =>
                  dsimp only at hstep
                  rw [if_pos rfl] at hstep
                  obtain ⟨w, hw, hstep⟩ := Option.bind_eq_some_iff.1 hstep
                  obtain rfl := Option.some.inj hstep
                  refine h.sent_next (u := f.moved (.child main room) w) true hf hp rfl
                    (h.moved (a := .child main room) trivial hw).sent fun _ => ?_
                  obtain rfl := Option.some.inj hw
                  exact fun hno => hno (main, room) List.mem_cons_self rfl
              | false =>
                  obtain rfl := Option.some.inj hstep
                  exact h.sent_next (f := f) (u := f) false hf hp rfl h.sent nofun
      | _ => cases hstep
  | finish i =>
      obtain ⟨p, hp, hstep⟩ := Option.bind_eq_some_iff.1 hstep
      cases p with
      | adding main creator rest =>
          cases rest with
          | cons => cases hstep
          | nil =>
              obtain rfl := Option.some.inj hstep
              have hdrop := h.drop i
              exact hdrop.of_passes hdrop.sent rfl fun _ _ _ hp => hp
      | _ => cases hstep

/-- A group from before the main space: both are made, the main space is found, and a pass runs to
its end. -/
def fillRun : List FillAct :=
  ([.begin "@ann:liza" [], .check 0, .query 0 none, .resume 0, .persist 0 1, .count (.ofRequest 0),
    .begin "@ann:liza" spaceConfig, .query 1 none, .resume 1, .check 1, .query 1 none, .resume 1,
    .persist 1 2, .count (.ofRequest 1), .glance (some (.ofRequest 1)),
    .settle (some (.ofRequest 1))] : List Act).map .base ++
  [.enter, .schema 0, .flag 0, .creator 0, .orphans 0 [.ofRequest 0, .ofRequest 1] [], .send 0 true,
    .finish 0]

/-- **The flag is written when every room has had its event.**  In every run that has come to the
flag: since the last look for rooms, which is that of the pass that wrote the flag, as many events
have been sent as it found rooms, and the event of each of them was accepted or refused; and from
then on no event is sent. -/
theorem backfill_final {bs : List FillAct}
    (h : Exec (fillStep S b) (fun _ _ => True) Filling.init as f) (hdone : f.done = true)
    (h' : Exec (fillStep S b) (fun _ _ => True) f bs t) :
    (∃ l, LastLook S b as l l.length ∧ ∀ r ∈ l, r ∈ f.added ∨ r ∈ f.failed) ∧
      t.done = true ∧ t.added = f.added ∧ t.failed = f.failed := by
  refine ⟨(filled_of_run h).complete hdone, ?_⟩
  -- along the second run the first one goes on
  have hkept : (∃ cs, Exec (fillStep S b) (fun _ _ => True) Filling.init cs t) ∧ t.done = true ∧
      t.added = f.added ∧ t.failed = f.failed := by
    refine h'.invariant (I := fun u => (∃ cs, Exec (fillStep S b) (fun _ _ => True) Filling.init cs u) ∧
      u.done = true ∧ u.added = f.added ∧ u.failed = f.failed) ⟨⟨as, h⟩, hdone, rfl, rfl⟩ ?_
    rintro u a v ⟨⟨cs, hcs⟩, hu, hadded, hfailed⟩ - hstep
    obtain ⟨hv, hadded', hfailed'⟩ := (filled_of_run hcs).frozen hu hstep
    exact ⟨⟨_, hcs.snoc trivial hstep⟩, hv, hadded'.trans hadded, hfailed'.trans hfailed⟩
  exact hkept.2

/-- After a restart a pass begins again, and leaves it at the flag. -/
theorem group_not_added_again :
    ∃ f t, Exec (fillStep localServer true) (fun _ _ => True) Filling.init fillRun f ∧
      Exec (fillStep localServer true) (fun _ _ => True) f
        [.base .restart, .base (.glance (some (.ofRequest 1))),
          .base (.settle (some (.ofRequest 1))), .enter, .schema 0, .flag 0] t ∧
      t.added = f.added := by
  obtain ⟨f, hrun, hdone, hagain⟩ : ∃ f, Exec (fillStep localServer true) (fun _ _ => True)
      Filling.init fillRun f ∧ f.done = true ∧ (runs (fillStep localServer true) (fun _ _ => True) f
        [.base .restart, .base (.glance (some (.ofRequest 1))),
          .base (.settle (some (.ofRequest 1))), .enter, .schema 0, .flag 0]).isSome = true :=
    exists_exec_of_runs (by decide)
  obtain ⟨t, ht⟩ := Option.isSome_iff_exists.1 hagain
  exact ⟨f, t, hrun, exec_of_runs ht, (backfill_final hrun hdone (exec_of_runs ht)).2.2.1⟩

end Runs

end SpaceGuard
end Liza
