/-
# The main space stays the same

The id of the main space is kept in memory, and found again by the query after a restart.  The
query asks for an earliest root space, so its answer stays the same as long as nobody sends an
`m.space.child` event for the main space, in any room, the main space keeps a user of this server,
and no other root space with a creation timestamp that is not later comes to be known, be it that
the room with its last `m.space.child` event has been left (`KeepsMain`).  The invariant is that
there is at most one answer, and that whatever is kept or under way is that one (`Stable`).
Nothing in the module sees to the condition: any user can send such an event in a room of their
own, and a remote server chooses the timestamps of its spaces.
-/

import Liza.SpaceGuard.Module
import Mathlib.Data.Finset.Max

set_option autoImplicit false

namespace Liza
namespace SpaceGuard

open Lib

variable {S : Server} {w t : World} {a : Act} {r m : RoomId} {answer : Option RoomId}

/-! ### The query -/

/-- What `get_main_root_space_id` returns. -/
def World.GetMain (w : World) (answer : Option RoomId) : Prop :=
  if w.cache.isSome then answer = w.cache else w.Answer answer

instance (w : World) (answer : Option RoomId) : Decidable (w.GetMain answer) :=
  inferInstanceAs (Decidable (if w.cache.isSome then answer = w.cache else w.Answer answer))

theorem mem_rows {e : RoomId × Room} :
    e ∈ w.rows ↔ e ∈ w.rooms ∧ e.2.isSpace = true ∧ e.2.counted = true ∧ e.1 ∉ w.left ∧
      w.NoParent e.1 := by
  simp [World.rows, World.NoParent, and_assoc]

/-- The query has an answer. -/
theorem exists_answer (w : World) : ∃ answer, w.Answer answer := by
  by_cases hnil : w.rows = []
  · exact ⟨none, hnil⟩
  · obtain ⟨e, he, hmin⟩ := Finset.exists_min_image w.rows.toFinset (fun e => e.2.ts)
      (List.toFinset_nonempty_iff _ |>.2 hnil)
    exact ⟨some e.1, e, List.mem_toFinset.1 he, rfl, fun f hf => hmin f (List.mem_toFinset.2 hf)⟩

theorem rows_congr (hrooms : t.rooms = w.rooms) (hchildren : t.children = w.children)
    (hleft : t.left = w.left) : t.rows = w.rows := by
  unfold World.rows
  rw [hrooms, hchildren, hleft]

/-- A room that is not in `room_stats_state` is not found. -/
theorem rows_cons {e : RoomId × Room} (hrooms : t.rooms = e :: w.rooms)
    (hchildren : t.children = w.children) (hleft : t.left = w.left) (he : e.2.counted = false) :
    t.rows = w.rows := by
  have hrest : t.rows = ({ w with rooms := e :: w.rooms } : World).rows :=
    rows_congr hrooms hchildren hleft
  rw [hrest, World.rows, List.filter_cons_of_neg (by simp [he])]
  rfl

/-- **Only a room that comes into `room_stats_state`, an `m.space.child` event, and a room that is
left or joined again change what the query finds.** -/
theorem rows_of_moves (h : Moves S w a t) :
    t.rows = w.rows ∨ (∃ r, a = .count r) ∨ (∃ room r, a = .child room r) ∨
      (∃ room, a = .leave room) ∨ ∃ room, a = .back room := by
  obtain ⟨hrooms, hchildren, hleft⟩ | ⟨i, ts, main, q, -, -, -, rfl⟩ | ⟨r, rfl, -⟩ |
    ⟨room, r, rfl, -⟩ | ⟨n, room, -, rfl⟩ | ⟨room, rfl, -⟩ | ⟨room, rfl, -⟩ := database_of_moves h
  · exact .inl (rows_congr hrooms hchildren hleft)
  · exact .inl (rows_cons rfl rfl rfl rfl)
  · exact .inr (.inl ⟨r, rfl⟩)
  · exact .inr (.inr (.inl ⟨room, r, rfl⟩))
  · exact .inl (rows_cons rfl rfl rfl rfl)
  · exact .inr (.inr (.inr (.inl ⟨room, rfl⟩)))
  · exact .inr (.inr (.inr (.inr ⟨room, rfl⟩)))

/-! ### What is kept, and what is under way -/

/-- The answer of the lookup of a request, if it waits to be taken. -/
def Phase.given : Phase → Option (Option RoomId)
  | .answered main => some main
  | .told main => some main
  | _ => none

/-- A lookup has been answered so, and the answer is not taken yet. -/
def World.InFlight (w : World) (answer : Option RoomId) : Prop :=
  answer ∈ w.glances ∨
    ∃ (i : ℕ) (q : Request), w.requests[i]? = some q ∧ q.phase.given = some answer

theorem inFlight_congr (hglances : t.glances = w.glances) (hrequests : t.requests = w.requests) :
    t.InFlight answer ↔ w.InFlight answer := by
  rw [World.InFlight, World.InFlight, hglances, hrequests]

theorem inFlight_setPhase {i : ℕ} {q : Request} {phase : Phase} (hq : w.requests[i]? = some q)
    (h : (w.setPhase i q phase).InFlight answer) :
    w.InFlight answer ∨ phase.given = some answer := by
  rcases h with h | ⟨j, q', hq', h⟩
  · exact .inl (.inl h)
  · rw [getElem?_setPhase hq] at hq'
    split at hq'
    · obtain rfl := Option.some.inj hq'
      exact .inr h
    · exact .inl (.inr ⟨j, q', hq', h⟩)

theorem given_nextPhase {i : ℕ} {q : Request} {marked : Bool} {main : Option RoomId} :
    (nextPhase S i q marked main).given = none := by
  cases main with
  | none => rfl
  | some m =>
      simp only [nextPhase]
      split <;> rfl

theorem given_startPhase {config : Dict} : (w.startPhase config).given = none := by
  unfold World.startPhase
  split
  · rfl
  · rfl
  · split <;> rfl

/-- **A new answer is one of the query.** -/
theorem inFlight_of_moves (h : Moves S w a t) (ht : t.InFlight answer) :
    w.InFlight answer ∨ w.Answer answer := by
  -- A request that gets to a point without an answer brings none.
  have hset : ∀ {u : World} {i : ℕ} {q : Request} {phase : Phase}, u.InFlight answer →
      u.glances = w.glances → u.requests = (w.setPhase i q phase).requests →
      w.requests[i]? = some q → phase.given = none → w.InFlight answer := by
    intro u i q phase hin hglances hrequests hq hnone
    have hin' := (inFlight_congr (w := w.setPhase i q phase) hglances hrequests).1 hin
    refine (inFlight_setPhase hq hin').resolve_right fun heq => ?_
    rw [hnone] at heq
    cases heq
  cases h with
  | begin user config =>
      rcases ht with ht | ⟨j, q, hq, hgiven⟩
      · exact .inl (.inl ht)
      · rw [getElem?_onCreateRoom] at hq
        split at hq
        · obtain rfl := Option.some.inj hq
          rw [given_startPhase] at hgiven
          cases hgiven
        · exact .inl (.inr ⟨j, q, hq, hgiven⟩)
  | ask hq hphase hanswer =>
      rcases inFlight_setPhase hq ht with hin | heq
      · exact .inl hin
      · exact .inr (Option.some.inj heq ▸ hanswer)
  | tell hq hphase hanswer =>
      rcases inFlight_setPhase hq ht with hin | heq
      · exact .inl hin
      · exact .inr (Option.some.inj heq ▸ hanswer)
  | refuse hq hphase => exact .inl (hset ht rfl rfl hq rfl)
  | allow hq hphase => exact .inl (hset ht rfl rfl hq rfl)
  | take hq hphase =>
      rw [takeMark_eq, remember_eq] at ht
      exact .inl (hset ht rfl rfl hq given_nextPhase)
  | reject hq hphase => exact .inl (hset ht rfl rfl hq rfl)
  | check hq hphase hcache => exact .inl (hset ht rfl rfl hq rfl)
  | checkCached hq hphase hcache =>
      rw [takeMark_eq] at ht
      exact .inl (hset ht rfl rfl hq given_nextPhase)
  | creator hq hphase => exact .inl (hset ht rfl rfl hq rfl)
  | persist hq hphase => exact .inl (hset ht rfl rfl hq rfl)
  | count r => exact .inl ht
  | child room r => exact .inl ht
  | join hnew => exact .inl ht
  | leave hthere => exact .inl ht
  | back hleft => exact .inl ht
  | glance hanswer =>
      rcases ht with ht | ht
      · rcases List.mem_cons.1 ht with rfl | ht
        · exact .inr hanswer
        · exact .inl (.inl ht)
      · exact .inl (.inr ht)
  | settle hanswer =>
      rw [remember_eq] at ht
      rcases ht with ht | ht
      · exact .inl (.inl (List.mem_of_mem_erase ht))
      · exact .inl (.inr ht)
  | restart =>
      rcases ht with ht | ⟨j, q, hq, hgiven⟩
      · exact absurd ht List.not_mem_nil
      · rw [getElem?_restarted] at hq
        obtain ⟨q', hq', rfl⟩ := Option.map_eq_some_iff.1 hq
        refine .inl (.inr ⟨j, q', hq', ?_⟩)
        rw [Request.dropped] at hgiven
        split at hgiven
        · exact hgiven
        · cases hgiven

/-- **What is kept was an answer.** -/
theorem cache_of_moves (h : Moves S w a t) (ht : t.cache = some r) :
    w.cache = some r ∨ w.InFlight (some r) := by
  have htaken : ∀ main : Option RoomId, w.InFlight main → main.or w.cache = some r →
      w.cache = some r ∨ w.InFlight (some r) := by
    intro main hin hor
    cases main with
    | none => exact .inl hor
    | some m => exact .inr (hor ▸ hin)
  cases h with
  | refuse hq hphase =>
      rw [remember_eq] at ht
      exact htaken (some _) (.inr ⟨_, _, hq, by rw [hphase]; rfl⟩) ht
  | take hq hphase =>
      rw [takeMark_eq, remember_eq] at ht
      exact htaken _ (.inr ⟨_, _, hq, by rw [hphase]; rfl⟩) ht
  | checkCached hq hphase hcache =>
      rw [takeMark_eq] at ht
      exact .inl ht
  | settle hanswer =>
      rw [remember_eq] at ht
      exact htaken _ (.inl hanswer) ht
  | restart => cases ht
  | _ => exact .inl ht

/-! ### The condition and the invariant -/

/-- What the query finds in `t` was found before, or there was a root space that is earlier. -/
def World.NoEarlier (w t : World) : Prop :=
  ∀ e ∈ t.rows, e ∈ w.rows ∨ ∃ f ∈ w.rows, f.2.ts < e.2.ts

instance (w t : World) : Decidable (w.NoEarlier t) :=
  inferInstanceAs (Decidable (∀ e ∈ t.rows, e ∈ w.rows ∨ ∃ f ∈ w.rows, f.2.ts < e.2.ts))

/-- The step sends no `m.space.child` event for the main space, does not leave it, and makes no
other root space known that is not later than it. -/
def KeepsMain (w : World) : Act → Prop
  | .child _ r => ¬w.Answer (some r)
  | .count r => ∀ e ∈ w.rooms, e.1 = r → e.2.isSpace = true → e.2.counted = false → w.NoParent r →
      w.rows = [] ∨ ∃ f ∈ w.rows, f.2.ts < e.2.ts
  | .leave room => ¬w.Answer (some room) ∧ w.NoEarlier (w.leaveRoom room)
  | .back room => w.NoEarlier (w.backRoom room)
  | _ => True

instance (w : World) : (a : Act) → Decidable (KeepsMain w a)
  | .child _ r => inferInstanceAs (Decidable (¬w.Answer (some r)))
  | .count r => inferInstanceAs (Decidable (∀ e ∈ w.rooms, e.1 = r → e.2.isSpace = true →
      e.2.counted = false → w.NoParent r → w.rows = [] ∨ ∃ f ∈ w.rows, f.2.ts < e.2.ts))
  | .leave room => inferInstanceAs
      (Decidable (¬w.Answer (some room) ∧ w.NoEarlier (w.leaveRoom room)))
  | .back room => inferInstanceAs (Decidable (w.NoEarlier (w.backRoom room)))
  | .begin .. => .isTrue trivial
  | .query .. => .isTrue trivial
  | .resume _ => .isTrue trivial
  | .reject _ => .isTrue trivial
  | .check _ => .isTrue trivial
  | .creator _ => .isTrue trivial
  | .persist .. => .isTrue trivial
  | .join .. => .isTrue trivial
  | .glance _ => .isTrue trivial
  | .settle _ => .isTrue trivial
  | .restart => .isTrue trivial

/-- What a row of the new state was. -/
theorem row_of_moves (h : Moves S w a t) (hkeeps : KeepsMain w a) {e : RoomId × Room}
    (he : e ∈ t.rows) :
    e ∈ w.rows ∨ (a = .count e.1 ∧ w.rows = []) ∨ ∃ f ∈ w.rows, f.2.ts < e.2.ts := by
  obtain hsame | ⟨r, rfl⟩ | ⟨room, r, rfl⟩ | ⟨room, rfl⟩ | ⟨room, rfl⟩ := rows_of_moves h
  · exact .inl (hsame ▸ he)
  · cases h
    obtain ⟨hmem, hspace, hcounted, hleft, hparent⟩ := mem_rows.1 he
    obtain ⟨f, hf, heq⟩ := List.mem_map.1 hmem
    split at heq
    · rename_i hr
      subst heq
      dsimp only at hspace hcounted hleft hparent ⊢
      cases hfc : f.2.counted with
      | true =>
          have hsame : (f.1, ({ f.2 with counted := true } : Room)) = f := by
            rw [← hfc]
          rw [hsame]
          exact .inl (mem_rows.2 ⟨hf, hspace, hfc, hleft, hparent⟩)
      | false =>
          refine .inr ((hkeeps f hf hr hspace hfc (hr ▸ hparent)).imp_left fun hnil => ⟨?_, hnil⟩)
          rw [hr]
    · subst heq
      exact .inl (mem_rows.2 ⟨hf, hspace, hcounted, hleft, hparent⟩)
  · cases h
    obtain ⟨hmem, hspace, hcounted, hleft, hparent⟩ := mem_rows.1 he
    exact .inl (mem_rows.2
      ⟨hmem, hspace, hcounted, hleft, fun c hc => hparent c (List.mem_cons_of_mem _ hc)⟩)
  · cases h
    exact (hkeeps.2 e he).imp_right .inr
  · cases h
    exact (hkeeps e he).imp_right .inr

/-- A row stays one, unless it gets a parent or is left. -/
theorem mem_rows_of_moves (h : Moves S w a t) {e : RoomId × Room} (he : e ∈ w.rows)
    (hchild : ∀ room, a ≠ .child room e.1) (hleave : a ≠ .leave e.1) : e ∈ t.rows := by
  obtain ⟨hmem, hspace, hcounted, hleft, hparent⟩ := mem_rows.1 he
  obtain hsame | ⟨r, rfl⟩ | ⟨room, r, rfl⟩ | ⟨room, rfl⟩ | ⟨room, rfl⟩ := rows_of_moves h
  · exact hsame ▸ he
  · cases h
    refine mem_rows.2 ⟨List.mem_map.2 ⟨e, hmem, ?_⟩, hspace, hcounted, hleft, hparent⟩
    split
    · rw [← hcounted]
    · rfl
  · cases h
    refine mem_rows.2 ⟨hmem, hspace, hcounted, hleft, fun c hc => ?_⟩
    rcases List.mem_cons.1 hc with rfl | hc
    · exact fun heq => hchild room (heq ▸ rfl)
    · exact hparent c hc
  · cases h
    refine mem_rows.2 ⟨hmem, hspace, hcounted, fun hmem => ?_,
      fun c hc => hparent c (List.mem_of_mem_filter hc)⟩
    rcases List.mem_cons.1 hmem with rfl | hmem
    · exact hleave rfl
    · exact hleft hmem
  · cases h
    exact mem_rows.2 ⟨hmem, hspace, hcounted, fun hmem => hleft (List.mem_of_mem_filter hmem),
      hparent⟩

/-- **The main space stays the answer of the query.** -/
theorem answer_of_moves (h : Moves S w a t) (hkeeps : KeepsMain w a)
    (hm : w.Answer (some m)) : t.Answer (some m) := by
  obtain ⟨e, he, rfl, hmin⟩ := hm
  refine ⟨e, mem_rows_of_moves h he ?_ ?_, rfl, fun f hf => ?_⟩
  · rintro room rfl
    exact hkeeps ⟨e, he, rfl, hmin⟩
  · rintro rfl
    exact hkeeps.1 ⟨e, he, rfl, hmin⟩
  · obtain hold | ⟨-, hnil⟩ | ⟨g, hg, hlt⟩ := row_of_moves h hkeeps hf
    · exact hmin f hold
    · rw [hnil] at he
      exact absurd he List.not_mem_nil
    · have := hmin g hg
      omega

/-- There is at most one main space, and it is the one that is kept, or will be. -/
structure Stable (w : World) : Prop where
  unique : ∀ r r', w.Answer (some r) → w.Answer (some r') → r = r'
  held : ∀ r, w.cache = some r ∨ w.InFlight (some r) → w.Answer (some r)

/-- **One step keeps it so.** -/
theorem Stable.moves (hs : Stable w) (h : Moves S w a t) (hkeeps : KeepsMain w a) : Stable t := by
  refine ⟨fun r r' hr hr' => ?_, fun r hr => ?_⟩
  · by_cases hnone : w.rows = []
    · -- All rows are of the room that has come into `room_stats_state`.
      obtain ⟨e, he, rfl, -⟩ := hr
      obtain ⟨e', he', rfl, -⟩ := hr'
      have hnew : ∀ f ∈ t.rows, a = .count f.1 := fun f hf => by
        obtain hold | ⟨hcount, -⟩ | ⟨g, hg, -⟩ := row_of_moves h hkeeps hf
        · rw [hnone] at hold
          exact absurd hold List.not_mem_nil
        · exact hcount
        · rw [hnone] at hg
          exact absurd hg List.not_mem_nil
      have hcount := (hnew e he).symm.trans (hnew e' he')
      exact Act.count.inj hcount
    · -- The old main space is the only one that is early enough.
      obtain ⟨answer, hanswer⟩ := exists_answer w
      cases answer with
      | none => exact absurd hanswer hnone
      | some m =>
          have honly : ∀ s, t.Answer (some s) → s = m := by
            rintro s ⟨e, he, rfl, hmin⟩
            obtain ⟨g, hg, rfl, hgmin⟩ := hanswer
            have hstays : g ∈ t.rows := by
              refine mem_rows_of_moves h hg (fun room heq => ?_) fun heq => ?_
              · subst heq
                exact hkeeps ⟨g, hg, rfl, hgmin⟩
              · subst heq
                exact hkeeps.1 ⟨g, hg, rfl, hgmin⟩
            have hle := hmin g hstays
            obtain hold | ⟨-, hnil⟩ | ⟨f, hf, hlt⟩ := row_of_moves h hkeeps he
            · exact hs.unique _ _ ⟨e, hold, rfl, fun f hf => hle.trans (hgmin f hf)⟩
                ⟨g, hg, rfl, hgmin⟩
            · exact absurd hnil hnone
            · have := hgmin f hf
              omega
          rw [honly r hr, honly r' hr']
  · rcases hr with hr | hr
    · exact answer_of_moves h hkeeps (hs.held r (cache_of_moves h hr))
    · rcases inFlight_of_moves h hr with hin | hanswer
      · exact answer_of_moves h hkeeps (hs.held r (.inr hin))
      · exact answer_of_moves h hkeeps hanswer

theorem stable_init : Stable World.init := by
  refine ⟨fun r r' hr _ => ?_, fun r hr => ?_⟩
  · obtain ⟨e, he, -⟩ := hr
    exact absurd he List.not_mem_nil
  · rcases hr with hr | hr | ⟨i, q, hq, -⟩
    · cases hr
    · exact absurd hr List.not_mem_nil
    · simp [World.init] at hq

/-! ### Runs -/

/-- **The main space stays the same.**  In a run whose steps keep the main space, once
`get_main_root_space_id` has returned a room it returns that room ever after, and leaving it and
being banned from it stay forbidden. -/
theorem main_space_stable {as bs : List Act} (h₁ : Exec (step S) KeepsMain World.init as w)
    (hmain : w.GetMain (some m)) (h₂ : Exec (step S) KeepsMain w bs t) :
    (∃ answer, t.GetMain answer) ∧ ∀ answer, t.GetMain answer → answer = some m ∧
      ∀ membership ∈ [Json.str "leave", Json.str "ban"],
        isProtectedMembershipChange "m.room.member" membership m answer = true := by
  have hw : Stable w := h₁.invariant stable_init fun _ _ _ hs hkeeps hstep =>
    hs.moves (moves_of_step hstep) hkeeps
  have hanswer : w.Answer (some m) := by
    unfold World.GetMain at hmain
    split at hmain
    · exact hw.held m (.inl hmain.symm)
    · exact hmain
  obtain ⟨ht, hanswer'⟩ : Stable t ∧ t.Answer (some m) :=
    h₂.invariant (I := fun u => Stable u ∧ u.Answer (some m)) ⟨hw, hanswer⟩
      fun _ _ _ hs hkeeps hstep => ⟨hs.1.moves (moves_of_step hstep) hkeeps,
        answer_of_moves (moves_of_step hstep) hkeeps hs.2⟩
  have honly : ∀ answer, t.GetMain answer → answer = some m := by
    intro answer hget
    unfold World.GetMain at hget
    split at hget
    · rename_i hsome
      obtain ⟨r, hcache⟩ := Option.isSome_iff_exists.1 hsome
      rw [hget, hcache, ht.unique r m (ht.held r (.inl hcache)) hanswer']
    · cases answer with
      | none =>
          obtain ⟨e, he, -⟩ := hanswer'
          rw [show t.rows = [] from hget] at he
          exact absurd he List.not_mem_nil
      | some r => rw [ht.unique r m hget hanswer']
  refine ⟨?_, fun answer hget => ⟨honly answer hget, fun membership hmembership => ?_⟩⟩
  · by_cases hcache : t.cache.isSome
    · exact ⟨t.cache, by rw [World.GetMain, if_pos hcache]⟩
    · exact ⟨some m, by rw [World.GetMain, if_neg hcache]; exact hanswer'⟩
  · rw [honly answer hget]
    simp only [List.mem_cons, List.not_mem_nil, or_false] at hmembership
    simpa [isProtectedMembershipChange] using hmembership

/-- The requests of two local users. -/
def localServer : Server := ⟨fun _ => true, true⟩

/-- A request for a space. -/
def spaceConfig : Dict := [("creation_content", .obj [("type", .str "m.space")])]

/-- Alice creates the main space, and it comes to be known. -/
def makeMain : List Act :=
  [.begin "@alice:liza.ru" spaceConfig, .query 0 none, .resume 0, .check 0, .query 0 none,
    .resume 0, .persist 0 1, .count (.ofRequest 0)]

/-- The state after that. -/
def mainWorld : World where
  rooms := [(.ofRequest 0, ⟨true, "@alice:liza.ru", 1, true⟩)]
  children := []
  left := []
  cache := none
  pendingDmSenders := []
  requests := [⟨"@alice:liza.ru", spaceConfig, .created none⟩]
  glances := []
  jobs := []

/-- Bob creates a room, and Synapse is restarted. -/
theorem main_space_stable_over_restart :
    ∃ t, Exec (step localServer) KeepsMain mainWorld
        [.glance (some (.ofRequest 0)), .settle (some (.ofRequest 0)), .begin "@bob:liza.ru" [],
          .check 1, .creator 1, .persist 1 2, .restart] t ∧
      ∀ answer, t.GetMain answer → answer = some (.ofRequest 0) := by
  have h₁ : Exec (step localServer) KeepsMain World.init makeMain mainWorld :=
    exec_of_runs (by decide)
  obtain ⟨t, h₂, -⟩ := exists_exec_of_runs (f := step localServer) (C := KeepsMain) (s := mainWorld)
    (l := [.glance (some (.ofRequest 0)), .settle (some (.ofRequest 0)), .begin "@bob:liza.ru" [],
      .check 1, .creator 1, .persist 1 2, .restart]) (p := fun t => t.cache = none)
    (by decide)
  exact ⟨t, h₂, fun answer hget => ((main_space_stable h₁ (by decide) h₂).2 answer hget).1⟩

/-- Bob sends an `m.space.child` event for the main space in a room of his own: after a restart
there is no main space, and everyone can leave it. -/
theorem main_space_lost :
    ∃ t, Exec (step localServer) (fun _ _ => True) World.init makeMain mainWorld ∧
      mainWorld.GetMain (some (.ofRequest 0)) ∧
      Exec (step localServer) (fun _ _ => True) mainWorld
        [.begin "@bob:liza.ru" [], .check 1, .query 1 (some (.ofRequest 0)), .resume 1, .creator 1,
          .persist 1 2, .child (.ofRequest 1) (.ofRequest 0), .restart] t ∧
      t.GetMain none ∧
      isProtectedMembershipChange "m.room.member" (.str "leave") (.ofRequest 0) none = false := by
  obtain ⟨t, h₂, hget⟩ := exists_exec_of_runs (f := step localServer) (C := fun _ _ => True)
    (s := mainWorld)
    (l := [.begin "@bob:liza.ru" [], .check 1, .query 1 (some (.ofRequest 0)), .resume 1, .creator 1,
      .persist 1 2, .child (.ofRequest 1) (.ofRequest 0), .restart]) (p := fun t => t.GetMain none)
    (by decide)
  exact ⟨t, exec_of_runs (by decide), by decide, h₂, hget, rfl⟩

end SpaceGuard
end Liza
