/-
# The cache of the catalog and the order of its reloads

Every call of `RoleCatalog` that writes the table then reloads the cache: it selects the rows
and, after an await, assigns them.  Two calls that overlap may assign their rows in the other
order than they selected them, and the older rows then stay until the next write.

The versions of the table are counted by its writes.  A run is in order if no rows are assigned
while newer ones are in the cache (`InOrder`).  In such a run the cache of a catalog at rest is
the table, and a call that has returned leaves a cache that has its own write
(`cache_at_rest`).  The threads stand at five points; `Fits` says how the version that a thread
has written and the one it has selected stand to those of the table and of the cache at each.
-/

import Liza.UserRoles.Module
import Liza.Lib.Points

set_option autoImplicit false

namespace Liza
namespace UserRoles
namespace CacheOrder

open Lib Synapse
open Lib.System (Idle Located Starts)

/-! ### Calls of one catalog -/

/-- A call of `RoleCatalog`. -/
inductive Call where
  | listAll
  | enrich (code : Option PyStr)
  | add (role : Role)
  | patch (code : PyStr) (displayName color : Option PyStr) (clearColor : Bool)
  | delete (code : PyStr)
  | reload

/-- Its code; `enrich` of `None` returns at once. -/
def Call.code : Call → Code Unit
  | .listAll => UserRoles.listAll >>= fun _ => .ret ()
  | .enrich none => .ret ()
  | .enrich (some code) => UserRoles.enrich code >>= fun _ => .ret ()
  | .add role => UserRoles.add role
  | .patch code displayName color clearColor =>
      UserRoles.patch code displayName color clearColor >>= fun _ => .ret ()
  | .delete code => UserRoles.delete code >>= fun _ => .ret ()
  | .reload => UserRoles.reload

/-- Calls arrive, and every interaction with the database completes. -/
def system : System World Call Unit Call Op Res where
  code := Call.code
  arrive := fun w call => (w, [call])
  drops := fun _ => false
  perform := fun w op _ => ((complete w op).1, (complete w op).2, [])

/-- A state of the catalog. -/
abbrev State := Loop World Call Call Op Res

/-- A move. -/
abbrev Act := Move Call Unit

/-- An entry of the log. -/
abbrev LogEntry := Entry World Call Op Res

/-- No call has been made yet. -/
def start (w : World) : State := ⟨w, [], [], []⟩

/-! ### Versions of the table -/

/-- The operation has written the table. -/
def writes : Done Op Res → Bool
  | ⟨.insertRole _, some _⟩ => true
  | ⟨.patchRole _ _ _ _, some true⟩ => true
  | ⟨.deleteRole _, some true⟩ => true
  | _ => false

/-- The version of the table: the number of its writes. -/
def version (log : List LogEntry) : ℕ := log.countP fun e => writes e.done

/-- The version that a thread has selected last. -/
def selected (i : ℕ) : List LogEntry → ℕ
  | [] => 0
  | e :: log =>
      match e.done.op with
      | .selectRoles => if e.thread = i then version log else selected i log
      | _ => selected i log

/-- The version that a thread has written last, 0 if it has written none. -/
def written (i : ℕ) : List LogEntry → ℕ
  | [] => 0
  | e :: log => if e.thread = i ∧ writes e.done then version log + 1 else written i log

/-- The version in the cache, if it has been loaded. -/
def cached : List LogEntry → Option ℕ
  | [] => none
  | e :: log =>
      match e.done.op with
      | .setCache _ => some (selected e.thread log)
      | _ => cached log

/-- Rows are assigned only while no newer ones are in the cache. -/
def InOrder (s : State) : Act → Bool
  | .event _ => true
  | .step i _ =>
      match s.threads[i]? with
      | some ⟨_, _, .await (.setCache _) _⟩ => (cached s.log).getD 0 ≤ selected i s.log
      | _ => true

/-- At rest the cache was never loaded or is the table; and a call that has returned leaves a
cache that is at least as new as its own write. -/
def Current (s : State) : Prop :=
  (Idle s → cached s.log = none ∨ s.world.cache = s.world.catalog) ∧
    ∀ i u, s.threads[i]? = some u → u.rest.Ended → written i s.log ≤ (cached s.log).getD 0

/-! ### What an operation does -/

section Operations

variable {w : World} {op : Op} {i l : ℕ} {e : LogEntry} {log : List LogEntry}

/-- Only a write changes the table. -/
theorem catalog_of_not_writes (h : writes ⟨op, (complete w op).2⟩ = false) :
    (complete w op).1.catalog = w.catalog := by
  cases op with
  | insertRole role =>
      simp only [complete] at h ⊢
      split
      · rename_i hfree
        rw [if_pos hfree] at h
        cases h
      · rfl
  | patchRole code displayName color clearColor =>
      simp only [complete] at h ⊢
      by_cases hhas : w.has code = true
      · rw [if_pos hhas] at h ⊢
        split
        · rename_i hall
          rw [if_pos hall] at h
          cases h
        · rfl
      · rw [if_neg hhas]
  | deleteRole code =>
      -- no row has the code, so none is dropped
      have hno : w.has code = false := by
        simp only [complete] at h
        cases hhas : w.has code with
        | false => rfl
        | true =>
            rw [hhas] at h
            cases h
      simp only [complete]
      rw [List.filter_eq_self]
      intro r hr
      have := List.any_eq_false.1 hno r hr
      simpa using this
  | putGlobal user content =>
      simp only [complete]
      split <;> rfl
  | removeAccountData user =>
      simp only [complete]
      split <;> rfl
  | _ => rfl

/-- Only `setCache` changes the cache. -/
theorem cache_of_ne_setCache (h : ∀ rows, op ≠ .setCache rows) :
    (complete w op).1.cache = w.cache := by
  cases op with
  | insertRole role =>
      simp only [complete]
      split <;> rfl
  | patchRole code displayName color clearColor =>
      simp only [complete]
      split
      · split <;> rfl
      · rfl
  | setCache rows => exact absurd rfl (h rows)
  | putGlobal user content =>
      simp only [complete]
      split <;> rfl
  | removeAccountData user =>
      simp only [complete]
      split <;> rfl
  | _ => rfl

theorem version_cons (e : LogEntry) (log : List LogEntry) :
    version (e :: log) = version log + if writes e.done then 1 else 0 := by
  simp [version, List.countP_cons]

theorem selected_cons_of_ne (h : e.thread ≠ l) : selected l (e :: log) = selected l log := by
  simp only [selected]
  split
  · rw [if_neg h]
  · rfl

theorem written_cons_of_ne (h : e.thread ≠ l) : written l (e :: log) = written l log := by
  rw [written, if_neg fun hc => h hc.1]

theorem written_cons_of_not_writes (h : writes e.done = false) :
    written l (e :: log) = written l log := by
  rw [written, if_neg fun hc => by simp [h] at hc]

theorem cached_cons_of_ne (h : ∀ rows, e.done.op ≠ .setCache rows) :
    cached (e :: log) = cached log := by
  rw [cached]
  split
  · rename_i rows hop
    exact absurd hop (h rows)
  · rfl

/-- A thread that has done nothing has written nothing. -/
theorem written_of_fresh (h : ∀ e ∈ log, e.thread ≠ l) : written l log = 0 := by
  induction log with
  | nil => rfl
  | cons e log ih =>
      rw [written_cons_of_ne (h e List.mem_cons_self)]
      exact ih fun e he => h e (List.mem_cons_of_mem _ he)

/-- No thread has written a version that is not there yet. -/
theorem written_le (l : ℕ) (log : List LogEntry) : written l log ≤ version log := by
  induction log with
  | nil => exact Nat.le_refl 0
  | cons e log ih =>
      rw [written, version_cons]
      split
      · rename_i hw
        rw [if_pos hw.2]
      · omega

/-- The latest version is that of some thread. -/
theorem exists_written (h : version log ≠ 0) : ∃ e ∈ log, written e.thread log = version log := by
  induction log with
  | nil => exact absurd rfl h
  | cons e log ih =>
      by_cases hw : writes e.done = true
      · refine ⟨e, List.mem_cons_self, ?_⟩
        rw [written, if_pos ⟨rfl, hw⟩, version_cons, if_pos hw]
      · rw [version_cons, if_neg hw] at h ⊢
        obtain ⟨e', he', hlast⟩ := ih h
        refine ⟨e', List.mem_cons_of_mem _ he', ?_⟩
        rw [written_cons_of_not_writes (by simpa using hw), hlast, Nat.add_zero]

end Operations

/-! ### Where a call stands -/

/-- Where a call stands: before its first read of the cache, before its write, before it
selects the rows, before it assigns them, or with at most a read of the cache left. -/
inductive Point where
  | look
  | write
  | select
  | assign (rows : List Role)
  | done

/-- The operation reads the cache. -/
def reads : Op → Bool
  | .cached _ => true
  | .cachedRows => true
  | _ => false

/-- The operation is a write of the table. -/
def isWrite : Op → Bool
  | .insertRole _ => true
  | .patchRole _ _ _ _ => true
  | .deleteRole _ => true
  | _ => false

/-- At most a read of the cache is left. -/
def Final : Code Unit → Prop
  | .await op k => reads op = true ∧ ∀ r, (k r).Ended
  | _ => True

/-- The rows are assigned next. -/
def Assigns (rows : List Role) (t : Code Unit) : Prop :=
  ∃ k, t = .await (.setCache rows) k ∧ Final (k (some ()))

/-- The cache is reloaded next. -/
def Reloads (t : Code Unit) : Prop :=
  ∃ k, t = .await .selectRoles k ∧ ∀ rows, Assigns rows (k (some rows))

/-- What is left of the code at a point. -/
def At : Point → Code Unit → Prop
  | .look, t => ∃ op k, t = .await op k ∧ reads op = true ∧ ∀ r, Reloads (k r) ∨ Final (k r)
  | .write, t => ∃ op k, t = .await op k ∧ isWrite op = true ∧
      ∀ r, if writes ⟨op, r⟩ then Reloads (k r) else Final (k r)
  | .select, t => Reloads t
  | .assign rows, t => Assigns rows t
  | .done, t => Final t

/-- The first point of a call. -/
def Call.first : Call → Point
  | .listAll => .look
  | .enrich none => .done
  | .enrich (some _) => .look
  | .reload => .select
  | _ => .write

/-- A task that has ended has nothing left. -/
theorem final_of_ended {t : Code Unit} (h : t.Ended) : Final t := by
  cases t with
  | ret a => exact trivial
  | raised => exact trivial
  | await op k => exact h.elim

/-- **Every call starts at its first point.** -/
theorem at_first (c : Call) : At c.first c.code := by
  cases c with
  | listAll =>
      refine ⟨.cachedRows, _, rfl, rfl, fun r => ?_⟩
      cases r with
      | none => exact .inr trivial
      | some rows =>
          show Reloads (Lib.Task.bind (if rows = [] then _ else _) _) ∨
            Final (Lib.Task.bind (if rows = [] then _ else _) _)
          by_cases hrows : rows = []
          · rw [if_pos hrows]
            refine .inl ⟨_, rfl, fun _ => ⟨_, rfl, rfl, fun r => ?_⟩⟩
            cases r <;> exact trivial
          · rw [if_neg hrows]
            exact .inr trivial
  | enrich code =>
      cases code with
      | none => exact trivial
      | some code =>
          refine ⟨.cached code, _, rfl, rfl, fun r => ?_⟩
          rcases r with _ | _ | row
          · exact .inr trivial
          · refine .inl ⟨_, rfl, fun _ => ⟨_, rfl, rfl, fun r => ?_⟩⟩
            cases r <;> exact trivial
          · exact .inr trivial
  | add role =>
      refine ⟨.insertRole role, _, rfl, rfl, fun r => ?_⟩
      cases r with
      | none => exact trivial
      | some u => exact ⟨_, rfl, fun _ => ⟨_, rfl, trivial⟩⟩
  | patch code displayName color clearColor =>
      refine ⟨.patchRole code displayName color clearColor, _, rfl, rfl, fun r => ?_⟩
      rcases r with _ | _ | _
      · exact trivial
      · exact trivial
      · exact ⟨_, rfl, fun _ => ⟨_, rfl, trivial⟩⟩
  | delete code =>
      refine ⟨.deleteRole code, _, rfl, rfl, fun r => ?_⟩
      rcases r with _ | _ | _
      · exact trivial
      · exact trivial
      · exact ⟨_, rfl, fun _ => ⟨_, rfl, trivial⟩⟩
  | reload => exact ⟨_, rfl, fun _ => ⟨_, rfl, trivial⟩⟩

/-- How the versions of a thread stand to those of the table and of the cache. -/
def Fits (s : State) (i : ℕ) : Point → Prop
  | .look => written i s.log = 0
  | .write => written i s.log = 0
  | .select => True
  | .assign rows => written i s.log ≤ selected i s.log ∧ selected i s.log ≤ version s.log ∧
      (selected i s.log = version s.log → rows = s.world.catalog)
  | .done => written i s.log ≤ (cached s.log).getD 0

/-- What holds in every state of a run in order. -/
structure Inv (ps : List Point) (s : State) : Prop where
  cache : ∀ v, cached s.log = some v →
    v ≤ version s.log ∧ (v = version s.log → s.world.cache = s.world.catalog)
  points : ∀ i p, ps[i]? = some p → Fits s i p
  threads : ∀ e ∈ s.log, e.thread < ps.length

section Step

variable {ps : List Point} {s t : State} {i l o : ℕ} {job : Call} {op : Op} {p q : Point}
  {k : Option (Res op) → Code Unit} {e : LogEntry}

/-- The entry that a thread logs. -/
def entry (s : State) (i o : ℕ) (job : Call) (op : Op) : LogEntry :=
  ⟨i, o, job, s.world, ⟨op, (complete s.world op).2⟩⟩

/-- The state after an operation. -/
def after (s : State) (i o : ℕ) (job : Call) (op : Op) (k : Option (Res op) → Code Unit) : State :=
  { s with
    world := (complete s.world op).1
    threads := s.threads.set i ⟨o, job, k (complete s.world op).2⟩ ++ []
    log := entry s i o job op :: s.log }

/-- What a point needs to be kept by the operation of another thread. -/
theorem Fits.other (hne : i ≠ l)
    (hcache : (cached s.log).getD 0 ≤ (cached (entry s i o job op :: s.log)).getD 0)
    (h : Fits s l p) : Fits (after s i o job op k) l p := by
  have hwritten : written l (entry s i o job op :: s.log) = written l s.log := written_cons_of_ne hne
  have hselected : selected l (entry s i o job op :: s.log) = selected l s.log :=
    selected_cons_of_ne hne
  cases p with
  | look => exact hwritten.trans h
  | write => exact hwritten.trans h
  | select => exact trivial
  | assign rows =>
      obtain ⟨hle, hlt, hrows⟩ := h
      have hversion := version_cons (entry s i o job op) s.log
      show written l _ ≤ selected l _ ∧ selected l _ ≤ version _ ∧ (selected l _ = version _ → _)
      rw [after, hwritten, hselected, hversion]
      by_cases hw : writes (entry s i o job op).done = true
      · rw [if_pos hw]
        exact ⟨hle, by omega, fun heq => by omega⟩
      · rw [if_neg hw]
        refine ⟨hle, by omega, fun heq => ?_⟩
        rw [hrows (by omega), catalog_of_not_writes (by simpa [entry] using hw)]
  | done =>
      show written l _ ≤ _
      rw [after, hwritten]
      exact h.trans hcache

/-- The points of the others stay, so only that of the thread and the cache have to be looked at. -/
theorem Inv.move (hs : Inv ps s) (hp : ps[i]? = some p) (hq : Fits (after s i o job op k) i q)
    (hmono : (cached s.log).getD 0 ≤ (cached (entry s i o job op :: s.log)).getD 0)
    (hcache : ∀ v, cached (entry s i o job op :: s.log) = some v →
      v ≤ version (entry s i o job op :: s.log) ∧ (v = version (entry s i o job op :: s.log) →
        (complete s.world op).1.cache = (complete s.world op).1.catalog)) :
    Inv (ps.set i q ++ []) (after s i o job op k) := by
  have hlt : i < ps.length := (List.getElem?_eq_some_iff.1 hp).1
  refine ⟨hcache, fun l p' hp' => ?_, fun e he => ?_⟩
  · rcases getElem?_moved hp' with ⟨rfl, rfl⟩ | ⟨hne, hl⟩ | hnew
    · exact hq
    · exact (hs.points l p' hl).other (Ne.symm hne) hmono
    · cases hnew
  · rw [List.append_nil, List.length_set]
    rcases List.mem_cons.1 he with rfl | he
    · exact hlt
    · exact hs.threads e he

/-- An operation that does not assign the cache leaves it as new as it was. -/
theorem Inv.move_of_ne (hs : Inv ps s) (hp : ps[i]? = some p) (hne : ∀ rows, op ≠ .setCache rows)
    (hq : Fits (after s i o job op k) i q) : Inv (ps.set i q ++ []) (after s i o job op k) := by
  have hcached : cached (entry s i o job op :: s.log) = cached s.log := cached_cons_of_ne hne
  refine hs.move hp hq (by rw [hcached]) fun v hv => ?_
  obtain ⟨hle, hcache⟩ := hs.cache v (hcached ▸ hv)
  rw [version_cons]
  by_cases hw : writes (entry s i o job op).done = true
  · rw [if_pos hw]
    exact ⟨by omega, fun heq => by omega⟩
  · rw [if_neg hw]
    refine ⟨hle, fun heq => ?_⟩
    rw [cache_of_ne_setCache hne, catalog_of_not_writes (by simpa [entry] using hw)]
    exact hcache heq

/-- **An operation in order keeps the invariant**, and its thread at a point. -/
theorem Inv.step (hs : Inv ps s) (hp : ps[i]? = some p) (hat : At p (.await op k))
    (hi : s.threads[i]? = some ⟨o, job, .await op k⟩) (hc : InOrder s (.step i ()) = true) :
    ∃ q, At q (k (complete s.world op).2) ∧ Inv (ps.set i q ++ []) (after s i o job op k) := by
  have hfits := hs.points i p hp
  have hquiet : reads op = true → (∀ rows, op ≠ .setCache rows) ∧
      writes (entry s i o job op).done = false := by
    intro hop
    cases op with
    | cached code => exact ⟨fun _ => nofun, rfl⟩
    | cachedRows => exact ⟨fun _ => nofun, rfl⟩
    | _ => cases hop
  cases p with
  | look =>
      obtain ⟨op', k', heq, hop, hk⟩ := hat
      cases heq
      obtain ⟨hne, hw⟩ := hquiet hop
      rcases hk (complete s.world op).2 with hk | hk
      · exact ⟨.select, hk, hs.move_of_ne hp hne trivial⟩
      · refine ⟨.done, hk, hs.move_of_ne hp hne ?_⟩
        show written i (entry s i o job op :: s.log) ≤ _
        rw [written_cons_of_not_writes hw, show written i s.log = 0 from hfits]
        exact Nat.zero_le _
  | write =>
      obtain ⟨op', k', heq, hop, hk⟩ := hat
      cases heq
      have hne : ∀ rows, op ≠ .setCache rows := by
        rintro rows rfl
        cases hop
      have hk := hk (complete s.world op).2
      split at hk
      · exact ⟨.select, hk, hs.move_of_ne hp hne trivial⟩
      · rename_i hw
        refine ⟨.done, hk, hs.move_of_ne hp hne ?_⟩
        show written i (entry s i o job op :: s.log) ≤ _
        rw [written_cons_of_not_writes (by simpa [entry] using hw),
          show written i s.log = 0 from hfits]
        exact Nat.zero_le _
  | select =>
      obtain ⟨k', heq, hk⟩ := hat
      cases heq
      refine ⟨.assign s.world.catalog, hk _, hs.move_of_ne hp (fun _ => nofun) ?_⟩
      have hselected : selected i (entry s i o job .selectRoles :: s.log) = version s.log :=
        if_pos rfl
      have hversion : version (entry s i o job .selectRoles :: s.log) = version s.log := by
        rw [version_cons]
        rfl
      show written i _ ≤ selected i _ ∧ selected i _ ≤ version _ ∧ (_ → _)
      rw [after, hselected, hversion, written_cons_of_not_writes rfl]
      exact ⟨written_le i s.log, Nat.le_refl _, fun _ => rfl⟩
  | assign rows =>
      obtain ⟨k', heq, hk⟩ := hat
      cases heq
      obtain ⟨hle, hlt, hrows⟩ := hfits
      have hcached : cached (entry s i o job (.setCache rows) :: s.log) = some (selected i s.log) := rfl
      have hversion : version (entry s i o job (.setCache rows) :: s.log) = version s.log := by
        rw [version_cons]
        rfl
      refine ⟨.done, hk, hs.move hp ?_ ?_ fun v hv => ?_⟩
      · show written i (entry s i o job (.setCache rows) :: s.log) ≤ _
        rw [written_cons_of_not_writes rfl]
        exact hle
      · rw [hcached]
        simpa [InOrder, hi] using hc
      · rw [hcached] at hv
        obtain rfl := Option.some.inj hv
        rw [hversion]
        exact ⟨hlt, hrows⟩
  | done =>
      obtain ⟨hop, hk⟩ := hat
      obtain ⟨hne, hw⟩ := hquiet hop
      refine ⟨.done, final_of_ended (hk _), hs.move_of_ne hp hne ?_⟩
      show written i (entry s i o job op :: s.log) ≤ (cached (entry s i o job op :: s.log)).getD 0
      rw [written_cons_of_not_writes hw, cached_cons_of_ne hne]
      exact hfits

/-- A new call has written nothing. -/
theorem Inv.event (hs : Inv ps s) (c : Call)
    (h : system.step s (.event c) = some t) : Inv (ps ++ [c.first]) t := by
  obtain rfl := Option.some.inj h
  refine ⟨hs.cache, fun l p hp => ?_, fun e he => ?_⟩
  · rw [List.getElem?_append] at hp
    split at hp
    · exact hs.points l p hp
    · rename_i hlt
      have hfresh : written l s.log = 0 := written_of_fresh fun e he heq => hlt (heq ▸ hs.threads e he)
      obtain rfl : p = c.first := List.mem_singleton.1 (List.mem_of_getElem? hp)
      cases c with
      | enrich code => cases code with
        | none => exact hfresh.trans_le (Nat.zero_le _)
        | some code => exact hfresh
      | reload => exact trivial
      | _ => exact hfresh
  · rw [List.length_append]
    exact Nat.lt_add_right _ (hs.threads e he)

end Step

/-- The calls stand at points, and the invariant holds. -/
def Placed (s : State) : Prop := ∃ ps, Located At ps s ∧ Inv ps s

/-- **Every move of a run in order keeps it.** -/
theorem placed_step {s t : State} {m : Act} (hs : Placed s) (hc : InOrder s m = true)
    (h : system.step s m = some t) : Placed t := by
  obtain ⟨ps, hat, hinv⟩ := hs
  cases m with
  | event c =>
      exact ⟨ps ++ [c.first], hat.event rfl h (.cons (at_first c) .nil), hinv.event c h⟩
  | step i c =>
      obtain ⟨_, hm, -⟩ | ⟨i', c', o, job, op, k, hm, hi, ht⟩ := System.step_cases h
      · cases hm
      · obtain ⟨rfl, rfl⟩ := Move.step.inj hm
        obtain ⟨p, hp, ha⟩ := hat.getElem? hi
        obtain ⟨q, hq, hkept⟩ := hinv.step hp ha hi hc
        subst ht
        exact ⟨_, hat.op hi h hq .nil, hkept⟩

/-- **In a run in order the cache at rest is the table**, if it was loaded at all; and a call that
has returned leaves a cache at least as new as its own write. -/
theorem cache_at_rest {w : World} {as : List Act} {s : State}
    (h : Exec system.step (fun s m => InOrder s m = true) (start w) as s) : Current s := by
  have hstart : Placed (start w) :=
    ⟨[], .nil, fun v hv => (by cases hv), fun i p hp => (by cases hp), fun e he => (by cases he)⟩
  obtain ⟨ps, hat, hinv⟩ := h.invariant hstart fun _ _ _ hs hc h => placed_step hs hc h
  have hended : ∀ i u, s.threads[i]? = some u → u.rest.Ended →
      written i s.log ≤ (cached s.log).getD 0 := by
    intro i u hu hended
    obtain ⟨p, hp, ha⟩ := hat.getElem? hu
    have hfits := hinv.points i p hp
    generalize u.rest = r at ha hended
    cases p with
    | look =>
        obtain ⟨op, k, rfl, -⟩ := ha
        exact hended.elim
    | write =>
        obtain ⟨op, k, rfl, -⟩ := ha
        exact hended.elim
    | select =>
        obtain ⟨k, rfl, -⟩ := ha
        exact hended.elim
    | assign rows =>
        obtain ⟨k, rfl, -⟩ := ha
        exact hended.elim
    | done => exact hfits
  refine ⟨fun hidle => ?_, hended⟩
  cases hv : cached s.log with
  | none => exact .inl rfl
  | some v =>
      obtain ⟨hle, hcache⟩ := hinv.cache v hv
      refine .inr (hcache ?_)
      by_cases hzero : version s.log = 0
      · omega
      · -- the thread of the latest write has returned
        obtain ⟨e, he, hlast⟩ := exists_written hzero
        have hlt : e.thread < s.threads.length :=
          (List.Forall₂.length_eq hat) ▸ hinv.threads e he
        have := hended e.thread _ (List.getElem?_eq_getElem hlt) (hidle _ (List.getElem_mem hlt))
        rw [hlast, hv] at this
        exact Nat.le_antisymm hle this

/-- A server with an empty catalog. -/
def emptyWorld : World := ⟨[], id, fun _ => false, [], [], [], fun _ => []⟩

/-- Two administrators add a role each. -/
def bothAdd : List Act :=
  [Move.event (.add ⟨"a", "A", none⟩), Move.event (.add ⟨"b", "B", none⟩)]

/-- Two calls that overlap and assign their rows in the order in which they selected them. -/
theorem cache_at_rest_overlapping : ∃ s : State,
    Exec system.step (fun s m => InOrder s m = true) (start emptyWorld) (bothAdd ++
      [Move.step 0 (), Move.step 0 (), Move.step 1 (), Move.step 1 (), Move.step 0 (),
        Move.step 1 ()]) s ∧
      Idle s ∧ s.world.cache.map Role.code = [py "a", py "b"] ∧ Current s := by
  obtain ⟨s, hexec, hidle, hcache⟩ := exists_exec_of_runs
    (f := system.step) (C := fun s m => InOrder s m = true) (s := start emptyWorld)
    (l := bothAdd ++ [Move.step 0 (), Move.step 0 (), Move.step 1 (), Move.step 1 (),
      Move.step 0 (), Move.step 1 ()])
    (p := fun s => Idle s ∧ s.world.cache.map Role.code = [py "a", py "b"]) (by decide)
  exact ⟨s, hexec, hidle, hcache, cache_at_rest hexec⟩

/-- **Older rows may overwrite newer ones**: the call that selected first assigns last, the cache
at rest lacks the role that the other has added, and its call has returned. -/
theorem older_rows_overwrite : ∃ (as : List Act) (s : State),
    Exec system.step (fun _ _ => True) (start emptyWorld) as s ∧ Idle s ∧
      cached s.log = some 1 ∧ written 1 s.log = 2 ∧ s.world.cache ≠ s.world.catalog ∧ ¬Current s := by
  obtain ⟨s, hexec, hidle, hcached, hwritten, hcache⟩ := exists_exec_of_runs
    (f := system.step) (C := fun _ _ => True) (s := start emptyWorld)
    (l := bothAdd ++ [Move.step 0 (), Move.step 0 (), Move.step 1 (), Move.step 1 (),
      Move.step 1 (), Move.step 0 ()])
    (p := fun s => Idle s ∧ cached s.log = some 1 ∧ written 1 s.log = 2 ∧
      s.world.cache ≠ s.world.catalog) (by decide)
  refine ⟨_, s, hexec, hidle, hcached, hwritten, hcache, fun hcurrent => ?_⟩
  rcases hcurrent.1 hidle with hnone | heq
  · cases hnone.symm.trans hcached
  · exact hcache heq

end CacheOrder
end UserRoles
end Liza
