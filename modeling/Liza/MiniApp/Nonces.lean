/-
# Nonces are used once

`NonceStore` of `servers/synapse/modules/miniapp/_stores.py`.  The clock and the text that
`secrets.token_urlsafe` makes come from outside, so a call carries them; a moment is a number of
seconds, and `None` for a room is stored as the empty text.

What a nonce may still be worth is counted: one if it is in the store, and one for every call that
will create it.  A call that accepts the nonce takes one from that (`accepted_le`).  An entry that
`cleanup` deletes is one that every later call would refuse, since the clock does not go back, so a
store with cleanups and one without them give the same answers (`uses_run_eq`).
-/

import Liza.Lib.Assoc
import Liza.Lib.PyStr
import Mathlib.Algebra.Order.Ring.Rat
import Mathlib.Data.List.Nodup
import Mathlib.Tactic.Linarith

set_option autoImplicit false

namespace Liza
namespace MiniApp

open Lib

/-! ### The store -/

/-- What a nonce is bound to, and when it was created. -/
structure NonceEntry where
  user : PyStr
  app : PyStr
  room : PyStr
  createdAt : ℚ
deriving DecidableEq

/-- `NonceStore`. -/
structure NonceStore where
  ttl : ℚ
  store : Assoc PyStr NonceEntry
deriving DecidableEq

namespace NonceStore

/-- `NonceStore.create`, with the text of the nonce and the moment. -/
def create (s : NonceStore) (nonce user app : PyStr) (room : Option PyStr) (now : ℚ) : NonceStore :=
  { s with store := s.store.set nonce ⟨user, app, room.getD [], now⟩ }

/-- `NonceStore.validate_and_consume`. -/
def validateAndConsume (s : NonceStore) (nonce : PyStr) (app room : Option PyStr) (now : ℚ) :
    Bool × NonceStore :=
  let t := { s with store := s.store.erase nonce }
  match s.store.get? nonce with
  | none => (false, t)
  | some entry =>
      if now - entry.createdAt > s.ttl then (false, t)
      else if app.isSome ∧ app ≠ some entry.app then (false, t)
      else if room.isSome ∧ room ≠ some entry.room then (false, t)
      else (true, t)

/-- The keys that `cleanup` deletes. -/
def expired (s : NonceStore) (now : ℚ) : List PyStr :=
  (s.store.filter fun e => now - e.2.createdAt > s.ttl).map Prod.fst

/-- `NonceStore.cleanup`. -/
def cleanup (s : NonceStore) (now : ℚ) : ℕ × NonceStore :=
  ((s.expired now).length, { s with store := (s.expired now).foldl Assoc.erase s.store })

end NonceStore

/-- The calls, with what they are given. -/
inductive NonceCall where
  | create (nonce user app : PyStr) (room : Option PyStr)
  | validateAndConsume (nonce : PyStr) (app room : Option PyStr)
  | cleanup
deriving DecidableEq

/-- What a call returns. -/
inductive NonceAnswer where
  | nonce (text : PyStr)
  | valid (b : Bool)
  | removed (n : ℕ)
deriving DecidableEq

/-- One call at a moment. -/
def NonceStore.call (s : NonceStore) (now : ℚ) : NonceCall → NonceAnswer × NonceStore
  | .create nonce user app room => (.nonce nonce, s.create nonce user app room now)
  | .validateAndConsume nonce app room =>
      let r := s.validateAndConsume nonce app room now
      (.valid r.1, r.2)
  | .cleanup =>
      let r := s.cleanup now
      (.removed r.1, r.2)

/-- A call with its moment, and its answer. -/
structure NonceUse where
  now : ℚ
  call : NonceCall
  answer : NonceAnswer
deriving DecidableEq

/-- The calls one after the other, with their answers. -/
def NonceStore.run (s : NonceStore) : List (ℚ × NonceCall) → List NonceUse
  | [] => []
  | (now, c) :: rest => ⟨now, c, (s.call now c).1⟩ :: (s.call now c).2.run rest

/-- The call accepted the nonce. -/
def NonceUse.accepts (nonce : PyStr) (u : NonceUse) : Bool :=
  match u.call with
  | .validateAndConsume n _ _ => n = nonce && u.answer = .valid true
  | _ => false

/-- The call is no `cleanup`. -/
def NonceCall.isUse : NonceCall → Bool
  | .cleanup => false
  | _ => true

/-- The nonce that a call creates. -/
def NonceCall.created : NonceCall → Option PyStr
  | .create nonce _ _ _ => some nonce
  | _ => none

/-! ### One call -/

section Calls

variable {s t : NonceStore} {nonce n : PyStr} {app room : Option PyStr} {now : ℚ}

@[simp]
theorem call_ttl (s : NonceStore) (now : ℚ) (c : NonceCall) : (s.call now c).2.ttl = s.ttl := by
  cases c with
  | validateAndConsume nonce app room =>
      simp only [NonceStore.call, NonceStore.validateAndConsume]
      repeat' split
      all_goals rfl
  | _ => rfl

/-- A nonce is accepted when it is in the store, is not too old and is bound to what is given. -/
theorem validateAndConsume_eq (s : NonceStore) (nonce : PyStr) (app room : Option PyStr) (now : ℚ) :
    (s.validateAndConsume nonce app room now).1 = true ↔
      ∃ entry, s.store.get? nonce = some entry ∧ now - entry.createdAt ≤ s.ttl ∧
        (∀ a ∈ app, a = entry.app) ∧ ∀ r ∈ room, r = entry.room := by
  have hgiven : ∀ (given : Option PyStr) (bound : PyStr),
      ¬(given.isSome = true ∧ given ≠ some bound) ↔ ∀ x ∈ given, x = bound := by
    intro given bound
    cases given <;> simp
  unfold NonceStore.validateAndConsume
  cases hget : s.store.get? nonce with
  | none => simp
  | some entry =>
      simp only [Option.some.injEq, exists_eq_left']
      rw [← hgiven app, ← hgiven room]
      split
      · rename_i hold
        simp [not_le.2 hold]
      · rename_i hold
        split
        · rename_i happ
          simp [happ]
        · rename_i happ
          split
          · rename_i hroom
            simp [hroom]
          · rename_i hroom
            simp only [not_false_eq_true, happ, hroom, and_true, true_iff]
            exact not_lt.1 hold

/-- It is taken out whatever the answer is. -/
theorem validateAndConsume_store (s : NonceStore) (nonce : PyStr) (app room : Option PyStr)
    (now : ℚ) : (s.validateAndConsume nonce app room now).2.store = s.store.erase nonce := by
  unfold NonceStore.validateAndConsume
  dsimp only
  repeat' split
  all_goals rfl

/-- Deleting keys one after the other. -/
theorem get?_foldl_erase (keys : List PyStr) (m : Assoc PyStr NonceEntry) (n : PyStr) :
    (keys.foldl Assoc.erase m).get? n = if n ∈ keys then none else m.get? n := by
  induction keys generalizing m with
  | nil => simp
  | cons k keys ih =>
      rw [List.foldl_cons, ih, Assoc.get?_erase]
      by_cases hn : n ∈ keys
      · simp [hn]
      · by_cases hk : n = k
        · simp [hk]
        · simp [hn, hk]

theorem keyed_foldl_erase (keys : List PyStr) {m : Assoc PyStr NonceEntry} (hm : m.Keyed) :
    Assoc.Keyed (keys.foldl Assoc.erase m) := by
  induction keys generalizing m with
  | nil => exact hm
  | cons k keys ih => exact ih (hm.erase k)

/-- `cleanup` deletes what is too old. -/
theorem get?_cleanup (hs : s.store.Keyed) (now : ℚ) (n : PyStr) :
    (s.cleanup now).2.store.get? n =
      (s.store.get? n).filter fun entry => now - entry.createdAt ≤ s.ttl := by
  have hmem : n ∈ s.expired now ↔
      ∃ entry, s.store.get? n = some entry ∧ s.ttl < now - entry.createdAt := by
    simp only [NonceStore.expired, List.mem_map, List.mem_filter, decide_eq_true_eq, gt_iff_lt]
    constructor
    · rintro ⟨⟨k, entry⟩, ⟨hin, hold⟩, rfl⟩
      exact ⟨entry, hs.get?_of_mem hin, hold⟩
    · rintro ⟨entry, hget, hold⟩
      exact ⟨(n, entry), ⟨Assoc.mem_of_get? hget, hold⟩, rfl⟩
  unfold NonceStore.cleanup
  rw [get?_foldl_erase]
  split
  · rename_i hn
    obtain ⟨entry, hget, hold⟩ := hmem.1 hn
    rw [hget, Option.filter_some, if_neg]
    simp only [decide_eq_true_eq, not_le]
    exact hold
  · rename_i hn
    cases hget : s.store.get? n with
    | none => rfl
    | some entry =>
        rw [Option.filter_some, if_pos]
        simp only [decide_eq_true_eq]
        by_contra hold
        exact hn (hmem.2 ⟨entry, hget, not_le.1 hold⟩)

/-- The keys stay distinct. -/
theorem keyed_call (hs : s.store.Keyed) (now : ℚ) (c : NonceCall) :
    (s.call now c).2.store.Keyed := by
  cases c with
  | create nonce user app room => exact hs.set _ _
  | validateAndConsume nonce app room =>
      show Assoc.Keyed (s.validateAndConsume nonce app room now).2.store
      rw [validateAndConsume_store]
      exact hs.erase _
  | cleanup => exact keyed_foldl_erase _ hs

end Calls

/-! ### At most once -/

section Counting

variable {nonce : PyStr}

/-- One if the nonce is in the store. -/
def NonceStore.held (s : NonceStore) (nonce : PyStr) : ℕ := if (s.store.get? nonce).isSome then 1 else 0

/-- How many calls create the nonce. -/
def creations (nonce : PyStr) (calls : List (ℚ × NonceCall)) : ℕ :=
  calls.countP fun c => c.2.created = some nonce

/-- **What a call accepts, it takes from the store, and only a creation adds to it.** -/
theorem held_call (s : NonceStore) (hs : s.store.Keyed) (now : ℚ) (c : NonceCall) (nonce : PyStr) :
    (if (⟨now, c, (s.call now c).1⟩ : NonceUse).accepts nonce then 1 else 0) +
        (s.call now c).2.held nonce ≤
      s.held nonce + if c.created = some nonce then 1 else 0 := by
  cases c with
  | create n user app room =>
      by_cases hn : n = nonce
      · subst hn
        simp [NonceUse.accepts, NonceCall.created, NonceStore.held, NonceStore.call,
          NonceStore.create, Assoc.get?_set_self]
      · simp [NonceUse.accepts, NonceCall.created, NonceStore.held, NonceStore.call,
          NonceStore.create, Assoc.get?_set_of_ne _ _ (Ne.symm hn), hn]
  | validateAndConsume n app room =>
      have hstore : (s.call now (.validateAndConsume n app room)).2.store = s.store.erase n :=
        validateAndConsume_store s n app room now
      have hheld : (s.call now (.validateAndConsume n app room)).2.held nonce =
          if nonce = n then 0 else s.held nonce := by
        rw [NonceStore.held, hstore, Assoc.get?_erase]
        split <;> rfl
      rw [hheld]
      by_cases hn : nonce = n
      · subst hn
        by_cases hvalid : (s.validateAndConsume nonce app room now).1 = true
        · obtain ⟨entry, hget, -⟩ := (validateAndConsume_eq s nonce app room now).1 hvalid
          simp [NonceUse.accepts, NonceCall.created, NonceStore.held, hget, NonceStore.call, hvalid]
        · simp [NonceUse.accepts, NonceCall.created, NonceStore.call, hvalid]
      · simp [NonceUse.accepts, NonceCall.created, hn, Ne.symm hn]
  | cleanup =>
      have hget := get?_cleanup hs now nonce
      have hle : (s.call now .cleanup).2.held nonce ≤ s.held nonce := by
        show (s.cleanup now).2.held nonce ≤ s.held nonce
        unfold NonceStore.held
        rw [hget]
        cases s.store.get? nonce with
        | none => simp
        | some entry =>
            rw [Option.isSome_some, if_pos rfl]
            split <;> omega
      simpa [NonceUse.accepts, NonceCall.created] using hle

/-- A nonce is accepted at most as often as it is in the store or will be created. -/
theorem accepted_le (s : NonceStore) (hs : s.store.Keyed) (calls : List (ℚ × NonceCall))
    (nonce : PyStr) :
    (s.run calls).countP (NonceUse.accepts nonce) ≤ s.held nonce + creations nonce calls := by
  induction calls generalizing s with
  | nil => exact Nat.zero_le _
  | cons c calls ih =>
      obtain ⟨now, c⟩ := c
      have hrest := ih (s.call now c).2 (keyed_call hs now c)
      have hcall := held_call s hs now c nonce
      simp only [NonceStore.run, creations, List.countP_cons, decide_eq_true_eq] at hrest ⊢
      omega

end Counting

/-! ### Where an accepted nonce comes from -/

section Origin

/-- Every entry was made by one of the calls. -/
def Explained (s : NonceStore) (past : List NonceUse) : Prop :=
  ∀ nonce entry, s.store.get? nonce = some entry → ∃ u ∈ past, ∃ room,
    u.call = .create nonce entry.user entry.app room ∧ room.getD [] = entry.room ∧
      u.now = entry.createdAt

theorem explained_call {s : NonceStore} {past : List NonceUse} (hs : s.store.Keyed)
    (h : Explained s past) (now : ℚ) (c : NonceCall) :
    Explained (s.call now c).2 (past ++ [⟨now, c, (s.call now c).1⟩]) := by
  have hold : ∀ nonce entry, s.store.get? nonce = some entry →
      ∃ u ∈ past ++ [⟨now, c, (s.call now c).1⟩], ∃ room,
        u.call = .create nonce entry.user entry.app room ∧ room.getD [] = entry.room ∧
          u.now = entry.createdAt := by
    intro nonce entry hget
    obtain ⟨u, hu, hmade⟩ := h nonce entry hget
    exact ⟨u, List.mem_append_left _ hu, hmade⟩
  intro nonce entry hget
  cases c with
  | create n user app room =>
      by_cases hn : nonce = n
      · subst hn
        have hself : (s.create nonce user app room now).store.get? nonce =
            some ⟨user, app, room.getD [], now⟩ := Assoc.get?_set_self _ _ _
        obtain rfl := Option.some.inj (hget.symm.trans hself)
        exact ⟨_, List.mem_append_right _ (List.mem_singleton_self _), room, rfl, rfl, rfl⟩
      · exact hold nonce entry ((Assoc.get?_set_of_ne _ _ hn).symm.trans hget)
  | validateAndConsume n app room =>
      have hstore : (s.call now (.validateAndConsume n app room)).2.store = s.store.erase n :=
        validateAndConsume_store s n app room now
      rw [hstore, Assoc.get?_erase] at hget
      split at hget
      · cases hget
      · exact hold nonce entry hget
  | cleanup =>
      have hfilter : (s.store.get? nonce).filter _ = some entry :=
        (get?_cleanup hs now nonce).symm.trans hget
      exact hold nonce entry (Option.eq_some_of_filter_eq_some hfilter)

/-- **An accepted nonce was created by an earlier call**, which bound it to what is given. -/
theorem created_of_accepts {s : NonceStore} {past : List NonceUse} {calls : List (ℚ × NonceCall)}
    (hs : s.store.Keyed) (h : Explained s past)
    (hclock : (past.map NonceUse.now ++ calls.map Prod.fst).Pairwise (· ≤ ·)) {l₁ l₂ : List NonceUse}
    {now : ℚ} {nonce : PyStr} {app room : Option PyStr}
    (hrun : s.run calls = l₁ ++ ⟨now, .validateAndConsume nonce app room, .valid true⟩ :: l₂) :
    ∃ u ∈ past ++ l₁, ∃ user app' room', u.call = .create nonce user app' room' ∧
      u.now ≤ now ∧ now - u.now ≤ s.ttl ∧ (∀ a ∈ app, a = app') ∧ ∀ r ∈ room, r = room'.getD [] := by
  induction calls generalizing s past l₁ with
  | nil => cases l₁ <;> cases hrun
  | cons c calls ih =>
      obtain ⟨now', c⟩ := c
      cases l₁ with
      | nil =>
          obtain ⟨hu, -⟩ := List.cons.inj hrun
          obtain ⟨rfl, rfl, hanswer⟩ := NonceUse.mk.inj hu
          have hvalid : (s.validateAndConsume nonce app room now').1 = true :=
            NonceAnswer.valid.inj hanswer
          obtain ⟨entry, hget, hage, happ, hroom⟩ := (validateAndConsume_eq s nonce app room now').1 hvalid
          obtain ⟨u, hu, room', hcall, hroom', hat⟩ := h nonce entry hget
          refine ⟨u, List.mem_append_left _ hu, entry.user, entry.app, room', hcall, ?_, ?_, happ, ?_⟩
          · exact (List.pairwise_append.1 hclock).2.2 _ (List.mem_map_of_mem hu) _
              List.mem_cons_self
          · rw [hat]
            exact hage
          · rw [hroom']
            exact hroom
      | cons u l₁ =>
          obtain ⟨rfl, hrest⟩ := List.cons.inj hrun
          have hmade := ih (keyed_call hs now' c) (explained_call hs h now' c)
            (by simpa using hclock) hrest
          simpa using hmade

end Origin

/-! ### Cleanups change no answer -/

section Cleanups

/-- The store with cleanups has the entries of the other one, but for some that are too old. -/
structure Tidied (now : ℚ) (s t : NonceStore) : Prop where
  ttl : s.ttl = t.ttl
  keyed : s.store.Keyed
  kept : ∀ n, s.store.get? n = t.store.get? n ∨
    s.store.get? n = none ∧ ∀ entry ∈ t.store.get? n, s.ttl < now - entry.createdAt

theorem Tidied.refl {s : NonceStore} (hs : s.store.Keyed) (now : ℚ) : Tidied now s s :=
  ⟨rfl, hs, fun _ => .inl rfl⟩

/-- What is too old stays too old. -/
theorem Tidied.later {now now' : ℚ} {s t : NonceStore} (h : Tidied now s t) (hle : now ≤ now') :
    Tidied now' s t := by
  refine ⟨h.ttl, h.keyed, fun n => (h.kept n).imp id ?_⟩
  rintro ⟨hnone, hold⟩
  refine ⟨hnone, fun entry hentry => ?_⟩
  have := hold entry hentry
  linarith

theorem Tidied.cleanup {now : ℚ} {s t : NonceStore} (h : Tidied now s t) :
    Tidied now (s.cleanup now).2 t := by
  refine ⟨h.ttl, keyed_foldl_erase _ h.keyed, fun n => ?_⟩
  rw [get?_cleanup h.keyed]
  rcases h.kept n with heq | ⟨hnone, hold⟩
  · cases hget : s.store.get? n with
    | none => exact .inl (hget.symm.trans heq)
    | some entry =>
        by_cases hage : now - entry.createdAt ≤ s.ttl
        · rw [Option.filter_some, if_pos (decide_eq_true hage)]
          exact .inl (hget.symm.trans heq)
        · right
          refine ⟨by simp only [Option.filter_some, hage, decide_false, Bool.false_eq_true, if_false],
            ?_⟩
          rw [← heq, hget]
          rintro entry' ⟨⟩
          exact not_le.1 hage
  · exact .inr ⟨by rw [hnone]; rfl, hold⟩

/-- A call that is no cleanup gives the same answer in both stores. -/
theorem Tidied.call {now : ℚ} {s t : NonceStore} (h : Tidied now s t) {c : NonceCall}
    (hc : c.isUse = true) :
    (s.call now c).1 = (t.call now c).1 ∧ Tidied now (s.call now c).2 (t.call now c).2 := by
  cases c with
  | create nonce user app room =>
      refine ⟨rfl, h.ttl, h.keyed.set _ _, fun n => ?_⟩
      by_cases hn : n = nonce
      · subst hn
        exact .inl ((Assoc.get?_set_self _ _ _).trans (Assoc.get?_set_self _ _ _).symm)
      · have hs : (s.create nonce user app room now).store.get? n = s.store.get? n :=
          Assoc.get?_set_of_ne _ _ hn
        have ht : (t.create nonce user app room now).store.get? n = t.store.get? n :=
          Assoc.get?_set_of_ne _ _ hn
        simp only [NonceStore.call]
        rw [hs, ht]
        exact h.kept n
  | validateAndConsume nonce app room =>
      have hsame : (s.validateAndConsume nonce app room now).1 =
          (t.validateAndConsume nonce app room now).1 := by
        rw [Bool.eq_iff_iff, validateAndConsume_eq, validateAndConsume_eq, h.ttl]
        rcases h.kept nonce with heq | ⟨hnone, hold⟩
        · rw [heq]
        · rw [hnone]
          constructor
          · rintro ⟨entry, hentry, -⟩
            cases hentry
          · rintro ⟨entry, hentry, hage, -⟩
            exact absurd hage (not_le.2 (h.ttl ▸ hold entry hentry))
      refine ⟨congrArg NonceAnswer.valid hsame, ?_⟩
      refine ⟨(call_ttl _ _ _).trans (h.ttl.trans (call_ttl _ _ _).symm), keyed_call h.keyed _ _, ?_⟩
      intro n
      have hs : (s.call now (.validateAndConsume nonce app room)).2.store = s.store.erase nonce :=
        validateAndConsume_store s nonce app room now
      have ht : (t.call now (.validateAndConsume nonce app room)).2.store = t.store.erase nonce :=
        validateAndConsume_store t nonce app room now
      rw [hs, ht, call_ttl, Assoc.get?_erase, Assoc.get?_erase]
      split
      · exact .inl rfl
      · exact h.kept n
  | cleanup => cases hc

/-- The answers of the calls that are no cleanups. -/
def uses (l : List NonceUse) : List NonceUse := l.filter fun u => u.call.isUse

/-- **Taking the cleanups out of a sequence of calls changes no answer of the others.** -/
theorem uses_run_eq {now : ℚ} {s t : NonceStore} (h : Tidied now s t)
    (calls : List (ℚ × NonceCall)) (hclock : (now :: calls.map Prod.fst).Pairwise (· ≤ ·)) :
    uses (s.run calls) = t.run (calls.filter fun c => c.2.isUse) := by
  induction calls generalizing now s t with
  | nil => rfl
  | cons c calls ih =>
      obtain ⟨now', c⟩ := c
      obtain ⟨hfirst, hrest⟩ := List.pairwise_cons.1 hclock
      have hnow := h.later (hfirst now' List.mem_cons_self)
      cases hc : c.isUse with
      | true =>
          obtain ⟨hanswer, hnext⟩ := hnow.call hc
          simp only [NonceStore.run, uses, List.filter_cons, hc, if_true, hanswer]
          exact congrArg _ (ih hnext hrest)
      | false =>
          have hcleanup : c = .cleanup := by
            cases c with
            | cleanup => rfl
            | _ => cases hc
          subst hcleanup
          simp only [NonceStore.run, uses, List.filter_cons, NonceCall.isUse, Bool.false_eq_true,
            if_false]
          exact ih hnow.cleanup hrest

end Cleanups

/-! ### The whole run -/

/-- **Nonces are single-use.**  In every sequence of calls under a clock that does not go back, no
nonce being generated twice: a nonce is accepted at most once; only when an earlier call created it,
at most `ttl` seconds before, for the app and the room that are given; and the answers are those of
every sequence that differs in its cleanups only. -/
theorem nonces_single_use (ttl : ℚ) (calls : List (ℚ × NonceCall))
    (hclock : (calls.map Prod.fst).Pairwise (· ≤ ·))
    (hfresh : (calls.filterMap fun c => c.2.created).Nodup) :
    (∀ nonce, ((NonceStore.mk ttl []).run calls).countP (NonceUse.accepts nonce) ≤ 1) ∧
    (∀ l₁ l₂ now nonce app room, (NonceStore.mk ttl []).run calls =
        l₁ ++ ⟨now, .validateAndConsume nonce app room, .valid true⟩ :: l₂ →
      ∃ u ∈ l₁, ∃ user app' room', u.call = .create nonce user app' room' ∧ u.now ≤ now ∧
        now - u.now ≤ ttl ∧ (∀ a ∈ app, a = app') ∧ ∀ r ∈ room, r = room'.getD []) ∧
    ∀ calls' : List (ℚ × NonceCall), (calls'.map Prod.fst).Pairwise (· ≤ ·) →
      (calls'.filter fun c => c.2.isUse) = (calls.filter fun c => c.2.isUse) →
      uses ((NonceStore.mk ttl []).run calls') = uses ((NonceStore.mk ttl []).run calls) := by
  have hkeyed : (NonceStore.mk ttl []).store.Keyed := List.nodup_nil
  refine ⟨fun nonce => ?_, ?_, ?_⟩
  · have hcreated : creations nonce calls ≤ 1 := by
      have hcount := List.nodup_iff_count_le_one.1 hfresh nonce
      rw [List.count_filterMap] at hcount
      simpa only [creations, beq_eq_decide] using hcount
    have hle := accepted_le (NonceStore.mk ttl []) hkeyed calls nonce
    have hheld : (NonceStore.mk ttl []).held nonce = 0 := rfl
    omega
  · intro l₁ l₂ now nonce app room hrun
    have hempty : Explained (NonceStore.mk ttl []) [] := by
      intro n entry hget
      cases hget
    exact created_of_accepts hkeyed hempty hclock hrun
  · -- both sequences give the answers of the one without cleanups
    have huses : ∀ l : List (ℚ × NonceCall), (l.map Prod.fst).Pairwise (· ≤ ·) →
        uses ((NonceStore.mk ttl []).run l) =
          (NonceStore.mk ttl []).run (l.filter fun c => c.2.isUse) := by
      intro l hl
      cases l with
      | nil => rfl
      | cons c l =>
          refine uses_run_eq (Tidied.refl hkeyed c.1) (c :: l) (List.pairwise_cons.2 ⟨?_, hl⟩)
          intro now hnow
          rcases List.mem_cons.1 hnow with rfl | hnow
          · exact le_refl _
          · exact (List.pairwise_cons.1 hl).1 now hnow
    intro calls' hclock' hsame
    rw [huses calls' hclock', huses calls hclock, hsame]

/-- A nonce is created, accepted and given again, and another one is deleted as too old. -/
theorem nonces_single_use_replayed :
    let calls : List (ℚ × NonceCall) :=
      [(0, .create "a" "@bob:h" "store" none), (5, .create "b" "@bob:h" "store" (some "!r")),
        (9, .validateAndConsume "b" (some "store") (some "!r")), (9, .cleanup),
        (10, .validateAndConsume "b" none none), (40, .cleanup),
        (40, .validateAndConsume "a" none none)]
    ((NonceStore.mk 30 []).run calls).countP (NonceUse.accepts "b") = 1 ∧
      (∀ nonce, ((NonceStore.mk 30 []).run calls).countP (NonceUse.accepts nonce) ≤ 1) ∧
      uses ((NonceStore.mk 30 []).run (calls.filter fun c => c.2.isUse)) =
        uses ((NonceStore.mk 30 []).run calls) := by
  intro calls
  have hlaw := nonces_single_use 30 calls (by decide) (by decide)
  exact ⟨by decide +kernel, hlaw.1, hlaw.2.2 _ (by decide +kernel) (by decide +kernel)⟩

end MiniApp
end Liza
