/-
# Calls that fail and are repeated

`deactivate` and `reactivate` leave at once when the flag is as they want it.  A call that
fails after it has written the flag therefore leaves the rest undone, and so does its
repetition, which returns.  What a call that returns leaves is exactly known, and with it
when a sequence of calls does what it should.
-/

import Liza.AccessAdmin.Accounts
import Mathlib.Data.List.Induction

set_option autoImplicit false

namespace Liza
namespace AccessAdmin

open Lib Synapse

/-- The user directory has no row for users of application services and of the support. -/
def unlisted (cfg : Config) (user : UserId) (a : Account) : Bool :=
  cfg.isAppserviceUser user || a.isSupport

/-- The account as a call wants it, apart from the flag: without access tokens and without
a row in the directory, or with its profile there. -/
def Account.done (a : Account) (activate : Bool) : Bool :=
  if activate then a.directory = some a.profile else a.tokens = [] ∧ a.directory = none

/-- The account is as a call wants it. -/
def World.Complete (w : World) (c : Call) : Prop :=
  ∃ a, w.accounts c.user = some a ∧ a.deactivated = !c.activate ∧ a.done c.activate = true

/-- A call writes nothing but the flag: the flag is as it wants it, or it would list an
account that is not listed. -/
def Account.skipped (a : Account) (cfg : Config) (c : Call) : Bool :=
  a.deactivated = !c.activate || (c.activate && unlisted cfg c.user a)

section Returns

variable {cfg : Config} {w w' : World} {fails : List Bool} {user : UserId} {v : Dict}

@[simp]
theorem accounts_modify (w : World) (user : UserId) (f : Account → Account) :
    (w.modify user f).accounts user = (w.accounts user).map f := by
  simp [World.modify]

/-- An await that is answered has not failed. -/
theorem perform_some {op : Op} {a : Res op} (h : (perform (w, fails) op).2 = some a) :
    (complete w op).2 = some a ∧ (perform (w, fails) op).1 = ((complete w op).1, fails.tail) := by
  unfold perform at h ⊢
  split at h
  · cases h
  · exact ⟨h, rfl⟩

/-- An await before a piece of code that returns has not failed. -/
theorem run_call_bind {α : Type} {op : Op} {f : Res op → Code α} {b : α}
    (h : run w fails (call op >>= f) = (w', some b)) :
    ∃ a, (complete w op).2 = some a ∧ run (complete w op).1 fails.tail (f a) = (w', some b) := by
  obtain ⟨hw, hb⟩ := Prod.ext_iff.1 h
  have heval : (call op >>= f).eval perform (w, fails) =
      (((call op >>= f).eval perform (w, fails)).1, some b) := Prod.ext rfl hb
  obtain ⟨a, ha, hrest⟩ := Task.eval_call_bind heval
  obtain ⟨hans, hstate⟩ := perform_some ha
  rw [hstate] at hrest
  refine ⟨a, hans, ?_⟩
  rw [run, hrest]
  exact Prod.ext hw rfl

theorem run_ret {α : Type} {a b : α} (h : run w fails (.ret a : Code α) = (w', some b)) :
    w = w' ∧ a = b :=
  ⟨congrArg Prod.fst h, Option.some.inj (congrArg Prod.snd h)⟩

/-- Where the flag is read, the account is there. -/
theorem run_isDeactivated_bind {α : Type} {f : Bool → Code α} {b : α}
    (h : run w fails (isDeactivated user >>= f) = (w', some b)) :
    ∃ a, w.accounts user = some a ∧ run w fails.tail (f a.deactivated) = (w', some b) := by
  unfold isDeactivated at h
  rw [Task.bind_assoc] at h
  obtain ⟨status, hstatus, h⟩ := run_call_bind h
  have hstatus : (w.accounts user).map Account.deactivated = status := Option.some.inj hstatus
  cases ha : w.accounts user with
  | none =>
      rw [ha] at hstatus
      subst hstatus
      cases congrArg Prod.snd h
  | some a =>
      rw [ha] at hstatus
      subst hstatus
      exact ⟨a, rfl, h⟩

/-- **What a `deactivate` that returns leaves.** -/
theorem deactivate_returns (h : run w fails (deactivate user) = (w', some v)) :
    ∃ a, w.accounts user = some a ∧ w'.accounts user = some (if a.deactivated then a
      else { a with deactivated := true, tokens := [], directory := none }) := by
  obtain ⟨a, ha, h⟩ := run_isDeactivated_bind h
  refine ⟨a, ha, ?_⟩
  split at h
  · rename_i hflag
    obtain ⟨rfl, -⟩ := run_ret h
    rw [if_pos hflag, ha]
  · rename_i hflag
    rw [if_neg hflag]
    obtain ⟨_, -, h⟩ := run_call_bind h
    rw [deleteAccessTokensForUser, Task.bind_assoc] at h
    obtain ⟨tokens, -, h⟩ := run_call_bind h
    obtain ⟨_, -, h⟩ := run_call_bind h
    obtain ⟨_, -, h⟩ := run_call_bind h
    obtain ⟨rfl, -⟩ := run_ret h
    simp [complete, ha]

/-- **What a `reactivate` that returns leaves.** -/
theorem reactivate_returns (h : run w fails (reactivate cfg user) = (w', some v)) :
    ∃ a, w.accounts user = some a ∧ w'.accounts user = some (if a.deactivated then
      { a with deactivated := false, directory :=
        if unlisted cfg user a then a.directory else some a.profile }
      else a) := by
  obtain ⟨a, ha, h⟩ := run_isDeactivated_bind h
  refine ⟨a, ha, ?_⟩
  split at h
  · rename_i hflag
    rw [if_pos hflag]
    obtain ⟨_, -, h⟩ := run_call_bind h
    obtain ⟨profile, hprofile, h⟩ := run_call_bind h
    obtain rfl : a.profile = profile := by simpa [complete, ha] using hprofile
    rw [handleLocalProfileChange, shouldIncludeLocalUserInDir] at h
    by_cases happ : cfg.isAppserviceUser user = true
    · simp only [happ, if_true, Task.ret_bind, Bool.false_eq_true, if_false] at h
      obtain ⟨rfl, -⟩ := run_ret h
      simp [complete, ha, unlisted, happ]
    · simp only [happ, if_false, Task.bind_assoc, Bool.false_eq_true] at h
      obtain ⟨support, hsupport, h⟩ := run_call_bind h
      obtain rfl : a.isSupport = support := by simpa [complete, ha] using hsupport
      by_cases hsup : a.isSupport = true
      · simp only [hsup, if_true, Task.ret_bind, Bool.false_eq_true, if_false] at h
        obtain ⟨rfl, -⟩ := run_ret h
        simp [complete, ha, unlisted, hsup]
      · simp only [hsup, if_false, Task.bind_assoc, Bool.false_eq_true] at h
        obtain ⟨status, hstatus, h⟩ := run_call_bind h
        obtain rfl : some false = status := by simpa [complete, ha] using hstatus
        obtain ⟨_, -, h⟩ := run_call_bind h
        obtain ⟨rfl, -⟩ := run_ret h
        simp [complete, ha, unlisted, happ, hsup]
  · rename_i hflag
    obtain ⟨rfl, -⟩ := run_ret h
    rw [if_neg hflag, ha]

theorem changeState_returns {activate : Bool} {reason : Option Reason} {r : ℕ × Dict}
    (h : run w fails (changeState cfg user activate reason) = (w', some r)) :
    (r.1 = 200 ∧ ∃ fails', run w fails' (change cfg user activate) = (w', some r.2)) ∨
      r.1 ≠ 200 ∧ w' = w := by
  cases reason with
  | some reason =>
      obtain ⟨rfl, rfl⟩ := run_ret h
      exact .inr ⟨by simp, rfl⟩
  | none =>
      obtain ⟨found, -, h⟩ := run_call_bind h
      cases found with
      | false =>
          obtain ⟨rfl, rfl⟩ := run_ret h
          exact .inr ⟨by decide, rfl⟩
      | true =>
          obtain ⟨hw, hr⟩ := Prod.ext_iff.1 h
          simp only [run, complete, if_true, Task.eval_bind] at hw hr
          cases hchange : (change cfg user activate).eval perform (w, fails.tail) with
          | mk s view =>
              rw [hchange] at hw hr
              cases view with
              | none => cases hr
              | some view =>
                  obtain rfl := Option.some.inj hr
                  refine .inl ⟨rfl, fails.tail, ?_⟩
                  rw [run, hchange]
                  exact Prod.ext hw rfl

/-- **What a request leaves.**  A request that is answered 200 is a call that returns; any
other answer leaves everything as it was. -/
theorem setState_returns {caller : UserId} {activate : Bool} {r : ℕ × Dict}
    (h : run w fails (setState cfg caller user activate) = (w', some r)) :
    (r.1 = 200 ∧ ∃ fails', run w fails' (change cfg user activate) = (w', some r.2)) ∨
      r.1 ≠ 200 ∧ w' = w := by
  -- The check of the rights only reads, whichever way it goes.
  unfold setState mayDeactivate at h
  split at h
  · rw [Task.ret_bind] at h
    exact changeState_returns h
  · split at h
    · rw [Task.ret_bind] at h
      exact changeState_returns h
    · simp only [mayView, hasAdminRole, isSpaceAdminOver, Task.bind_assoc] at h
      obtain ⟨admin, -, h⟩ := run_call_bind h
      cases admin with
      | true =>
          simp only [if_true, Task.ret_bind] at h
          exact changeState_returns h
      | false =>
          simp only [Bool.false_eq_true, if_false, Task.bind_assoc, Task.ret_bind] at h
          obtain ⟨role, -, h⟩ := run_call_bind h
          split at h
          · rw [Task.ret_bind] at h
            exact changeState_returns h
          · simp only [Task.bind_assoc, Task.ret_bind] at h
            obtain ⟨powers, -, h⟩ := run_call_bind h
            exact changeState_returns h

end Returns

/-! ### Sequences of calls -/

section Calls

variable {cfg : Config} {w w' : World} {c : Call} {v : Dict}

/-- **A call that returns leaves the account as it should** exactly when it does its work,
or finds it done. -/
theorem complete_iff (h : c.run cfg w = (w', some v)) :
    w'.Complete c ↔ ∀ a, w.accounts c.user = some a → a.skipped cfg c = true →
      a.done c.activate = true := by
  obtain ⟨user, activate, fails⟩ := c
  cases activate with
  | false =>
      obtain ⟨a, ha, ha'⟩ := deactivate_returns h
      cases hflag : a.deactivated <;>
        simp [World.Complete, ha, ha', hflag, Account.skipped, Account.done]
  | true =>
      obtain ⟨a, ha, ha'⟩ := reactivate_returns h
      cases hflag : a.deactivated <;> cases hlisted : unlisted cfg user a <;>
        simp [World.Complete, ha, ha', hflag, hlisted, Account.skipped, Account.done]

/-- A property of every call of a sequence that returns, with the state it finds. -/
def EveryReturn (cfg : Config) (w : World) (calls : List Call) (P : World → Call → Prop) : Prop :=
  ∀ before c rest, calls = before ++ c :: rest → (c.run cfg (after cfg w before)).2 ≠ none →
    P (after cfg w before) c

/-- **When calls that return have done their work.**  For every sequence of calls, any
awaits of which may fail: every call that returns leaves the account as it should (flagged,
without access tokens and without a row in the directory; or not flagged and with its
profile in the directory) exactly when every call that returns, and that finds the flag as
it wants it or activates an account that the directory does not list, finds the rest
done. -/
theorem calls_complete_iff (cfg : Config) (w : World) (calls : List Call) :
    EveryReturn cfg w calls (fun w c => (c.run cfg w).1.Complete c) ↔
      EveryReturn cfg w calls fun w c => ∀ a, w.accounts c.user = some a →
        a.skipped cfg c = true → a.done c.activate = true := by
  have hcall : ∀ w c, (Call.run cfg w c).2 ≠ none → ((Call.run cfg w c).1.Complete c ↔
      ∀ a, w.accounts c.user = some a → a.skipped cfg c = true → a.done c.activate = true) := by
    intro w c hret
    obtain ⟨v, hv⟩ := Option.ne_none_iff_exists'.1 hret
    exact complete_iff (Prod.ext rfl hv)
  constructor
  · intro h before c rest heq hret
    exact (hcall _ c hret).1 (h before c rest heq hret)
  · intro h before c rest heq hret
    exact (hcall _ c hret).2 (h before c rest heq hret)

/-- The account is as its flag says, and the directory lists it. -/
def World.Settled (w : World) (cfg : Config) (user : UserId) : Prop :=
  ∃ a, w.accounts user = some a ∧ unlisted cfg user a = false ∧ a.done (!a.deactivated) = true

/-- A call that returns leaves a settled account settled. -/
theorem settled_of_returns (hw : w.Settled cfg c.user) (h : c.run cfg w = (w', some v)) :
    w'.Settled cfg c.user := by
  obtain ⟨user, activate, fails⟩ := c
  obtain ⟨a, ha, hlisted, hdone⟩ := hw
  cases activate with
  | false =>
      obtain ⟨b, hb, hb'⟩ := deactivate_returns h
      obtain rfl := Option.some.inj (ha.symm.trans hb)
      refine ⟨_, hb', ?_⟩
      split
      · exact ⟨hlisted, hdone⟩
      · exact ⟨hlisted, by simp [Account.done]⟩
  | true =>
      obtain ⟨b, hb, hb'⟩ := reactivate_returns h
      obtain rfl := Option.some.inj (ha.symm.trans hb)
      refine ⟨_, hb', ?_⟩
      split
      · exact ⟨hlisted, by simp [Account.done, hlisted]⟩
      · exact ⟨hlisted, hdone⟩

/-- A call on a settled account that returns leaves it as it should. -/
theorem complete_of_settled (hw : w.Settled cfg c.user) (h : c.run cfg w = (w', some v)) :
    w'.Complete c := by
  refine (complete_iff h).2 fun a ha hskip => ?_
  obtain ⟨b, hb, hlisted, hdone⟩ := hw
  obtain rfl := Option.some.inj (ha.symm.trans hb)
  have hflag : a.deactivated = !c.activate := by simpa [Account.skipped, hlisted] using hskip
  rwa [hflag, Bool.not_not] at hdone

/-- **Calls that fail before they change anything may be repeated.**  Where the account is
settled at first, and every call on it that fails leaves it as it was, every call that
returns leaves it as it should. -/
theorem uninterrupted_complete {user : UserId} (hw : w.Settled cfg user) {calls : List Call}
    (huser : ∀ c ∈ calls, c.user = user)
    (hfail : ∀ before c rest, calls = before ++ c :: rest →
      (c.run cfg (after cfg w before)).2 = none →
      (c.run cfg (after cfg w before)).1.accounts user = (after cfg w before).accounts user) :
    EveryReturn cfg w calls fun w c => (c.run cfg w).1.Complete c := by
  -- Every prefix of the sequence leaves the account settled.
  have hsettled : ∀ before rest, calls = before ++ rest → (after cfg w before).Settled cfg user := by
    intro before
    induction before using List.reverseRecOn with
    | nil => exact fun _ _ => hw
    | append_singleton before c ih =>
        intro rest heq
        rw [List.append_assoc] at heq
        have hb := ih (c :: rest) heq
        have hc : c.user = user := huser c (by simp [heq])
        rw [show after cfg w (before ++ [c]) = (c.run cfg (after cfg w before)).1 by
          simp [after, List.foldl_append]]
        cases hr : (c.run cfg (after cfg w before)).2 with
        | none =>
            obtain ⟨a, ha, hdone⟩ := hb
            exact ⟨a, (hfail before c rest heq hr).trans ha, hdone⟩
        | some v =>
            rw [← hc] at hb ⊢
            exact settled_of_returns hb (Prod.ext rfl hr)
  intro before c rest heq hret
  obtain ⟨v, hv⟩ := Option.ne_none_iff_exists'.1 hret
  have hc : c.user = user := huser c (by simp [heq])
  have hb := hsettled before (c :: rest) heq
  rw [← hc] at hb
  exact complete_of_settled hb (Prod.ext rfl hv)

end Calls

/-! ### A repeated call -/

/-- An account with a token and with its profile in the directory. -/
def active : Account := ⟨false, ["token"], ⟨some "Иван", none⟩, some ⟨some "Иван", none⟩, false⟩

/-- A server with that account. -/
def office : World where
  accounts := fun user => if user = py "@ivan:h" then some active else none
  serverAdmins := fun _ => false
  roleData := fun _ => none
  powers := fun _ _ => []

/-- `deactivate` fails when it deletes the access tokens, and is repeated. -/
def repeated : List Call := [⟨"@ivan:h", false, [false, false, true]⟩, ⟨"@ivan:h", false, []⟩]

/-- **The repeated call returns, and the token is still there.** -/
theorem repeated_incomplete : ¬EveryReturn ⟨"h", fun _ => false⟩ office repeated
    fun w c => (c.run ⟨"h", fun _ => false⟩ w).1.Complete c := by
  intro h
  obtain ⟨a, ha, -, hdone⟩ := h [⟨"@ivan:h", false, [false, false, true]⟩] ⟨"@ivan:h", false, []⟩ []
    rfl (by decide)
  have hleft : ∃ a, ((Call.run ⟨"h", fun _ => false⟩ (after ⟨"h", fun _ => false⟩ office
      [⟨"@ivan:h", false, [false, false, true]⟩]) ⟨"@ivan:h", false, []⟩).1.accounts "@ivan:h") = some a ∧
      a.deactivated = true ∧ a.tokens = ["token"] := by
    exact ⟨{ active with deactivated := true }, by decide, rfl, rfl⟩
  obtain ⟨a', ha', -, htokens⟩ := hleft
  obtain rfl := Option.some.inj (ha.symm.trans ha')
  simp [Account.done, htokens] at hdone

end AccessAdmin
end Liza
