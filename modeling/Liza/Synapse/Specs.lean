/-
# What the reads of a module return

As long as a property `I` holds of the world, the reads of the state answer as
in some world with that property (`answers`).  The specifications below say what
the shared helper methods return on such answers; they perform quiet operations
only, so they can be used under any law that allows these.
-/

import Liza.Synapse.Server

set_option autoImplicit false

namespace Liza
namespace Synapse

open Lib
open Lib.Task (Obeys Bound)

variable {Job Own : Type} {OwnRes : Own → Type} {Store : Type} {I : World Store → Prop}

/-- The answers in a world with the property `I`: the state is read as it is, and
so is a role, where the read does not raise. -/
def answers (I : World Store → Prop) : (op : Op Job Own) → Option (Res OwnRes op) → Prop
  | .stateEvent room type, r => ∃ w, I w ∧ r = some (w.state room type)
  | .userRole user, r => ∃ w, I w ∧ ∀ data, r = some data → data = w.roles user
  | _, _ => True

/-- The answers of the homeserver. -/
theorem answers_perform {M : Module Job Own OwnRes Store} {host : PyStr} {w : World Store}
    {op : Op Job Own} {raises : Bool} (hw : I w)
    (hread : ∀ room type, op = .stateEvent room type →
      (perform M host w op raises).2.1.isSome = true) :
    answers I op (perform M host w op raises).2.1 := by
  cases op with
  | stateEvent room type =>
      have hs := hread room type rfl
      refine ⟨w, hw, ?_⟩
      rw [perform_stateEvent] at hs ⊢
      split at hs
      · simp at hs
      · rename_i hr
        rw [if_neg hr]
  | userRole user =>
      refine ⟨w, hw, fun data hd => ?_⟩
      cases raises with
      | true => cases hd
      | false => exact (Option.some.inj hd).symm
  | _ => exact trivial

/-- The task performs quiet operations only, and returns a value with the
property `V`. -/
def Returns (I : World Store → Prop) {α : Type} (V : α → Prop) (t : Code Job OwnRes α) : Prop :=
  ∀ h, Obeys (answers I) (fun _ op => op.quiet = true) (fun _ r => ∃ a, r = some a ∧ V a) h t

section Specs

variable {room : Json} {type : PyStr} {D : RoomId} {owner : UserId}

theorem Returns.ret {α : Type} {V : α → Prop} {a : α} (ha : V a) :
    Returns I V (.ret a : Code Job OwnRes α) :=
  fun _ => ⟨a, rfl, ha⟩

/-- A function of the state that was read. -/
theorem Returns.read {α : Type} {V : α → Prop} (g : Option StateEvent → α)
    (hV : ∀ w, I w → V (g (w.state room type))) :
    Returns I V (call (.stateEvent room type) >>= fun ev => .ret (g ev) : Code Job OwnRes α) := by
  refine fun h => ⟨rfl, fun r hr => ?_⟩
  obtain ⟨w, hw, rfl⟩ := hr
  exact ⟨_, rfl, hV w hw⟩

theorem chatType_returns {V : Json → Prop} (hV : ∀ w, I w → V (w.chatType D)) :
    Returns I V (chatType (.str D) : Code Job OwnRes Json) := by
  simp only [chatType, stateContent, Task.bind_assoc, Task.pure_eq_ret, Task.ret_bind]
  exact .read (fun ev => ((ev.map StateEvent.content).getD []).get chatTypeKey) hV

theorem roomCreator_returns (hI : ∀ w, I w → w.creator D = some owner) :
    Returns I (· = some owner) (roomCreator (.str D) : Code Job OwnRes (Option UserId)) := by
  simp only [roomCreator, Task.pure_eq_ret]
  exact .read (fun ev => ev.map StateEvent.sender) hI

/-- A user whom `_is_ai` does not take for a service account. -/
def human (host : PyStr) (roles : UserId → Option Dict) (user : UserId) : Bool :=
  !isAiLocalpart user && !(isMine host user && isAiRole (roles user))

/-- `_is_ai` of a human says no, whether the read of the role raises or not. -/
theorem isAi_returns {host : PyStr} {roles : UserId → Option Dict} {user : UserId}
    (hI : ∀ w, I w → w.roles = roles) (hu : human host roles user = true) :
    Returns I (· = false) (isAi host user : Code Job OwnRes Bool) := by
  simp only [human, Bool.and_eq_true, Bool.not_eq_true', Bool.and_eq_false_iff] at hu
  unfold isAi
  rw [if_neg (by simp [hu.1])]
  split
  · exact .ret rfl
  · rename_i hm
    have hrole : isAiRole (roles user) = false := hu.2.resolve_left (by simpa using hm)
    refine fun h => Obeys.orElse (Q := fun _ r => ∀ a, r = some a → a = false)
      (Obeys.bind (Q := fun _ r => ∀ a, r = some a → a = roles user) ⟨rfl, fun r hr => ?_⟩
        (fun _ a ha => ?_) fun _ _ _ hn => by cases hn)
      (fun _ a ha => ⟨a, rfl, ha a rfl⟩) fun _ _ => ⟨_, rfl, rfl⟩
    · obtain ⟨w, hw, hr⟩ := hr
      rw [← hI w hw]
      cases r with
      | none => exact fun a ha => by cases ha
      | some data => exact hr
    · rintro _ ⟨⟩
      rw [ha a rfl, hrole]

/-- `_is_ai` returns, whoever the user is. -/
theorem isAi_returns_some {host : PyStr} {user : UserId} :
    Returns I (fun _ => True) (isAi host user : Code Job OwnRes Bool) := by
  unfold isAi
  split
  · exact .ret trivial
  · split
    · exact .ret trivial
    · refine fun h => Obeys.orElse (Q := fun _ _ => True) (Obeys.bind (Q := fun _ _ => True)
        ⟨rfl, fun r _ => ?_⟩ (fun _ _ _ => trivial) fun _ _ => trivial)
        (fun _ a _ => ⟨a, rfl, trivial⟩) fun _ _ => ⟨_, rfl, trivial⟩
      cases r <;> exact trivial

/-- The mute returns, whatever raises in it. -/
theorem muteRoom_returns {user : UserId} :
    Returns I (fun _ => True) (muteRoom user room : Code Job OwnRes Unit) := by
  refine fun h => Obeys.orElse (Q := fun _ _ => True) (Obeys.bind (Q := fun _ _ => True)
    (Obeys.bind (Q := fun _ _ => True) ⟨rfl, fun r _ => ?_⟩ (fun _ b _ => ?_) fun _ _ => trivial)
    (fun _ _ _ => trivial) fun _ _ => trivial) (fun _ a _ => ⟨a, rfl, trivial⟩)
    fun _ _ => ⟨_, rfl, trivial⟩
  · cases r <;> exact trivial
  · split
    · exact trivial
    · refine ⟨rfl, fun r _ => ?_⟩
      cases r <;> exact trivial

theorem muteIfLocal_returns {host : PyStr} {user : UserId} :
    Returns I (fun _ => True) (muteIfLocal host user room : Code Job OwnRes Unit) := by
  unfold muteIfLocal
  split
  · exact muteRoom_returns
  · exact .ret trivial

/-- `remote_room_hosts` of a full user id. -/
theorem remoteHosts_eq (host : PyStr) {user : UserId}
    (h : (split1 (codePoint ':') user).2.isSome = true) :
    ∃ hosts, (remoteHosts host user : Code Job OwnRes _) = .ret hosts := by
  unfold remoteHosts
  split
  · exact ⟨_, rfl⟩
  · obtain ⟨server, hs⟩ := Option.isSome_iff_exists.1 h
    rw [hs]
    exact ⟨_, rfl⟩

end Specs

section Rules

variable {α β : Type} {P : List (Done (Op Job Own) (Res OwnRes)) → Op Job Own → Prop}
  {Q : List (Done (Op Job Own) (Res OwnRes)) → Option β → Prop} {V : α → Prop}
  {G : Op Job Own → Prop} {h : List (Done (Op Job Own) (Res OwnRes))}
  {t : Code Job OwnRes α} {f : α → Code Job OwnRes β} {op : Op Job Own}

/-- A read followed by the rest: the law allows quiet operations, and the rest
obeys it on what the read returns. -/
theorem Returns.obeys (ht : Returns I V t) (hP : ∀ h op, op.quiet = true → P h op)
    (hf : ∀ h a, V a → Obeys (answers I) P Q h (f a)) : Obeys (answers I) P Q h (t >>= f) := by
  refine ((ht h).imp hP).bind (fun h a ha => ?_) fun h ha => ?_
  · obtain ⟨b, hb, hv⟩ := ha
    obtain rfl := Option.some.inj hb
    exact hf h a hv
  · obtain ⟨b, hb, -⟩ := ha
    cases hb

/-- A read followed by the rest, which is bound to act. -/
theorem Returns.bound (ht : Returns I V t) (hf : ∀ a, V a → Bound (answers I) G (f a)) :
    Bound (answers I) G (t >>= f) :=
  Bound.bind_right (ht []) hf

/-- `try: await op except: log` is one operation. -/
theorem obeys_attempt {Q : List (Done (Op Job Own) (Res OwnRes)) → Option Unit → Prop}
    (hp : P h op) (hq : ∀ h, Q h (some ())) :
    Obeys (answers I) P Q h (attempt (call op : Code Job OwnRes _)) := by
  refine Obeys.orElse (Q := fun _ _ => True) (Obeys.bind (Q := fun _ _ => True)
    (Obeys.call hp fun _ _ => trivial) (fun _ _ _ => trivial) fun _ _ => trivial)
    (fun h a _ => ?_) fun h _ => ?_
  · cases a
    exact hq h
  · exact hq h

/-- An attempted operation is performed. -/
theorem bound_attempt (hg : G op) :
    Bound (answers I) G (attempt (call op : Code Job OwnRes _)) :=
  (Bound.bind_left (Bound.call hg)).orElse

/-- The start of a background process, as the last thing a task does. -/
theorem obeys_background {job : Job} (hp : P h (.background job)) :
    Obeys (answers I) P (fun _ _ => True) h (call (.background job) : Code Job OwnRes Unit) := by
  refine ⟨hp, fun r _ => ?_⟩
  cases r <;> exact trivial

end Rules

end Synapse
end Liza
