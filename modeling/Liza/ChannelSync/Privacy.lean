/-
# The privacy of a discussion room follows its channel, in order

`_on_new_event` starts one `_sync_discussion_privacy` for every `m.room.join_rules`
event of a channel, and the job writes the settings of the rule it was started
with.  The jobs are not ordered, so a job may write after the job of a later
event has written, and then the discussion room is left with the older setting.

That is the only way to go wrong.  A run is *in order* when no write of a
setting lands after a differing write of the same setting by the job of a later
event, and when an event without a rule, for which no job is started, arrives
only while the channel is closed.  In every run that is in order, with all awaits
succeeding, the discussion room has the settings of the channel's current rule
as soon as all jobs have ended.
-/

import Liza.ChannelSync.Linked
import Liza.Lib.Settle

set_option autoImplicit false

namespace Liza
namespace ChannelSync

open Lib Synapse
open Lib.Task (Obeys Bound)

/-- The two settings that follow the channel. -/
inductive Setting where
  | joinRule
  | historyVisibility
deriving DecidableEq

/-- The state event of a setting. -/
def Setting.type : Setting → PyStr
  | .joinRule => joinRulesState
  | .historyVisibility => historyVisibilityState

/-- The content of that event for a channel with the given rule. -/
def Setting.content (rule : Json) : Setting → Dict
  | .joinRule => [("join_rule", .str (discussionSettingsFor rule).joinRule)]
  | .historyVisibility =>
      [("history_visibility", .str (discussionSettingsFor rule).historyVisibility)]

/-- The write of a setting. -/
def Setting.write (D : RoomId) (owner : UserId) (rule : Json) (k : Setting) : EventDict :=
  stateDict (.str D) owner k.type (k.content rule)

/-- The discussion room has the settings of its channel. -/
def World.Aligned (w : World) (C D : RoomId) : Prop :=
  w.joinRule D = .str (discussionSettingsFor (w.joinRule C)).joinRule ∧
    w.historyVisibility D = .str (discussionSettingsFor (w.joinRule C)).historyVisibility

instance (w : World) (C D : RoomId) : Decidable (w.Aligned C D) := by
  unfold World.Aligned
  infer_instance

/-- The rule of a join rules event, where a job is started for it. -/
def ruleOf : Ev → Option Json
  | .newEvent e =>
      if (joinRuleOf (some e.content)).truthy then some (joinRuleOf (some e.content)) else none
  | _ => none

theorem ruleOf_newEvent {e : Event} {rule : Json} :
    ruleOf (.newEvent e) = some rule ↔
      (joinRuleOf (some e.content)).truthy = true ∧ joinRuleOf (some e.content) = rule := by
  simp only [ruleOf]
  split
  · rename_i ht
    simp [ht]
  · rename_i ht
    simp [ht]

/-- The moves of the runs in question: a join rules event of the channel arrives,
or a task completes an await, which does not raise. -/
def Toggles (host : PyStr) (C : RoomId) (s : State) : Act → Prop
  | .event (.newEvent e) =>
      e.roomId = C ∧ e.type = joinRulesState ∧ e.stateKey = some []
  | .event _ => False
  | .step i raises =>
      match s.threads[i]? with
      | some ⟨_, _, .await op _⟩ => (perform channelSync host s.world op raises).2.1.isSome
      | _ => True

/-- A write does not undo a differing one of a later event, and an event without
a rule does not close the channel. -/
def InOrder (C : RoomId) (s : State) : Act → Prop
  | .event e => ruleOf e = none → isPublicChannel (s.world.joinRule C) = false
  | .step i _ =>
      match s.threads[i]? with
      | some ⟨o, _, .await (.sendEvent d) _⟩ =>
          ∀ e ∈ s.log, o < e.origin →
            match e.done.op with
            | .sendEvent d' => d'.room = d.room → d'.type = d.type → d'.content = d.content
            | _ => True
      | _ => True

instance (host : PyStr) (C : RoomId) (s : State) (a : Act) : Decidable (Toggles host C s a) := by
  rcases a with (⟨e⟩ | ⟨room⟩ | ⟨user, data⟩ | _) | ⟨i, raises⟩
  · exact inferInstanceAs (Decidable (_ ∧ _ ∧ _))
  · exact instDecidableFalse
  · exact instDecidableFalse
  · exact instDecidableFalse
  · dsimp only [Toggles]
    generalize s.threads[i]? = u
    rcases u with _ | ⟨o, j, _ | _ | ⟨op, k⟩⟩
    · exact instDecidableTrue
    · exact instDecidableTrue
    · exact instDecidableTrue
    · exact inferInstanceAs (Decidable (_ = true))

instance (C : RoomId) (s : State) (a : Act) : Decidable (InOrder C s a) := by
  rcases a with e | ⟨i, raises⟩
  · exact inferInstanceAs (Decidable (_ → _))
  · dsimp only [InOrder]
    generalize s.threads[i]? = u
    rcases u with _ | ⟨o, j, _ | _ | ⟨op, k⟩⟩
    · exact instDecidableTrue
    · exact instDecidableTrue
    · exact instDecidableTrue
    · rcases op
      case sendEvent d =>
        refine @List.decidableBAll _ _ (fun e => ?_) _
        refine @instDecidableForall _ _ _ ?_
        generalize e.done.op = op
        rcases op
        case sendEvent d' => exact inferInstanceAs (Decidable (_ → _ → _))
        all_goals exact instDecidableTrue
      all_goals exact instDecidableTrue

/-! ### The law of the runs -/

section Law

variable (C D : RoomId) (owner : UserId)

/-- The jobs of such a run: the callbacks of the join rules events of the channel
and of the module's own writes, and the privacy job of an event with a rule. -/
def privacyJobs (es : List Ev) (o : ℕ) : Job → Prop
  | .onNewEvent e =>
      (∃ k : Setting, e.roomId = D ∧ e.type = k.type ∧ e.stateKey = some []) ∨
        es[o]? = some (.newEvent e) ∧ e.roomId = C ∧ e.type = joinRulesState
  | .syncDiscussionPrivacy c rule => c = C ∧ ∃ e, es[o]? = some e ∧ ruleOf e = some rule
  | _ => False

/-- What they do: they read, the callback of an event with a rule starts the
privacy job, and that job writes the two settings. -/
def privacyOps : Job → Op → Prop
  | .onNewEvent e, op => op.quiet = true ∨ e.roomId = C ∧ ∃ rule,
      ruleOf (.newEvent e) = some rule ∧ op = .background (.syncDiscussionPrivacy C rule)
  | .syncDiscussionPrivacy _ rule, op =>
      op.quiet = true ∨ ∃ k : Setting, op = .sendEvent (k.write D owner rule)
  | _, _ => False

/-- The law of the runs in question. -/
def privacy : System.Law World Ev Job Op Res where
  I := Linked C D owner
  J := privacyJobs C D
  A := answers (Linked C D owner)
  P := fun job _ op => privacyOps C D owner job op

variable {C D owner} {host : PyStr}

/-- `_on_new_event` of a join rules event. -/
theorem onNewEvent_joinRules {e : Event} (ht : e.type = joinRulesState) :
    onNewEvent host e = channelType (.str e.roomId) >>= fun chatType =>
      if chatType = .str channelTypeName ∧ (joinRuleOf (some e.content)).truthy then
        call (.background (.syncDiscussionPrivacy e.roomId (joinRuleOf (some e.content))))
      else .ret () := by
  simp [onNewEvent, ht, isMembershipLeave, joinRulesState, channelDiscussionState]

/-- `_on_new_event` does nothing about a visibility event. -/
theorem onNewEvent_historyVisibility {e : Event} (ht : e.type = historyVisibilityState) :
    onNewEvent host e = .ret () := by
  simp [onNewEvent, ht, isMembershipLeave, historyVisibilityState, joinRulesState,
    channelDiscussionState, isRootPost]

/-- The callbacks of such a run. -/
theorem onNewEvent_privacy {es : List Ev} {o : ℕ} {e : Event}
    (hj : privacyJobs C D es o (.onNewEvent e)) :
    Obeys (answers (Linked C D owner)) (fun _ op => privacyOps C D owner (.onNewEvent e) op)
      (fun _ _ => True) [] (onNewEvent host e) := by
  rcases hj with ⟨k, hr, ht, -⟩ | ⟨-, hr, ht⟩
  · cases k with
    | joinRule =>
        rw [onNewEvent_joinRules ht, hr]
        refine (chatType_returns (V := fun v => v ≠ .str channelTypeName)
          fun w hw => hw.discussion).obeys (fun _ _ hq => .inl hq) fun h v hv => ?_
        rw [if_neg fun h => hv h.1]
        exact trivial
    | historyVisibility =>
        rw [onNewEvent_historyVisibility ht]
        exact trivial
  · rw [onNewEvent_joinRules ht, hr]
    refine (chatType_returns (V := fun _ => True) fun _ _ => trivial).obeys
      (fun _ _ hq => .inl hq) fun h v _ => ?_
    split
    · rename_i hp
      exact obeys_background (.inr ⟨hr, _, if_pos hp.2, rfl⟩)
    · exact trivial

/-- The callback of an event with a rule starts the privacy job. -/
theorem onNewEvent_bound {e : Event} {rule : Json} (hr : e.roomId = C)
    (ht : e.type = joinRulesState) (hrule : ruleOf (.newEvent e) = some rule) :
    Bound (answers (Linked C D owner)) (· = .background (.syncDiscussionPrivacy C rule))
      (onNewEvent host e) := by
  obtain ⟨htruthy, hrule⟩ := ruleOf_newEvent.1 hrule
  rw [onNewEvent_joinRules ht, hr]
  refine (chatType_returns (V := fun v => v = .str channelTypeName)
    fun w hw => hw.channel).bound fun v hv => ?_
  rw [if_pos ⟨hv, htruthy⟩, hrule]
  exact Bound.call rfl

/-- The privacy job on its linked pair of rooms. -/
theorem syncDiscussionPrivacy_obeys (rule : Json) :
    Obeys (answers (Linked C D owner))
      (fun _ op => privacyOps C D owner (.syncDiscussionPrivacy C rule) op) (fun _ _ => True) []
      (syncDiscussionPrivacy C rule) := by
  have hquiet : ∀ (_ : List (Done Op Res)) (op : Op), op.quiet = true →
      privacyOps C D owner (.syncDiscussionPrivacy C rule) op := fun _ _ hq => .inl hq
  refine (discussionRoom_returns fun w hw => hw.link).obeys hquiet ?_
  rintro h _ rfl
  rw [if_neg (by simp)]
  refine (roomCreator_returns fun w hw => hw.creator).obeys hquiet ?_
  rintro h _ rfl
  refine Obeys.bind (Q := fun _ r => r = some ())
    (obeys_attempt (.inr ⟨.joinRule, rfl⟩) fun _ => rfl) (fun h _ _ => ?_) fun _ hn => by cases hn
  exact obeys_attempt (.inr ⟨.historyVisibility, rfl⟩) fun _ => trivial

/-- The privacy job writes both settings. -/
theorem syncDiscussionPrivacy_bound (rule : Json) (k : Setting) :
    Bound (answers (Linked C D owner)) (· = .sendEvent (k.write D owner rule))
      (syncDiscussionPrivacy C rule) := by
  refine (discussionRoom_returns fun w hw => hw.link).bound ?_
  rintro _ rfl
  rw [if_neg (by simp)]
  refine (roomCreator_returns fun w hw => hw.creator).bound ?_
  rintro _ rfl
  cases k with
  | joinRule =>
      refine Bound.bind_left (bound_attempt ?_)
      rfl
  | historyVisibility =>
      refine Bound.bind_right (V := fun _ => True) (P := fun _ _ => True) (h := [])
        (obeys_attempt trivial fun _ => ⟨_, rfl, trivial⟩) fun _ _ => ?_
      exact bound_attempt rfl

/-- The event a write creates. -/
theorem createdEvent_write {w : World} {k : Setting} {rule : Json} {e : Event}
    (he : createdEvent host w (.sendEvent (k.write D owner rule) : Op) = some e) :
    e.roomId = D ∧ e.type = k.type ∧ e.stateKey = some [] ∧ e.sender = owner ∧
      e.content = k.content rule := by
  obtain ⟨hr, ht, hs, hk, hc⟩ := createdEvent_sendEvent he
  exact ⟨(Json.str.inj hr).symm, ht, hk, hs, hc⟩

theorem Setting.type_ne (k : Setting) :
    k.type ≠ createState ∧ k.type ≠ channelDiscussionState ∧ k.type ≠ py "m.room.member" := by
  cases k <;> decide

/-- The moves in question leave the pair of rooms linked. -/
theorem linked_event {w : World} (hw : Linked C D owner w) {e : Event}
    (ht : e.type = joinRulesState) : Linked C D owner (arrive channelSync w (.newEvent e)).1 := by
  refine hw.persist (e := e) rfl ?_ ?_
  · rw [ht]
    decide
  · rw [ht]
    decide

/-- An operation that succeeds has an answer. -/
theorem Toggles.isSome {s : State} {i : ℕ} {raises : Bool} {o : ℕ} {j : Job} {op : Op}
    {k : Option (Res op) → Code Unit} (ht : Toggles host C s (.step i raises))
    (hi : s.threads[i]? = some ⟨o, j, .await op k⟩) :
    (perform channelSync host s.world op raises).2.1.isSome = true := by
  simpa only [Toggles, hi] using ht

/-- **The law holds of every run of toggles.** -/
theorem privacy_keeps : (system host).Keeps (Toggles host C) (privacy C D owner) where
  code := by
    intro es o j hj
    cases j with
    | onNewEvent e => exact onNewEvent_privacy hj
    | syncDiscussionPrivacy c rule =>
        obtain ⟨rfl, -⟩ := hj
        exact syncDiscussionPrivacy_obeys rule
    | _ => exact hj.elim
  later := by
    intro es o j e hj ho
    cases j with
    | onNewEvent e' =>
        rcases hj with hj | ⟨hj, hr⟩
        · exact .inl hj
        · exact .inr ⟨by rw [List.getElem?_append_left ho, hj], hr⟩
    | syncDiscussionPrivacy c rule =>
        obtain ⟨hc, e', he', hrule⟩ := hj
        exact ⟨hc, e', by rw [List.getElem?_append_left ho, he'], hrule⟩
    | _ => exact hj.elim
  event := by
    intro s e hw hc
    cases e with
    | newEvent e =>
        obtain ⟨hr, ht, -⟩ := hc
        refine ⟨linked_event hw ht, fun j hj => ?_⟩
        obtain rfl := List.mem_singleton.1 hj
        exact .inr ⟨by simp, hr, ht⟩
    | _ => exact hc.elim
  op := by
    intro s i raises o j op k hs hc hi hp
    change Linked C D owner (perform channelSync host s.world op raises).1 ∧
      answers (Linked C D owner) op (perform channelSync host s.world op raises).2.1 ∧
      ∀ j' ∈ (perform channelSync host s.world op raises).2.2, privacyJobs C D s.events o j'
    have hsome := hc.isSome hi
    have hj : privacyJobs C D s.events o j := (hs.jobs _ (List.mem_of_getElem? hi)).2
    have hA := answers_perform hs.world fun _ _ _ => hsome
    have hquiet : op.quiet = true → Linked C D owner (perform channelSync host s.world op raises).1 ∧
        ∀ j' ∈ (perform channelSync host s.world op raises).2.2, privacyJobs C D s.events o j' := by
      intro hq
      refine ⟨hs.world.of_rooms_eq (perform_quiet hq).1, fun j' hj' => ?_⟩
      rw [(perform_quiet hq).2] at hj'
      cases hj'
    cases j with
    | onNewEvent e =>
        rcases hp with hq | ⟨hr, rule, hrule, rfl⟩
        · exact ⟨(hquiet hq).1, hA, (hquiet hq).2⟩
        · refine ⟨?_, hA, fun j' hj' => ?_⟩
          · exact hs.world.of_rooms_eq (by rw [perform_background])
          · rw [perform_background] at hj'
            obtain rfl := List.mem_singleton.1 hj'
            rcases hj with ⟨_, hD, -, -⟩ | ⟨he, -, -⟩
            · exact absurd (hr.symm.trans hD) hs.world.ne
            · exact ⟨rfl, _, he, hrule⟩
    | syncDiscussionPrivacy c rule =>
        rcases hp with hq | ⟨k', rfl⟩
        · exact ⟨(hquiet hq).1, hA, (hquiet hq).2⟩
        · obtain ⟨e, he⟩ := created_of_isSome (.inl ⟨_, rfl⟩) hsome
          obtain ⟨hrooms, hjobs⟩ := perform_of_created he hsome
          obtain ⟨hr, ht, hkey, -⟩ := createdEvent_write he
          refine ⟨hs.world.persist hrooms ?_ ?_, hA, fun j' hj' => ?_⟩
          · rw [ht]
            exact k'.type_ne.1
          · rw [ht]
            exact k'.type_ne.2.1
          · rw [hjobs] at hj'
            obtain rfl := List.mem_singleton.1 hj'
            exact .inl ⟨k', hr, ht, hkey⟩
    | _ => exact hp.elim

/-- **What the completion of an await can do:** nothing to the rooms, or it writes a
setting for the rule of the event it goes back to. -/
theorem privacy_op {s : State} {i : ℕ} {raises : Bool} {o : ℕ} {j : Job} {op : Op}
    {k : Option (Res op) → Code Unit} (hs : System.Lawful (privacy C D owner) s)
    (hc : Toggles host C s (.step i raises))
    (hi : s.threads[i]? = some ⟨o, j, .await op k⟩) :
    (perform channelSync host s.world op raises).1.rooms = s.world.rooms ∧ (∀ d, op ≠ .sendEvent d) ∨
    ∃ (k : Setting) (rule : Json) (ev : Ev) (e : Event), op = .sendEvent (k.write D owner rule) ∧
      s.events[o]? = some ev ∧ ruleOf ev = some rule ∧
      (perform channelSync host s.world op raises).1.rooms = s.world.rooms.persist e ∧
      e.roomId = D ∧ e.type = k.type ∧ e.stateKey = some [] ∧ e.content = k.content rule := by
  have hsome := hc.isSome hi
  have hj : privacyJobs C D s.events o j := (hs.jobs _ (List.mem_of_getElem? hi)).2
  have hp : privacyOps C D owner j op := (hs.threads i _ hi).1
  have hquiet : op.quiet = true →
      (perform channelSync host s.world op raises).1.rooms = s.world.rooms ∧ ∀ d, op ≠ .sendEvent d := by
    refine fun hq => ⟨(perform_quiet hq).1, ?_⟩
    rintro d rfl
    simp [Op.quiet] at hq
  cases j with
  | onNewEvent e =>
      rcases hp with hq | ⟨-, rule, -, rfl⟩
      · exact .inl (hquiet hq)
      · exact .inl ⟨by rw [perform_background], by simp⟩
  | syncDiscussionPrivacy c rule =>
      rcases hp with hq | ⟨k', rfl⟩
      · exact .inl (hquiet hq)
      · obtain ⟨e, he⟩ := created_of_isSome (.inl ⟨_, rfl⟩) hsome
        obtain ⟨hr, ht, hkey, -, hcontent⟩ := createdEvent_write he
        obtain ⟨-, ev, hev, hrule⟩ := hj
        exact .inr ⟨k', rule, ev, e, rfl, hev, hrule, (perform_of_created he hsome).1, hr, ht,
          hkey, hcontent⟩
  | _ => exact hp.elim

end Law

/-! ### Convergence -/

section Convergence

/-- The content of a setting of a room. -/
def settingOf (w : World) (D : RoomId) (k : Setting) : Option Dict :=
  (w.rooms.state D k.type []).map StateEvent.content

variable {C D : RoomId} {owner : UserId} {host : PyStr} {w₀ : World} {s t : State}

theorem settingOf_congr {w w' : World} (h : w'.rooms = w.rooms) (k : Setting) :
    settingOf w' D k = settingOf w D k := by
  unfold settingOf
  rw [h]

/-- What a write does to the settings. -/
theorem settingOf_write {w w' : World} {e : Event} {k k' : Setting}
    (h : w'.rooms = w.rooms.persist e) (hr : e.roomId = D) (ht : e.type = k'.type)
    (hk : e.stateKey = some []) :
    settingOf w' D k = if k = k' then some e.content else settingOf w D k := by
  unfold settingOf
  rw [h]
  split
  · rename_i hkk
    rw [hkk, ← hr, ← ht, Rooms.persist_state_self _ _ _ hk]
    · rfl
    · rw [ht]
      exact k'.type_ne.2.2
  · rename_i hkk
    rw [Rooms.persist_state_of_ne]
    rintro ⟨-, hty, -⟩
    refine hkk ?_
    rw [ht] at hty
    revert hty
    cases k <;> cases k' <;> decide

/-- An event of another room leaves the settings alone. -/
theorem settingOf_other {w : World} {e : Event} (hr : e.roomId ≠ D) (k : Setting) :
    settingOf (w.persist e) D k = settingOf w D k := by
  unfold settingOf
  change ((w.rooms.persist e).state D k.type []).map _ = _
  rw [Rooms.persist_state_of_ne]
  exact fun h => hr h.1

/-- The rule of a channel after a join rules event. -/
theorem joinRule_persist {w : World} {e : Event} (hr : e.roomId = C) (ht : e.type = joinRulesState)
    (hk : e.stateKey = some []) :
    World.joinRule (w.persist e) C = joinRuleOf (some e.content) := by
  unfold World.joinRule
  change joinRuleOf (((w.rooms.persist e).state C joinRulesState []).map _) = _
  rw [← hr, ← ht, Rooms.persist_state_self _ _ _ hk]
  · rfl
  · rw [ht]
    decide

theorem joinRule_congr {w w' : World} {e : Event} (h : w'.rooms = w.rooms.persist e)
    (hr : e.roomId ≠ C) : w'.joinRule C = w.joinRule C := by
  unfold World.joinRule
  rw [h, Rooms.persist_state_of_ne]
  exact fun h => hr h.1

/-- A rule for which no job is started is not that of an open channel. -/
theorem not_public_of_ruleOf {e : Event} (h : ruleOf (.newEvent e) = none) :
    isPublicChannel (joinRuleOf (some e.content)) = false := by
  by_contra hp
  have hpub : joinRuleOf (some e.content) = .str "public" := by
    simpa [isPublicChannel] using hp
  have htruthy : (joinRuleOf (some e.content)).truthy = true := by
    rw [hpub]
    decide
  rw [ruleOf_newEvent.2 ⟨htruthy, rfl⟩] at h
  cases h

/-- **The last rule wins, setting by setting.** -/
theorem privacy_settles (k : Setting) :
    (system host).Settles (fun s a => Toggles host C s a ∧ InOrder C s a) (privacy C D owner) ruleOf
      (fun rule op => op = .background (.syncDiscussionPrivacy C rule))
      (fun rule op => op = .sendEvent (k.write D owner rule))
      (fun rule w => settingOf w D k = some (k.content rule)) where
  drops := by
    rintro s e ⟨hc, -⟩
    cases e with
    | newEvent e => rfl
    | _ => exact hc.elim
  asked := by
    rintro s e rule - ⟨hc, -⟩ hrule
    cases e with
    | newEvent e =>
        obtain ⟨hr, ht, -⟩ := hc
        exact ⟨.onNewEvent e, List.mem_singleton_self _, onNewEvent_bound hr ht hrule⟩
    | _ => exact hc.elim
  started := by
    rintro s i raises o j _ kont rule - - - rfl
    refine ⟨.syncDiscussionPrivacy C rule, ?_, syncDiscussionPrivacy_bound rule k⟩
    change _ ∈ (perform channelSync host s.world _ raises).2.2
    rw [perform_background]
    exact List.mem_singleton_self _
  acted := by
    rintro s i raises o j _ kont rule - ⟨hc, -⟩ hi rfl
    obtain ⟨e, he⟩ := created_of_isSome (.inl ⟨_, rfl⟩) (hc.isSome hi)
    obtain ⟨hr, ht, hkey, -, hcontent⟩ := createdEvent_write he
    change settingOf (perform channelSync host s.world _ raises).1 D k = _
    rw [settingOf_write (perform_of_created he (hc.isSome hi)).1 hr ht hkey, if_pos rfl, hcontent]
  event := by
    rintro s e rule hs ⟨hc, -⟩ - hval
    cases e with
    | newEvent e =>
        obtain ⟨hr, -, -⟩ := hc
        change settingOf (s.world.persist e) D k = _
        rw [settingOf_other (by rw [hr]; exact hs.world.ne), hval]
    | _ => exact hc.elim
  op := by
    rintro s i raises o j op kont n rule hs ⟨hc, ho⟩ hi hl ⟨e, he, heo, heop⟩ hval
    change settingOf (perform channelSync host s.world op raises).1 D k = _
    rcases privacy_op hs hc hi with ⟨hrooms, -⟩ | ⟨k', rule', ev, e', rfl, hev, hrule', hrooms,
      hr, ht, hkey, hcontent⟩
    · rw [settingOf_congr hrooms, hval]
    · rw [settingOf_write hrooms hr ht hkey]
      split
      · rename_i hkk
        subst hkk
        rw [hcontent]
        rcases Nat.lt_or_ge o n with hlt | hge
        · -- an older write: it agrees with the one that stands
          simp only [InOrder, hi] at ho
          have hagree := ho e he (by omega)
          rw [heop] at hagree
          have hagree : k.content rule = k.content rule' := hagree rfl rfl
          rw [hagree]
        · obtain rfl : o = n := Nat.le_antisymm (hl.le hev hrule') hge
          rw [hl.value_eq hev hrule']
      · exact hval

/-- The channel is open exactly when the last rule was, and where there was none
nothing has changed. -/
structure Following (C D : RoomId) (w₀ : World) (s : State) : Prop where
  current : ∀ n rule, Latest ruleOf s.events n rule →
    isPublicChannel (s.world.joinRule C) = isPublicChannel rule
  untouched : (∀ e ∈ s.events, ruleOf e = none) →
    (∀ k, settingOf s.world D k = settingOf w₀ D k) ∧
      isPublicChannel (s.world.joinRule C) = isPublicChannel (w₀.joinRule C)

theorem following_event {e : Event} (hs : System.Lawful (privacy C D owner) s)
    (hv : Following C D w₀ s) (hc : Toggles host C s (.event (.newEvent e)))
    (ho : InOrder C s (.event (.newEvent e)))
    (h : (system host).step s (.event (.newEvent e)) = some t) : Following C D w₀ t := by
  obtain ⟨hr, ht, hk⟩ := hc
  obtain rfl := Option.some.inj h
  have hjoin : World.joinRule (s.world.persist e) C = joinRuleOf (some e.content) :=
    joinRule_persist hr ht hk
  refine ⟨fun n rule hl => ?_, fun hnone => ?_⟩
  · change isPublicChannel (World.joinRule (s.world.persist e) C) = _
    rw [hjoin]
    cases hrule : ruleOf (.newEvent e) with
    | some rule' =>
        obtain ⟨-, rfl⟩ := latest_append_some hrule hl
        rw [(ruleOf_newEvent.1 hrule).2]
    | none =>
        rw [not_public_of_ruleOf hrule, ← ho hrule]
        exact hv.current n rule (latest_append_none hrule hl)
  · have hrule : ruleOf (.newEvent e) = none := hnone _ (List.mem_append.2 (.inr (by simp)))
    obtain ⟨hset, hpub⟩ := hv.untouched fun e' he' => hnone e' (List.mem_append.2 (.inl he'))
    refine ⟨fun k => ?_, ?_⟩
    · change settingOf (s.world.persist e) D k = _
      rw [settingOf_other (by rw [hr]; exact hs.world.ne)]
      exact hset k
    · change isPublicChannel (World.joinRule (s.world.persist e) C) = _
      rw [hjoin, not_public_of_ruleOf hrule, ← ho hrule, hpub]

theorem following_op {i : ℕ} {raises : Bool} (hs : System.Lawful (privacy C D owner) s)
    (hv : Following C D w₀ s) (hc : Toggles host C s (.step i raises))
    (h : (system host).step s (.step i raises) = some t) : Following C D w₀ t := by
  obtain ⟨_, hm, -⟩ | ⟨i', c', o, j, op, kont, hm, hi, rfl⟩ := System.step_cases h
  · cases hm
  obtain ⟨rfl, rfl⟩ := Move.step.inj hm
  have hjoin : World.joinRule (perform channelSync host s.world op raises).1 C = s.world.joinRule C := by
    rcases privacy_op hs hc hi with ⟨hrooms, -⟩ | ⟨k', rule', ev, e', -, -, -, hrooms, hr, -⟩
    · unfold World.joinRule
      rw [hrooms]
    · exact joinRule_congr hrooms fun h => hs.world.ne (h.symm.trans hr)
  refine ⟨fun n rule hl => ?_, fun hnone => ?_⟩
  · change isPublicChannel (World.joinRule (perform channelSync host s.world op raises).1 C) = _
    rw [hjoin]
    exact hv.current n rule hl
  · obtain ⟨hset, hpub⟩ := hv.untouched hnone
    refine ⟨fun k => ?_, ?_⟩
    · change settingOf (perform channelSync host s.world op raises).1 D k = _
      rcases privacy_op hs hc hi with ⟨hrooms, -⟩ | ⟨k', rule', ev, e', -, hev, hrule, -⟩
      · rw [settingOf_congr hrooms]
        exact hset k
      · rw [hnone ev (List.mem_of_getElem? hev)] at hrule
        cases hrule
    · change isPublicChannel (World.joinRule (perform channelSync host s.world op raises).1 C) = _
      rw [hjoin, hpub]

/-- The channel is followed along every run in order. -/
theorem following {as : List Act} (hw : Linked C D owner w₀)
    (h : Exec (system host).step (fun s a => Toggles host C s a ∧ InOrder C s a) (start w₀) as s) :
    Following C D w₀ s := by
  have hinv : System.Lawful (privacy C D owner) s ∧ Following C D w₀ s := by
    refine h.invariant (I := fun s => System.Lawful (privacy C D owner) s ∧
      Following C D w₀ s) ⟨System.lawful_start hw, ?_, fun _ => ⟨fun _ => rfl, rfl⟩⟩ ?_
    · rintro n rule ⟨⟨e, he, -⟩, -⟩
      cases he
    · rintro s a t ⟨hs, hv⟩ ⟨hc, ho⟩ hstep
      refine ⟨privacy_keeps.lawful_step hs hc hstep, ?_⟩
      cases a with
      | event e =>
          cases e with
          | newEvent e => exact following_event hs hv hc ho hstep
          | _ => exact hc.elim
      | step i raises => exact following_op hs hv hc hstep
  exact hinv.2

theorem joinRule_eq (w : World) : w.joinRule D = joinRuleOf (settingOf w D .joinRule) := rfl

theorem historyVisibility_eq (w : World) :
    w.historyVisibility D =
      ((settingOf w D .historyVisibility).getD []).get "history_visibility" := rfl

/-- The settings of a rule make the discussion room aligned with any channel that
is open exactly when the rule is. -/
theorem aligned_of_settings {w : World} {rule : Json}
    (hset : ∀ k : Setting, settingOf w D k = some (k.content rule))
    (hpub : isPublicChannel (w.joinRule C) = isPublicChannel rule) : w.Aligned C D := by
  have hd := discussionSettingsFor_congr hpub
  constructor
  · rw [joinRule_eq, hset, hd]
    rfl
  · rw [historyVisibility_eq, hset, hd]
    rfl

/-- Rooms with unchanged settings stay aligned. -/
theorem aligned_congr {w w' : World} (hset : ∀ k, settingOf w' D k = settingOf w D k)
    (hpub : isPublicChannel (w'.joinRule C) = isPublicChannel (w.joinRule C))
    (h : w.Aligned C D) : w'.Aligned C D := by
  have hd := discussionSettingsFor_congr hpub
  constructor
  · rw [joinRule_eq, hset, hd, ← joinRule_eq]
    exact h.1
  · rw [historyVisibility_eq, hset, hd, ← historyVisibility_eq]
    exact h.2

/-- **The settings follow.**  In every run of toggles that is in order, in which all
awaits succeed, when all jobs have ended the discussion room has the settings of
the channel's current rule; it had them at the start, or some event had a rule. -/
theorem settings_follow {as : List Act} (hw : Linked C D owner w₀)
    (h : Exec (system host).step (fun s a => Toggles host C s a ∧ InOrder C s a) (start w₀) as s)
    (hidle : System.Idle s)
    (h₀ : w₀.Aligned C D ∨ ∃ e ∈ s.events, ruleOf e ≠ none) : s.world.Aligned C D := by
  have hfollow := following hw h
  by_cases hrule : ∃ e ∈ s.events, ruleOf e ≠ none
  · obtain ⟨n, rule, hl⟩ := exists_latest hrule
    refine aligned_of_settings (fun k => ?_) (hfollow.current n rule hl)
    exact (privacy_settles k).good_of_idle (privacy_keeps.mono fun _ _ hc => hc.1) hw h hidle hl
  · have hnone : ∀ e ∈ s.events, ruleOf e = none := by
      intro e he
      by_contra hne
      exact hrule ⟨e, he, hne⟩
    obtain ⟨hset, hpub⟩ := hfollow.untouched hnone
    exact aligned_congr hset hpub (h₀.resolve_right hrule)

end Convergence

/-! ### In order and out of order -/

/-- A closed channel `!c` of `@ann:h` with its discussion room `!d`. -/
def toggleWorld : World :=
  worldOf
    [("!c", createState, ⟨"@ann:h", [(chatTypeKey, .str channelTypeName)]⟩),
      ("!c", channelDiscussionState, ⟨"@ann:h", [("room_id", .str "!d")]⟩),
      ("!c", joinRulesState, ⟨"@ann:h", [("join_rule", .str "invite")]⟩),
      ("!d", createState, ⟨"@ann:h", [(chatTypeKey, .str discussionChatType)]⟩),
      ("!d", joinRulesState, ⟨"@ann:h", [("join_rule", .str "invite")]⟩),
      ("!d", historyVisibilityState, ⟨"@ann:h", [("history_visibility", .str "shared")]⟩)]
    [("!c", "@ann:h", .join), ("!d", "@ann:h", .join)]

theorem toggleWorld_linked : Linked "!c" "!d" "@ann:h" toggleWorld := by
  constructor <;> decide

/-- The channel is set to a rule. -/
def toggle (id rule : PyStr) : Act :=
  .event (.newEvent ⟨id, joinRulesState, "!c", "@ann:h", some [], [("join_rule", .str rule)], none⟩)

/-- The awaits of a thread, in a row. -/
def awaits (i n : ℕ) : List Act := List.replicate n (.step i false)

/-- Opened and closed again, the jobs running in the order of the events. -/
def inTurn : List Act :=
  [toggle "$1" "public", toggle "$2" "invite"] ++ awaits 0 2 ++ awaits 1 2 ++ awaits 2 4 ++
    awaits 3 4 ++ awaits 4 1 ++ awaits 6 1

/-- The same with the job of the first event the slower one. -/
def overtaken : List Act :=
  [toggle "$1" "public", toggle "$2" "invite"] ++ awaits 0 2 ++ awaits 1 2 ++ awaits 3 4 ++
    awaits 2 4 ++ awaits 4 1 ++ awaits 6 1

/-- In order the settings do follow, through two toggles. -/
theorem settings_follow_inTurn :
    ∃ s, Exec (system "h").step (fun s a => Toggles "h" "!c" s a ∧ InOrder "!c" s a)
      (start toggleWorld) inTurn s ∧ System.Idle s ∧ s.world.Aligned "!c" "!d" := by
  obtain ⟨s, hs, hidle⟩ := exists_exec_of_runs (f := (system "h").step)
    (C := fun s a => Toggles "h" "!c" s a ∧ InOrder "!c" s a) (s := start toggleWorld)
    (l := inTurn) (p := System.Idle) (by decide +kernel)
  exact ⟨s, hs, hidle, settings_follow toggleWorld_linked hs hidle (.inl (by decide))⟩

/-- **A closed channel with an open discussion room:** the rooms are aligned at the
start and every await succeeds, and at the end of all jobs they are not. -/
theorem overtaken_leaves_open :
    Linked "!c" "!d" "@ann:h" toggleWorld ∧ toggleWorld.Aligned "!c" "!d" ∧
    ∃ s, Exec (system "h").step (Toggles "h" "!c") (start toggleWorld) overtaken s ∧
      System.Idle s ∧ ¬s.world.Aligned "!c" "!d" ∧
      s.world.joinRule "!c" = .str "invite" ∧ s.world.joinRule "!d" = .str "public" ∧
      s.world.historyVisibility "!d" = .str "world_readable" :=
  ⟨toggleWorld_linked, by decide, exists_exec_of_runs (by decide +kernel)⟩

end ChannelSync
end Liza
