/-
# On whose behalf `channel_sync` acts

The module writes into a discussion room with the rights of that room's creator,
and which room that is it learns from the `com.liza.channel.discussion` event of
a channel.  This file says exactly what stands behind every such write, in every
run: the job that makes it belongs to a channel, it has itself read that
channel's link, and the link named the room.

The other side is not asked.  Neither `com.liza.channel.parent` nor the type of
the named room nor the power of the link's sender in it is read anywhere in the
module, so the room may be anybody's.
-/

import Liza.ChannelSync.Module

set_option autoImplicit false

namespace Liza
namespace ChannelSync

open Lib Synapse
open Lib.Task (Obeys)

/-- What a task has done, latest first. -/
abbrev History := List (Done Op Res)

/-- The operation asks for a change of the state or of a membership of `D`. -/
def Op.touches (D : RoomId) : Op → Prop
  | .updateRoomMembership _ _ room _ _ => room = .str D
  | .sendEvent d => d.room = .str D ∧ d.stateKey.isSome
  | _ => False

instance (D : RoomId) (op : Op) : Decidable (op.touches D) := by
  unfold Op.touches
  split <;> infer_instance

/-- The user in whose name an operation is done. -/
def Op.sender : Op → Option UserId
  | .updateRoomMembership sender _ _ _ _ => some sender
  | .sendEvent d => some d.sender
  | _ => none

/-- The channel a background job was started for. -/
def Job.channel : Job → Option RoomId
  | .onChannelJoin c _ => some c
  | .onChannelLeave c _ => some c
  | .syncDiscussionPrivacy c _ => some c
  | .mirrorPost e => some e.roomId
  | _ => none

/-- The job is for the channel `C`: it was started for it, or it is the start-up
pass and found it. -/
def ActsFor (job : Job) (h : History) (C : RoomId) : Prop :=
  job.channel = some C ∨
    job = .onStartup ∧ ∃ cs, ⟨.own .findChannelRooms, some cs⟩ ∈ h ∧ C ∈ cs

/-- The task has read the link of `C`, and it named `D`. -/
def ReadLink (h : History) (C : RoomId) (D : Json) : Prop :=
  ∃ ev, ⟨.stateEvent (.str C) channelDiscussionState, some (some ev)⟩ ∈ h ∧
    ev.content.get "room_id" = D

/-- The task has read the creation event of `D`, sent by `owner`. -/
def ReadCreator (h : History) (D : Json) (owner : UserId) : Prop :=
  ∃ ev, ⟨.stateEvent D createState, some (some ev)⟩ ∈ h ∧ ev.sender = owner

/-- The task has read the creation event of `C`, and it is a channel. -/
def ReadChannel (h : History) (C : RoomId) : Prop :=
  ∃ ev, ⟨.stateEvent (.str C) createState, some (some ev)⟩ ∈ h ∧
    ev.content.get chatTypeKey = .str channelTypeName

/-- The write with which the start-up pass opens the feed of an open channel. -/
def openFeed (C : RoomId) (owner : UserId) : EventDict :=
  stateDict (.str C) owner historyVisibilityState [("history_visibility", .str "world_readable")]

/-- What a job may do after what it has done. -/
def deputyLaw (job : Job) (h : History) : Op → Prop
  | .updateRoomMembership sender target room action _ =>
      ∃ C, ActsFor job h C ∧ ReadLink h C room ∧
        (ReadCreator h room sender ∨
          ∃ e, job = .mirrorPost e ∧ sender = e.sender ∧ target = e.sender ∧ action = .join)
  | .sendEvent d =>
      d.stateKey.isSome → ∃ C, ActsFor job h C ∧ ReadCreator h d.room d.sender ∧
        (ReadLink h C d.room ∨ d = openFeed C d.sender)
  | .background j =>
      ∃ e, job = .onNewEvent e ∧ ∀ C, j.channel = some C → C = e.roomId ∧ ReadChannel h C
  | _ => True

section Rules

variable {job : Job} {h h' : History} {C : RoomId} {D : Json} {owner : UserId}

theorem ActsFor.mono (hc : ActsFor job h C) (hh : h ⊆ h') : ActsFor job h' C := by
  rcases hc with hc | ⟨rfl, cs, hcs, hC⟩
  · exact .inl hc
  · exact .inr ⟨rfl, cs, hh hcs, hC⟩

theorem ReadLink.mono (hl : ReadLink h C D) (hh : h ⊆ h') : ReadLink h' C D := by
  obtain ⟨ev, hev, hD⟩ := hl
  exact ⟨ev, hh hev, hD⟩

theorem ReadCreator.mono (hl : ReadCreator h D owner) (hh : h ⊆ h') : ReadCreator h' D owner := by
  obtain ⟨ev, hev, ho⟩ := hl
  exact ⟨ev, hh hev, ho⟩

/-- The job keeps the law, and forgets nothing it has done. -/
def Keeping (job : Job) (h : History) {α : Type} (t : Code α) : Prop :=
  Obeys (fun _ _ => True) (deputyLaw job) (fun h' _ => h ⊆ h') h t

theorem Keeping.weaken {α : Type} {t : Code α} (ht : Keeping job h' t) (hh : h ⊆ h') :
    Obeys (fun _ _ => True) (deputyLaw job) (fun h' _ => h ⊆ h') h' t :=
  ht.mono fun _ _ hs => List.Subset.trans hh hs

/-- Two tasks in sequence. -/
theorem Keeping.bind {α β : Type} {t : Code α} {f : α → Code β} (ht : Keeping job h t)
    (hf : ∀ h' a, h ⊆ h' → Keeping job h' (f a)) : Keeping job h (t >>= f) :=
  Obeys.bind ht (fun h' a hs => (hf h' a hs).weaken hs) fun _ hs => hs

theorem Keeping.ret {α : Type} (a : α) : Keeping job h (.ret a : Code α) := fun _ hd => hd

/-- A choice, whatever it depends on. -/
theorem Keeping.ite {α : Type} {c : Prop} [Decidable c] {t u : Code α} (ht : Keeping job h t)
    (hu : Keeping job h u) : Keeping job h (if c then t else u) := by
  split
  · exact ht
  · exact hu

/-- An exception handler. -/
theorem Keeping.orElse {α : Type} {t u : Code α} (ht : Keeping job h t)
    (hu : ∀ h', h ⊆ h' → Keeping job h' u) : Keeping job h (t.orElse u) :=
  Obeys.orElse ht (fun _ _ hs => hs) fun h' hs => (hu h' hs).weaken hs

theorem Keeping.attempt {α : Type} {t : Code α} (ht : Keeping job h t) :
    Keeping job h (Synapse.attempt t) :=
  (ht.bind fun _ _ _ => .ret ()).orElse fun _ _ => .ret ()

/-- An operation that the law allows. -/
theorem Keeping.call {op : Op} (hp : deputyLaw job h op) : Keeping job h (ChannelSync.call op) :=
  Obeys.call hp fun _ _ _ hd => List.mem_cons_of_mem _ hd

/-- A message or a redaction changes no state. -/
theorem Keeping.message {d : EventDict} (hd : d.stateKey = none) :
    Keeping job h (ChannelSync.call (.sendEvent d)) :=
  .call fun hs => by simp [hd] at hs

/-- A loop whose body keeps the law. -/
theorem Keeping.forEach {β : Type} {f : β → Code Unit} {bs : List β}
    (hf : ∀ b ∈ bs, ∀ h', h ⊆ h' → Keeping job h' (f b)) : Keeping job h (Task.forEach f bs) :=
  Obeys.forEach (I := fun h' => h ⊆ h') (fun b hb h' hs => (hf b hb h' hs).weaken hs)
    fun _ hd => hd

/-- A read of the state, whose answer stays in the history. -/
theorem Keeping.stateEvent {β : Type} {room : Json} {type : PyStr}
    {f : Option StateEvent → Code β}
    (hf : ∀ h' ev, h ⊆ h' → ⟨.stateEvent room type, some ev⟩ ∈ h' → Keeping job h' (f ev)) :
    Keeping job h (ChannelSync.call (.stateEvent room type) >>= f) := by
  refine Obeys.bind (Q := fun h' r => h ⊆ h' ∧ ⟨.stateEvent room type, r⟩ ∈ h')
    (Obeys.call (by trivial) fun r _ => ⟨fun _ hd => List.mem_cons_of_mem _ hd, List.mem_cons_self⟩)
    (fun h' ev hq => (hf h' ev hq.1 hq.2).weaken hq.1) fun _ hq => hq.1

theorem Keeping.stateContent {β : Type} {room : Json} {type : PyStr} {f : Option Dict → Code β}
    (hf : ∀ h' ev, h ⊆ h' → ⟨.stateEvent room type, some ev⟩ ∈ h' →
      Keeping job h' (f (ev.map StateEvent.content))) :
    Keeping job h (Synapse.stateContent room type >>= f) := by
  simp only [Synapse.stateContent, Task.bind_assoc, Task.pure_eq_ret, Task.ret_bind]
  exact Keeping.stateEvent hf

/-- `_channel_type`: a channel was read to be one. -/
theorem Keeping.channelType {β : Type} {f : Json → Code β}
    (hf : ∀ h' v, h ⊆ h' → (v = .str channelTypeName → ReadChannel h' C) →
      Keeping job h' (f v)) :
    Keeping job h (ChannelSync.channelType (.str C) >>= f) := by
  simp only [ChannelSync.channelType, chatType, Task.bind_assoc, Task.pure_eq_ret, Task.ret_bind]
  refine Keeping.stateContent fun h' ev hs hev => hf h' _ hs fun hv => ?_
  cases ev with
  | none => simp [Dict.get] at hv
  | some ev => exact ⟨ev, hev, hv⟩

/-- `_discussion_room`: the room was named by the link. -/
theorem Keeping.discussionRoom {β : Type} {f : Json → Code β}
    (hf : ∀ h' D, h ⊆ h' → (D ≠ .null → ReadLink h' C D) → Keeping job h' (f D)) :
    Keeping job h (ChannelSync.discussionRoom C >>= f) := by
  simp only [ChannelSync.discussionRoom, Task.bind_assoc, Task.pure_eq_ret, Task.ret_bind]
  refine Keeping.stateContent fun h' ev hs hev => hf h' _ hs fun hD => ?_
  cases ev with
  | none => exact absurd rfl hD
  | some ev => exact ⟨ev, hev, rfl⟩

/-- `_room_creator`: the user has sent the creation event. -/
theorem Keeping.roomCreator {β : Type} {f : Option UserId → Code β}
    (hf : ∀ h' o, h ⊆ h' → (∀ u, o = some u → ReadCreator h' D u) → Keeping job h' (f o)) :
    Keeping job h (Synapse.roomCreator D >>= f) := by
  simp only [Synapse.roomCreator, Task.bind_assoc, Task.pure_eq_ret, Task.ret_bind]
  refine Keeping.stateEvent fun h' ev hs hev => hf h' _ hs fun u hu => ?_
  cases ev with
  | none => simp at hu
  | some ev => exact ⟨ev, hev, Option.some.inj hu⟩

theorem Keeping.read {room : Json} {type : PyStr} {α : Type} (g : Option StateEvent → α) :
    Keeping job h (ChannelSync.call (.stateEvent room type) >>= fun ev => .ret (g ev)) :=
  Keeping.stateEvent fun _ _ _ _ => .ret _

theorem Keeping.isAi {host : PyStr} {user : UserId} : Keeping job h (Synapse.isAi host user) := by
  unfold Synapse.isAi
  split
  · exact .ret _
  · split
    · exact .ret _
    · exact ((Keeping.call (by trivial)).bind fun _ _ _ => .ret _).orElse fun _ _ => .ret _

theorem Keeping.remoteHosts {host : PyStr} {user : UserId} :
    Keeping job h (Synapse.remoteHosts host user) := by
  unfold Synapse.remoteHosts
  split
  · exact .ret _
  · split
    · exact .ret _
    · exact fun _ hd => hd

theorem Keeping.mute {user : UserId} {room : Json} :
    Keeping job h (muteForSubscriber user room) := by
  refine Keeping.attempt ((Keeping.call (by trivial)).bind fun h' b _ => ?_)
  split
  · exact .ret _
  · exact .call (by trivial)

theorem Keeping.muteIfLocal {host : PyStr} {user : UserId} {room : Json} :
    Keeping job h (Synapse.muteIfLocal host user room) := by
  unfold Synapse.muteIfLocal
  split
  · exact .mute
  · exact .ret _

end Rules

/-! ### Every job keeps the law -/

section Jobs

variable {host : PyStr} {job : Job} {h : History} {C : RoomId}

theorem keeping_onChannelJoin (m : UserId) :
    Keeping (.onChannelJoin C m) h (onChannelJoin host C m) := by
  unfold onChannelJoin
  refine Keeping.isAi.bind fun h₁ ai _ => ?_
  split
  · exact .ret _
  refine Keeping.discussionRoom fun h₂ D _ hD => ?_
  split
  · exact .ret _
  rename_i hn
  have hl := hD hn
  refine Keeping.muteIfLocal.bind fun h₃ _ h₂₃ => ?_
  have hl := hl.mono h₂₃
  unfold channelJoinRule
  rw [Task.bind_assoc]
  refine Keeping.stateContent fun h₄ ev h₃₄ _ => ?_
  have hl := hl.mono h₃₄
  simp only [Task.pure_eq_ret, Task.ret_bind]
  split
  · exact .ret _
  refine Keeping.roomCreator fun h₅ o h₄₅ ho => ?_
  cases o with
  | none => exact .ret _
  | some owner =>
      refine Keeping.remoteHosts.bind fun h₆ hosts h₅₆ => .attempt (.call ?_)
      exact ⟨C, .inl rfl, (hl.mono h₄₅).mono h₅₆, .inl ((ho owner rfl).mono h₅₆)⟩

theorem keeping_onChannelLeave (m : UserId) :
    Keeping (.onChannelLeave C m) h (onChannelLeave C m) := by
  unfold onChannelLeave
  refine Keeping.discussionRoom fun h₁ D _ hD => ?_
  split
  · exact .ret _
  rename_i hn
  refine Keeping.roomCreator fun h₂ o h₁₂ ho => ?_
  cases o with
  | none => exact .ret _
  | some owner =>
      refine .attempt (.call ?_)
      exact ⟨C, .inl rfl, (hD hn).mono h₁₂, .inl (ho owner rfl)⟩

theorem keeping_syncDiscussionPrivacy (r : Json) :
    Keeping (.syncDiscussionPrivacy C r) h (syncDiscussionPrivacy C r) := by
  unfold syncDiscussionPrivacy
  refine Keeping.discussionRoom fun h₁ D _ hD => ?_
  split
  · exact .ret _
  rename_i hn
  refine Keeping.roomCreator fun h₂ o h₁₂ ho => ?_
  have hl := (hD hn).mono h₁₂
  cases o with
  | none => exact .ret _
  | some owner =>
      refine Keeping.bind (.attempt (.call ?_)) fun h₃ _ h₂₃ => .attempt (.call ?_)
      · exact fun _ => ⟨C, .inl rfl, ho owner rfl, .inl hl⟩
      · exact fun _ => ⟨C, .inl rfl, (ho owner rfl).mono h₂₃, .inl (hl.mono h₂₃)⟩

theorem keeping_humanMembers (ms : List UserId) : Keeping job h (humanMembers host ms) := by
  induction ms generalizing h with
  | nil => exact .ret _
  | cons m ms ih => exact Keeping.isAi.bind fun _ _ _ => ih.bind fun _ _ _ => .ret _

theorem keeping_channelSnapshot (D : Json) : Keeping job h (channelSnapshot host C D) := by
  unfold channelSnapshot channelJoinRule historyVisibility discussionHidden
  simp only [Task.bind_assoc, Task.pure_eq_ret, Task.ret_bind]
  refine Keeping.bind (.call (by trivial)) fun _ _ _ => (keeping_humanMembers _).bind fun _ _ _ => ?_
  refine Keeping.bind (.call (by trivial)) fun _ _ _ => Keeping.bind (.call (by trivial)) fun _ _ _ => ?_
  refine Keeping.stateContent fun _ _ _ _ => Keeping.stateContent fun _ _ _ _ => ?_
  exact Keeping.stateContent fun _ _ _ _ => Keeping.stateContent fun _ _ _ _ => .ret _

theorem keeping_migrateChannelVisibility (hc : ActsFor job h C) :
    Keeping job h (migrateChannelVisibility C) := by
  unfold migrateChannelVisibility channelJoinRule historyVisibility
  simp only [Task.bind_assoc, Task.pure_eq_ret, Task.ret_bind]
  refine Keeping.stateContent fun h₁ _ h₀₁ _ => ?_
  split
  · exact .ret _
  refine Keeping.stateContent fun h₂ _ h₁₂ _ => ?_
  split
  · exact .ret _
  refine Keeping.roomCreator fun h₃ o h₂₃ ho => ?_
  cases o with
  | none => exact .ret _
  | some owner =>
      refine .attempt (.call fun _ => ?_)
      exact ⟨C, ((hc.mono h₀₁).mono h₁₂).mono h₂₃, ho owner rfl, .inr rfl⟩

theorem keeping_migrateOneChannel (hc : ActsFor job h C) :
    Keeping job h (migrateOneChannel host C) := by
  unfold migrateOneChannel
  refine Keeping.discussionRoom fun h₁ D h₀₁ hD => ?_
  split
  · exact .ret _
  rename_i hn
  refine Keeping.roomCreator fun h₂ o h₁₂ ho => ?_
  cases o with
  | none => exact .ret _
  | some owner =>
      refine (keeping_channelSnapshot D).bind fun h₃ snapshot h₂₃ => ?_
      have hc := ((hc.mono h₀₁).mono h₁₂).mono h₂₃
      have hl := ((hD hn).mono h₁₂).mono h₂₃
      have ho := (ho owner rfl).mono h₂₃
      dsimp only
      split
      · exact .ret _
      refine Keeping.bind (.forEach fun w _ h₄ h₃₄ => .attempt (.call fun _ => ?_))
        fun h₄ _ h₃₄ => .forEach fun m _ h₅ h₄₅ => ?_
      · exact ⟨C, hc.mono h₃₄, ho.mono h₃₄, .inl (hl.mono h₃₄)⟩
      · refine Keeping.remoteHosts.bind fun h₆ hosts h₅₆ => .attempt (.call ?_)
        have hh := List.Subset.trans (List.Subset.trans h₃₄ h₄₅) h₅₆
        exact ⟨C, hc.mono hh, hl.mono hh, .inl (ho.mono hh)⟩

/-- The pass over all channels that were found. -/
theorem keeping_migrate (cs : List RoomId) (hcs : ∀ C ∈ cs, ActsFor job h C) :
    Keeping job h (Task.forEach (fun channel => attempt do
      let _ ← migrateChannelVisibility channel
      let _ ← migrateOneChannel host channel
      call .sleep) cs) := by
  refine .forEach fun C hC h₁ h₀₁ => .attempt ?_
  have hc := (hcs C hC).mono h₀₁
  refine (keeping_migrateChannelVisibility hc).bind fun h₂ _ h₁₂ => ?_
  exact (keeping_migrateOneChannel (hc.mono h₁₂)).bind fun _ _ _ => .call (by trivial)

theorem keeping_onStartup : Keeping .onStartup h (onStartup host) := by
  refine Keeping.bind (.attempt (.call (by trivial))) fun h₁ _ h₀₁ => ?_
  unfold migrateChannelDiscussions
  refine Obeys.bind (Q := fun h' r => h₁ ⊆ h' ∧ ∀ cs, r = some cs → ∀ C ∈ cs,
    ActsFor .onStartup h' C) ?_ (fun h' cs hq => ?_) fun _ hq => hq.1
  · refine Obeys.orElse (Q := fun h' r => h' = ⟨.own .findChannelRooms, r⟩ :: h₁)
      (Obeys.call (by trivial) fun _ _ => rfl) (fun h' cs hq => ?_) fun h' hq => ?_
    · subst hq
      refine ⟨fun _ hd => List.mem_cons_of_mem _ hd, fun cs' hcs' C hC => ?_⟩
      obtain rfl := Option.some.inj hcs'
      exact .inr ⟨rfl, cs, List.mem_cons_self, hC⟩
    · subst hq
      refine ⟨fun _ hd => List.mem_cons_of_mem _ hd, fun cs' hcs' C hC => ?_⟩
      obtain rfl := Option.some.inj hcs'
      simp at hC
  · exact (keeping_migrate cs (hq.2 cs rfl)).weaken hq.1

theorem keeping_cleanup (id : EventId) (new : Json) (deleted : Bool) :
    Keeping job h (cleanupUnlinkedDiscussion id new deleted) := by
  unfold cleanupUnlinkedDiscussion
  refine Keeping.bind (((Keeping.call (by trivial)).bind fun _ _ _ => .ret _).orElse
    fun _ _ => .ret _) fun h₁ stored _ => ?_
  cases stored with
  | none => exact .ret _
  | some prev =>
      dsimp only
      split
      · exact .call (by trivial)
      · exact .ret _

theorem keeping_trySendMirror (sender : UserId) (D : Json) (content : Dict) :
    Keeping job h (trySendMirror sender D content) :=
  ((Keeping.message rfl).bind fun _ _ _ => .ret _).orElse fun _ _ => .ret _

theorem keeping_ensureAuthor (e : Event) {D : Json} (hl : ReadLink h e.roomId D) :
    Keeping (.mirrorPost e) h (ensureAuthorInDiscussion e.sender D) := by
  unfold ensureAuthorInDiscussion
  refine Keeping.roomCreator fun h₁ o h₀₁ ho => ?_
  cases o with
  | none => exact .ret _
  | some owner =>
      have hl := hl.mono h₀₁
      refine Keeping.bind (.attempt (.call ?_)) fun h₂ _ h₁₂ =>
        ((Keeping.call ?_).bind fun _ _ _ => .ret _).orElse fun _ _ => .ret _
      · exact ⟨e.roomId, .inl rfl, hl, .inl (ho owner rfl)⟩
      · exact ⟨e.roomId, .inl rfl, hl.mono h₁₂, .inr ⟨e, rfl, rfl, rfl, rfl⟩⟩

theorem keeping_mirrorPost (e : Event) : Keeping (.mirrorPost e) h (mirrorPost e) := by
  unfold mirrorPost
  refine Keeping.bind (.call (by trivial)) fun h₁ done _ => ?_
  split
  · exact .ret _
  refine Keeping.discussionRoom fun h₂ D _ hD => ?_
  split
  · exact .ret _
  rename_i hn
  refine (keeping_trySendMirror _ _ _).bind fun h₃ first h₂₃ => ?_
  cases first with
  | some mirror => exact .call (by trivial)
  | none =>
      refine (keeping_ensureAuthor e ((hD hn).mono h₂₃)).bind fun h₄ joined _ => ?_
      split
      · exact .ret _
      refine (keeping_trySendMirror _ _ _).bind fun h₅ second _ => ?_
      cases second with
      | some mirror => exact .call (by trivial)
      | none => exact .ret _

theorem keeping_mirrorEdit (e : Event) (target : Json) : Keeping job h (mirrorEdit e target) := by
  unfold mirrorEdit
  refine Keeping.bind (.call (by trivial)) fun h₁ mapping _ => ?_
  cases mapping with
  | none => exact .ret _
  | some m =>
      dsimp only
      split
      · exact fun _ hd => hd
      · exact .attempt (.message rfl)

theorem keeping_mirrorRedact (e : Event) (target : EventId) :
    Keeping job h (mirrorRedact e target) := by
  unfold mirrorRedact
  refine Keeping.bind (.call (by trivial)) fun h₁ mapping _ => ?_
  cases mapping with
  | none => exact .ret _
  | some m =>
      refine Keeping.bind (((Keeping.message rfl).bind fun _ _ _ => .ret _).orElse
        fun _ _ => .ret _) fun h₂ sent _ => ?_
      split
      · exact .call (by trivial)
      · exact .ret _

/-- The start of a job for the room of the event, once it was read to be a
channel. -/
theorem keeping_background {e : Event} {p : Prop} [Decidable p] {j : Job}
    (hp : p → ReadChannel h e.roomId) (hj : ∀ C, j.channel = some C → C = e.roomId) :
    Keeping (.onNewEvent e) h (if p then call (.background j) else .ret ()) := by
  split
  · rename_i hv
    refine .call ⟨e, rfl, fun C hC => ?_⟩
    obtain rfl := hj C hC
    exact ⟨rfl, hp hv⟩
  · exact .ret _

theorem keeping_onNewEvent (e : Event) : Keeping (.onNewEvent e) h (onNewEvent host e) := by
  have hraised : ∀ h', Keeping (.onNewEvent e) h' (.raised : Code Unit) := fun _ _ hd => hd
  unfold onNewEvent
  dsimp only
  refine .ite ?_ (.ite ?_ (.ite ?_ (.ite ?_ (.ite ?_ (.ite ?_ (.ite ?_ (.ret _)))))))
  · split
    · exact hraised _
    · split
      · exact .ret _
      · refine Keeping.channelType fun h₁ v _ hv => keeping_background hv ?_
        simp [Job.channel]
  · refine Keeping.channelType fun h₁ v _ hv => ?_
    split
    · exact hraised _
    · split
      · split
        · exact .call ⟨e, rfl, by simp [Job.channel]⟩
        · exact .ret _
      · refine keeping_background (fun hp => hv hp.1) ?_
        simp [Job.channel]
  · refine Keeping.channelType fun h₁ v _ hv => keeping_background hv ?_
    simp [Job.channel]
  · refine Keeping.channelType fun h₁ v _ hv => keeping_background (fun hp => hv hp.1) ?_
    simp [Job.channel]
  · refine Keeping.channelType fun h₁ v _ hv => keeping_background hv ?_
    simp [Job.channel]
  · split
    · refine Keeping.channelType fun h₁ v _ hv => keeping_background (fun hp => hv hp.1) ?_
      simp [Job.channel]
    · exact .ret _
    · exact hraised _
  · refine Keeping.channelType fun h₁ v _ hv => ?_
    split
    · refine keeping_background (fun hp => hv hp.1) ?_
      simp [Job.channel]
    · exact .ret _

/-- **Every job of the module keeps the law.** -/
theorem code_keeping (j : Job) : Keeping j [] (code host j) := by
  cases j with
  | onNewEvent e => exact keeping_onNewEvent e
  | onStartup => exact keeping_onStartup
  | onChannelJoin c m => exact keeping_onChannelJoin m
  | onChannelLeave c m => exact keeping_onChannelLeave m
  | syncDiscussionPrivacy c r => exact keeping_syncDiscussionPrivacy r
  | muteForSubscriber u room => exact Keeping.mute
  | cleanupUnlinkedDiscussion id new deleted => exact keeping_cleanup id new deleted
  | mirrorPost e => exact keeping_mirrorPost e
  | mirrorEdit e target => exact keeping_mirrorEdit e target
  | mirrorRedact e target => exact keeping_mirrorRedact e target

end Jobs

/-! ### What stands behind every change of a room -/

/-- An entry of the log of the module. -/
abbrev LogEntry := Entry World Job Op Res

/-- The law of the module: what holds of every run, whatever the events and the
answers. -/
def deputy : System.Law World Ev Job Op Res where
  I := fun _ => True
  J := fun _ _ _ => True
  A := fun _ _ => True
  P := deputyLaw

theorem deputy_keeps (host : PyStr) : (system host).Keeps (fun _ _ => True) deputy where
  code := fun _ _ j _ => (code_keeping j).mono fun _ _ _ => trivial
  later := fun _ _ _ _ _ _ => trivial
  event := fun _ _ _ _ => ⟨trivial, fun _ _ => trivial⟩
  op := fun _ _ _ _ _ _ _ _ _ _ _ => ⟨trivial, trivial, fun _ _ => trivial⟩

section Runs

variable {host : PyStr} {w : World} {as : List Act} {s : State} {l₁ l₂ : List LogEntry}
  {e : LogEntry} {C D : RoomId}

/-- A read of the state in the past of a thread is an entry that found that state. -/
theorem entry_of_read {i : ℕ} {room : RoomId} {type : PyStr} {ev : StateEvent}
    {log : List LogEntry} (hlog : System.TracedLog (system host) log)
    (h : ⟨.stateEvent (.str room) type, some (some ev)⟩ ∈ System.past log i) :
    ∃ e ∈ log, e.thread = i ∧ e.before.rooms.state room type [] = some ev := by
  obtain ⟨e, he, hi, hd⟩ := System.mem_past h
  obtain ⟨a, b, rfl⟩ := List.append_of_mem he
  obtain ⟨⟨c, hc⟩, -⟩ := hlog.of_split rfl
  refine ⟨e, he, hi, ?_⟩
  obtain ⟨th, o, j, before, done⟩ := e
  subst hd
  change some (some ev) = (perform channelSync host before (.stateEvent (.str room) type) c).2.1 at hc
  rw [perform_stateEvent] at hc
  split at hc
  · simp at hc
  · exact (Option.some.inj hc).symm

/-- A job for a channel was started by a callback that had read the channel's type. -/
theorem channel_of_job (hlaw : System.Lawful deputy s) (htr : System.Traced (system host) s)
    (hl : s.log = l₁ ++ e :: l₂) (hC : e.job.channel = some C) :
    ∃ e₁ ∈ l₂, e₁.origin = e.origin ∧ e₁.before.chatType C = .str channelTypeName := by
  obtain ⟨-, hst⟩ := htr.log.of_split hl
  rcases hst with ⟨v, ev, hj⟩ | ⟨e', he', ho, c, hj⟩
  · -- the jobs that outside events start are for no channel
    cases ev with
    | newEvent event =>
        rw [List.mem_singleton.1 hj] at hC
        cases hC
    | emptied room => cases hj
    | setRole user data => cases hj
    | restart =>
        rw [List.mem_singleton.1 hj] at hC
        cases hC
  · obtain ⟨a, b, rfl⟩ := List.append_of_mem he'
    have hop : e'.done.op = .background e.job := by
      rcases perform_cases channelSync host e'.before e'.done.op c with ⟨-, hb⟩ | ⟨ev, -, -, hb⟩
      · exact hb _ hj
      · change e.job ∈ (perform channelSync host e'.before e'.done.op c).2.2 at hj
        rw [hb, List.mem_singleton] at hj
        rw [hj] at hC
        cases hC
    have hl' : s.log = (l₁ ++ e :: a) ++ e' :: b := by rw [hl]; simp
    have hP := hlaw.log.of_split hl'
    change deputyLaw _ _ _ at hP
    rw [hop] at hP
    obtain ⟨event, -, hch⟩ := hP
    obtain ⟨-, ev, hev, htype⟩ := hch C hC
    obtain ⟨e₁, he₁, hth, hread⟩ := entry_of_read (htr.log.suffix hl') hev
    refine ⟨e₁, by simp [he₁], ?_, ?_⟩
    · rw [← ho]
      refine htr.origin_eq ?_ ?_ hth
      · rw [hl']
        simp [he₁]
      · rw [hl']
        simp
    · simp [World.chatType, hread, htype]

/-- The start-up pass found its channels to be channels. -/
theorem channel_of_found (htr : System.Traced (system host) s) (hl : s.log = l₁ ++ e :: l₂)
    {cs : List RoomId}
    (hcs : ⟨.own .findChannelRooms, some cs⟩ ∈ System.past l₂ e.thread) (hC : C ∈ cs) :
    ∃ e₁ ∈ l₂, e₁.origin = e.origin ∧ e₁.before.chatType C = .str channelTypeName := by
  obtain ⟨e₁, he₁, hth, hd⟩ := System.mem_past hcs
  obtain ⟨a, b, rfl⟩ := List.append_of_mem he₁
  have hl' : s.log = (l₁ ++ e :: a) ++ e₁ :: b := by rw [hl]; simp
  obtain ⟨⟨c, hc⟩, -⟩ := htr.log.of_split hl'
  refine ⟨e₁, he₁, htr.origin_eq (by rw [hl']; simp) (by rw [hl]; simp) hth, ?_⟩
  obtain ⟨th, o, j, before, done⟩ := e₁
  subst hd
  change some cs = (perform channelSync host before (.own .findChannelRooms) c).2.1 at hc
  cases c with
  | true => cases hc
  | false =>
      obtain rfl := Option.some.inj hc
      exact of_decide_eq_true (List.mem_filter.1 hC).2

/-- The operation of `e`, a change of `D`, was asked for on behalf of a channel
`C` that was read to be one, by a task that had read before a link of `C` naming
`D`; it is in the name of the creator of `D`, or the author of a post of `C` joins
in their own name.  The other case is the start-up pass, which opens the feed of
a channel in the name of its creator. -/
def StandsOnLink (e : LogEntry) (earlier : List LogEntry) (D : RoomId) : Prop :=
  ∃ C, (e.job.channel = some C ∨ e.job = .onStartup) ∧
    (∃ e₁ ∈ earlier, e₁.origin = e.origin ∧ e₁.before.chatType C = .str channelTypeName) ∧
    ((∃ e₂ ∈ earlier, e₂.thread = e.thread ∧ e₂.before.link C = .str D) ∧
        ((∃ e₃ ∈ earlier, e₃.thread = e.thread ∧ e₃.before.creator D = e.done.op.sender) ∨
          ∃ post hosts, e.job = .mirrorPost post ∧ e.done.op =
            .updateRoomMembership post.sender post.sender (.str D) .join hosts) ∨
      C = D ∧ ∃ e₃ ∈ earlier, e₃.thread = e.thread ∧ ∃ owner,
        e₃.before.creator D = some owner ∧ e.done.op = .sendEvent (openFeed C owner))

/-- **Behind every change of a room stands a channel's link to it**, in every run
of events, callbacks and background jobs, whatever raises. -/
theorem change_stands_on_link
    (h : Exec (system host).step (fun _ _ => True) (start w) as s)
    (hl : s.log = l₁ ++ e :: l₂) (ht : e.done.op.touches D) : StandsOnLink e l₂ D := by
  have hlaw := (deputy_keeps host).lawful (System.lawful_start trivial) h
  have htr := System.traced_start.exec h
  have hP := hlaw.log.of_split hl
  have htl := htr.log.suffix hl
  have hchannel : ∀ C, ActsFor e.job (System.past l₂ e.thread) C →
      (e.job.channel = some C ∨ e.job = .onStartup) ∧
        ∃ e₁ ∈ l₂, e₁.origin = e.origin ∧ e₁.before.chatType C = .str channelTypeName := by
    rintro C (hC | ⟨hj, cs, hcs, hC⟩)
    · exact ⟨.inl hC, channel_of_job hlaw htr hl hC⟩
    · exact ⟨.inr hj, channel_of_found htr hl hcs hC⟩
  have hlink : ∀ C, ReadLink (System.past l₂ e.thread) C (.str D) →
      ∃ e₂ ∈ l₂, e₂.thread = e.thread ∧ e₂.before.link C = .str D := by
    rintro C ⟨ev, hev, hD⟩
    obtain ⟨e₂, he₂, hth, hread⟩ := entry_of_read htl hev
    exact ⟨e₂, he₂, hth, by simp [World.link, hread, discussionRoomOf, hD]⟩
  have hcreator : ∀ u, ReadCreator (System.past l₂ e.thread) (.str D) u →
      ∃ e₃ ∈ l₂, e₃.thread = e.thread ∧ e₃.before.creator D = some u := by
    rintro u ⟨ev, hev, rfl⟩
    obtain ⟨e₃, he₃, hth, hread⟩ := entry_of_read htl hev
    exact ⟨e₃, he₃, hth, by simp [World.creator, hread]⟩
  obtain ⟨th, o, job, before, op, ans⟩ := e
  change deputyLaw job _ op at hP
  cases op with
  | updateRoomMembership sender target room action hosts =>
      obtain rfl : room = .str D := ht
      obtain ⟨C, hC, hD, howner⟩ := hP
      refine ⟨C, (hchannel C hC).1, (hchannel C hC).2, .inl ⟨hlink C hD, ?_⟩⟩
      rcases howner with ho | ⟨post, rfl, rfl, rfl, rfl⟩
      · exact .inl (hcreator sender ho)
      · exact .inr ⟨post, hosts, rfl, rfl⟩
  | sendEvent d =>
      obtain ⟨hroom, hkey⟩ : d.room = .str D ∧ d.stateKey.isSome := ht
      obtain ⟨C, hC, ho, hD⟩ := hP hkey
      rw [hroom] at ho hD
      refine ⟨C, (hchannel C hC).1, (hchannel C hC).2, ?_⟩
      rcases hD with hD | hfeed
      · exact .inl ⟨hlink C hD, .inl (hcreator d.sender ho)⟩
      · have hCD : C = D := by
          rw [hfeed] at hroom
          exact Json.str.inj hroom
        obtain ⟨e₃, he₃, hth, hread⟩ := hcreator d.sender ho
        exact .inr ⟨hCD, e₃, he₃, hth, d.sender, hread, by rw [← hfeed]⟩
  | _ => exact ht.elim

end Runs

/-! ### The other side is not asked -/

/-- The side of `D` has designated it as the discussion room of `C`: it is a
discussion room whose parent is `C`, or who linked it has power in it. -/
def World.Designated (w : World) (C D : RoomId) : Prop :=
  (w.chatType D = .str discussionChatType ∧
    discussionRoomOf ((w.rooms.state D channelParentState []).map StateEvent.content) = .str C) ∨
  ∃ ev ∈ w.rooms.state C channelDiscussionState [], 50 ≤ w.power D ev.sender

instance (w : World) (C D : RoomId) : Decidable (w.Designated C D) := by
  unfold World.Designated
  infer_instance

/-- A channel of `@eve:h` whose link names the closed room of `@bob:h`, who has
nothing to do with it. -/
def victimWorld : World :=
  worldOf
    [("!c", createState, ⟨"@eve:h", [(chatTypeKey, .str channelTypeName)]⟩),
      ("!c", channelDiscussionState, ⟨"@eve:h", [("room_id", .str "!d")]⟩),
      ("!c", joinRulesState, ⟨"@eve:h", [("join_rule", .str "invite")]⟩),
      ("!d", createState, ⟨"@bob:h", []⟩),
      ("!d", "m.room.power_levels", ⟨"@bob:h", [("users", .obj [("@bob:h", .int 100)])]⟩),
      ("!d", joinRulesState, ⟨"@bob:h", [("join_rule", .str "invite")]⟩)]
    [("!c", "@eve:h", .join), ("!d", "@bob:h", .join)]

/-- `@eve:h` opens her channel; the callback and the job it starts run on. -/
def victimRun : List Act :=
  [.event (.newEvent ⟨"$1", joinRulesState, "!c", "@eve:h", some [],
      [("join_rule", .str "public")], none⟩),
    .step 0 false, .step 0 false, .step 1 false, .step 1 false, .step 1 false]

/-- **Anybody's room can be opened:** the link alone makes the module change the
join rule of a room whose side never designated it, in the name of its creator. -/
theorem victim_opened :
    ∃ s, Exec (system "h").step (fun _ _ => True) (start victimWorld) victimRun s ∧
      (∃ e ∈ s.log, e.done.op.touches "!d" ∧ e.job.channel = some "!c" ∧
        e.done.op.sender = some "@bob:h" ∧ ¬e.before.Designated "!c" "!d" ∧
        ¬e.before.rooms.membership "!d" "@eve:h" = some .join) ∧
      s.world.joinRule "!d" = .str "public" :=
  exists_exec_of_runs (by decide +kernel)

/-- Even there the change stands on a link. -/
theorem victim_change_stands_on_link :
    ∃ s e l, Exec (system "h").step (fun _ _ => True) (start victimWorld) victimRun s ∧
      s.log = [] ++ e :: l ∧ e.done.op.touches "!d" ∧ StandsOnLink e l "!d" := by
  obtain ⟨s, hs, hp⟩ := exists_exec_of_runs (f := (system "h").step)
    (C := fun _ _ => True) (s := start victimWorld) (l := victimRun)
    (p := fun s => ∃ e ∈ s.log.head?, e.done.op.touches "!d") (by decide +kernel)
  obtain ⟨e, he, ht⟩ := hp
  have hl : s.log = [] ++ e :: s.log.tail := (List.cons_head?_tail he).symm
  exact ⟨s, e, s.log.tail, hs, hl, ht, change_stands_on_link hs hl ht⟩

end ChannelSync
end Liza
