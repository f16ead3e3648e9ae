/-
# Which rows a clean-up deletes

When the link of a channel changes, `_cleanup_unlinked_discussion` reads the link before
the event and decides on the two whether the rows of the former room are orphaned
(`should_cleanup_mappings`).  It sees one event only, and it deletes by room.  So rows of
another channel in the same room go with them, and rows whose channel was unlinked before
it was linked anew, or marked as deleted, stay.

A row of a channel should be gone when an event has marked the channel as deleted or
linked it to another room (`ends`).  This is what happens as long as the first such event
finds the channel linked to the room of the row, and a room that is cleaned up has rows of
one channel only.
-/

import Liza.ChannelSync.Points

set_option autoImplicit false

namespace Liza
namespace ChannelSync

open Lib Synapse

/-- The room that a link names. -/
def newRoomOf (e : Event) : Json := discussionRoomOf (some e.content)

/-- The link before a link event. -/
def World.prevRoomOf (w : World) (e : Event) : Json :=
  ((w.prev e.eventId).getD []).get "room_id"

/-- The job that cleans up after a link event. -/
def cleanupJob (e : Event) : Job :=
  .cleanupUnlinkedDiscussion e.eventId (newRoomOf e) (channelDeletedOf (some e.content))

section

variable (channelOf : EventId → RoomId)

/-- The event marks the channel of the row as deleted, or links it to another room. -/
def ends (row : MirrorRow) (e : Event) : Bool :=
  e.roomId = channelOf row.post &&
    (channelDeletedOf (some e.content) || (newRoomOf e ≠ .null && newRoomOf e ≠ .str row.room))

/-- The row should be gone. -/
def ended (es : List Ev) (row : MirrorRow) : Bool := (arrivals es).any (ends channelOf row)

/-- A clean-up deletes rows of its own channel only: the channel of the event that the job
goes back to. -/
def Isolated (s : State) : Prop :=
  ∀ entry ∈ s.log, ∀ room, entry.done.op = .own (.deleteByDiscussion room) →
    ∃ e, s.events[entry.origin]? = some (.newEvent e) ∧
      ∀ row ∈ entry.before.store, .str row.room = room → channelOf row.post = e.roomId

/-- When all jobs have ended, the rows that are gone are those that should be. -/
def Exact (rows : List MirrorRow) (s : State) : Prop :=
  System.Idle s → ∀ row ∈ rows, row ∈ s.world.store ↔ ended channelOf s.events row = false

/-- Links of any rooms arrive, each event once. -/
def Linking (s : State) : Act → Bool
  | .event (.newEvent e) => e.type = channelDiscussionState && e.stateKey = some [] &&
      (arrivals s.events).all fun e' => e'.eventId ≠ e.eventId
  | .event _ => false
  | .step _ _ => true

/-- The event that a thread goes back to is one of the channel of the row. -/
def ofOrigin (s : State) (o : ℕ) (row : MirrorRow) : Bool :=
  match s.events[o]? with
  | some (.newEvent e) => e.roomId = channelOf row.post
  | _ => false

/-- The first event that ends a row finds its channel linked to the room of the row, and
the rows of a room that is cleaned up are of the channel of the clean-up. -/
def Tidy (s : State) : Act → Bool
  | .event (.newEvent e) => s.world.store.all fun row =>
      !ends channelOf row e || ended channelOf s.events row || s.world.link e.roomId = .str row.room
  | .event _ => true
  | .step i _ =>
      match s.threads[i]? with
      | some ⟨o, _, .await (.own (.deleteByDiscussion room)) _⟩ =>
          s.world.store.all fun row => .str row.room ≠ room || ofOrigin channelOf s o row
      | _ => true

end

/-! ### The invariant -/

/-- A point of the job of a link event. -/
def CleanFits (w : World) (e : Event) : Point → Prop
  | .callback room job => room = e.roomId ∧ job = some (cleanupJob e)
  | .start job => job = cleanupJob e
  | .previous id new deleted => id = e.eventId ∧ new = newRoomOf e ∧
      deleted = channelDeletedOf (some e.content)
  | .sweep room => room = w.prevRoomOf e ∧
      shouldCleanupMappings room (newRoomOf e) (channelDeletedOf (some e.content)) = true
  | .ended => True
  | _ => False

/-- A point from which the job of a link event goes on to delete the rows of a room. -/
def WillSweep (w : World) (e : Event) (room : Json) (p : Point) : Prop :=
  w.chatType e.roomId = .str channelTypeName ∧ w.prevRoomOf e = room ∧
    shouldCleanupMappings room (newRoomOf e) (channelDeletedOf (some e.content)) = true ∧
    (p = .callback e.roomId (some (cleanupJob e)) ∨ p = .start (cleanupJob e) ∨
      p = .first (cleanupJob e) ∨ p = .sweep room)

/-- **The invariant**: a row that should stay is there, and one that should go is gone or
about to go. -/
structure Swept (channelOf : EventId → RoomId) (rows : List MirrorRow) (s : State) : Prop where
  channels : ∀ row ∈ rows, s.world.chatType (channelOf row.post) = .str channelTypeName
  store : s.world.store ⊆ rows
  fits : ∀ u ∈ s.threads, ∃ e p, s.events[u.origin]? = some (.newEvent e) ∧ At p u.rest ∧
    CleanFits s.world e p
  kept : ∀ row ∈ rows, ended channelOf s.events row = false → row ∈ s.world.store
  gone : ∀ row ∈ rows, ended channelOf s.events row = true → row ∉ s.world.store ∨
    ∃ e ∈ arrivals s.events, ∃ u ∈ s.threads, ∃ p, At p u.rest ∧
      WillSweep s.world e (.str row.room) p
  isolated : Isolated channelOf s

variable {channelOf : EventId → RoomId} {rows : List MirrorRow} {host : PyStr} {s t : State}
  {w w' : World} {e : Event} {row : MirrorRow} {i : ℕ} {raises : Bool} {p : Point}

/-- The rows of a room are cleaned up exactly by the events that end them. -/
theorem shouldCleanup_iff (hr : row.room ≠ []) (he : e.roomId = channelOf row.post) :
    shouldCleanupMappings (.str row.room) (newRoomOf e) (channelDeletedOf (some e.content)) =
      ends channelOf row e := by
  have htruthy : (Json.str row.room).truthy = true := by
    simpa [Json.truthy, List.isEmpty_iff] using hr
  simp only [shouldCleanupMappings, htruthy, Bool.not_true, Bool.false_eq_true, if_false, ends, he,
    decide_true, Bool.true_and]
  cases channelDeletedOf (some e.content) <;> simp

/-! ### One move -/

/-- A point that fits goes on to one that fits, and starts jobs that do. -/
theorem CleanFits.next (host : PyStr) (hf : CleanFits w e p) (hne : p ≠ .ended) :
    CleanFits w e (p.next w) ∧
      ∀ j ∈ (perform channelSync host w p.op false).2.2,
        ∃ q, At q (code host j) ∧ CleanFits w e q := by
  cases p with
  | callback room job =>
      obtain ⟨rfl, rfl⟩ := hf
      refine ⟨?_, fun j hj => by cases hj⟩
      simp only [Point.next]
      split
      · exact rfl
      · exact trivial
  | start job =>
      obtain rfl : job = cleanupJob e := hf
      refine ⟨trivial, fun j hj => ?_⟩
      obtain rfl := List.mem_singleton.1 hj
      exact ⟨.first (cleanupJob e), rfl, rfl, rfl, rfl⟩
  | previous id new deleted =>
      obtain ⟨rfl, rfl, rfl⟩ := hf
      refine ⟨?_, fun j hj => by cases hj⟩
      simp only [Point.next]
      split
      · rename_i hc
        exact ⟨rfl, hc⟩
      · exact trivial
  | sweep room => exact ⟨trivial, fun j hj => by cases hj⟩
  | ended => exact absurd rfl hne
  | _ => exact hf.elim

/-- What the operation at a point of a clean-up does to the world. -/
theorem CleanFits.world (host : PyStr) (hf : CleanFits w e p) (hne : p ≠ .ended) :
    (perform channelSync host w p.op false).1 = w ∨
      ∃ room, p = .sweep room ∧ (perform channelSync host w p.op false).1 =
        { w with store := w.store.filter fun row => .str row.room ≠ room } := by
  cases p with
  | sweep room => exact .inr ⟨room, rfl, rfl⟩
  | ended => exact absurd rfl hne
  | callback room job => exact .inl rfl
  | start job => exact .inl rfl
  | previous id new deleted => exact .inl rfl
  | _ => exact hf.elim

/-- A clean-up that is on its way goes on, or deletes the rows. -/
theorem WillSweep.next {room : Json} (host : PyStr) (hp : WillSweep w e room p) :
    WillSweep w e room (p.next w) ∨
      (∃ j ∈ (perform channelSync host w p.op false).2.2, ∃ q, At q (code host j) ∧
        WillSweep w e room q) ∨ p = .sweep room := by
  obtain ⟨hchat, hprev, hshould, rfl | rfl | rfl | rfl⟩ := hp
  · refine .inl ⟨hchat, hprev, hshould, .inr (.inl ?_)⟩
    simp only [Point.next, hchat, if_true]
  · exact .inr (.inl ⟨cleanupJob e, List.mem_singleton_self _,
      .first (cleanupJob e), rfl, hchat, hprev, hshould, .inr (.inr (.inl rfl))⟩)
  · refine .inl ⟨hchat, hprev, hshould, .inr (.inr (.inr ?_))⟩
    subst hprev
    exact if_pos hshould
  · exact .inr (.inr rfl)

theorem WillSweep.of_world {room : Json} (hp : WillSweep w e room p) (hr : w'.rooms = w.rooms)
    (hv : w'.prev = w.prev) : WillSweep w' e room p := by
  obtain ⟨hchat, hprev, hrest⟩ := hp
  refine ⟨?_, ?_, hrest⟩
  · simpa only [Synapse.World.chatType, hr] using hchat
  · simpa only [World.prevRoomOf, hv] using hprev

theorem CleanFits.of_prev (hf : CleanFits w e p) (hv : w'.prevRoomOf e = w.prevRoomOf e) :
    CleanFits w' e p := by
  cases p with
  | sweep room => exact ⟨hf.1.trans hv.symm, hf.2⟩
  | _ => exact hf

/-- **Every move of a thread keeps the invariant.** -/
theorem swept_step (hS : Swept channelOf rows s) (hrooms : ∀ row ∈ rows, row.room ≠ [])
    (hok : Succeeds host s (.step i raises) = true)
    (htidy : Tidy channelOf s (.step i raises) = true)
    (h : (system host).step s (.step i raises) = some t) : Swept channelOf rows t := by
  obtain ⟨_, hm, -⟩ | ⟨i', c, o, j, op, k, hm, hi, ht⟩ := System.step_cases h
  · cases hm
  obtain ⟨rfl, rfl⟩ := Move.step.inj hm
  have hlt : i < s.threads.length := (List.getElem?_eq_some_iff.1 hi).1
  simp only [Succeeds, hi, Bool.and_eq_true, Bool.not_eq_true'] at hok
  obtain ⟨rfl, hsend⟩ := hok
  have hsend' : ∀ d, op = .sendEvent d →
      (perform channelSync host s.world op false).2.1.isSome = true := by
    rintro d rfl
    exact hsend
  obtain ⟨e, p, hev, hat, hfit⟩ := hS.fits _ (List.mem_of_getElem? hi)
  have hne : p ≠ .ended := by
    rintro rfl
    exact hat
  obtain ⟨rfl, hnext⟩ := at_next hat host s.world hsend'
  have hworld : t.world = (perform channelSync host s.world p.op false).1 := by rw [ht]; rfl
  have hevents : t.events = s.events := by rw [ht]
  have hthreads : t.threads = s.threads.set i
      ⟨o, j, k (perform channelSync host s.world p.op false).2.1⟩ ++
      (system host).fork o (perform channelSync host s.world p.op false).2.2 := by rw [ht]; rfl
  have hkeep : t.world.rooms = s.world.rooms ∧ t.world.prev = s.world.prev := by
    rw [hworld]
    rcases hfit.world host hne with hw | ⟨room, -, hw⟩ <;> rw [hw] <;> exact ⟨rfl, rfl⟩
  have hprev : ∀ e, t.world.prevRoomOf e = s.world.prevRoomOf e := by
    intro e
    simp only [World.prevRoomOf, hkeep.2]
  -- the rows that are deleted are of the channel of the event
  have hdelete : ∀ room, p = .sweep room → ∀ row ∈ s.world.store, .str row.room = room →
      e.roomId = channelOf row.post := by
    rintro room rfl row hrow hroom
    simp only [Tidy, hi] at htidy
    obtain hk : Task.await (.own (.deleteByDiscussion room)) k = Point.task (.sweep room) := hat
    have hall : (s.world.store.all fun row =>
      decide (Json.str row.room ≠ room) || ofOrigin channelOf s o row) = true := htidy
    have := List.all_eq_true.1 hall row hrow
    simpa [hroom, ofOrigin, hev] using this
  have hself : ⟨o, j, k (perform channelSync host s.world p.op false).2.1⟩ ∈ t.threads := by
    rw [hthreads]
    exact List.mem_append_left _ (List.mem_set hlt _)
  have hforked : ∀ j' ∈ (perform channelSync host s.world p.op false).2.2,
      ⟨o, j', code host j'⟩ ∈ t.threads := by
    intro j' hj'
    rw [hthreads]
    exact List.mem_append_right _ (List.mem_map.2 ⟨j', hj', rfl⟩)
  refine ⟨?_, ?_, ?_, ?_, ?_, ?_⟩
  · intro row hrow
    simp only [Synapse.World.chatType, hkeep.1]
    exact hS.channels row hrow
  · rw [hworld]
    rcases hfit.world host hne with hw | ⟨room, -, hw⟩ <;> rw [hw]
    · exact hS.store
    · exact List.Subset.trans (List.filter_subset_self _) hS.store
  · intro u hu
    rw [hevents]
    rw [hthreads] at hu
    obtain ⟨l, hl⟩ := List.mem_iff_getElem?.1 hu
    rcases getElem?_moved hl with ⟨-, rfl⟩ | ⟨-, hl⟩ | hfork
    · exact ⟨e, _, hev, hnext, (hfit.next host hne).1.of_prev (hprev e)⟩
    · obtain ⟨e', p', hev', hat', hfit'⟩ := hS.fits u (List.mem_of_getElem? hl)
      exact ⟨e', p', hev', hat', hfit'.of_prev (hprev e')⟩
    · obtain ⟨j', hj', rfl⟩ := System.mem_fork hfork
      obtain ⟨q, hq, hfq⟩ := (hfit.next host hne).2 j' hj'
      exact ⟨e, q, hev, hq, hfq.of_prev (hprev e)⟩
  · intro row hrow hnot
    rw [hevents] at hnot
    have hold := hS.kept row hrow hnot
    rw [hworld]
    rcases hfit.world host hne with hw | ⟨room, hp, hw⟩ <;> rw [hw]
    · exact hold
    · refine List.mem_filter.2 ⟨hold, decide_eq_true fun hroom => ?_⟩
      -- the event of the clean-up ends the row
      have hch := hdelete room hp row hold hroom
      subst hp
      have hends : ends channelOf row e = true := by
        rw [← shouldCleanup_iff (hrooms row hrow) hch, hroom]
        exact hfit.2
      have hmem : e ∈ arrivals s.events := mem_arrivals.2 (List.mem_of_getElem? hev)
      have hyes : ended channelOf s.events row = true := List.any_eq_true.2 ⟨e, hmem, hends⟩
      rw [hnot] at hyes
      cases hyes
  · intro row hrow hyes
    rw [hevents] at hyes ⊢
    have hsub : t.world.store ⊆ s.world.store := by
      rw [hworld]
      rcases hfit.world host hne with hw | ⟨room, -, hw⟩ <;> rw [hw]
      · exact fun _ => id
      · exact List.filter_subset_self _
    rcases hS.gone row hrow hyes with hgone | ⟨e', he', u, hu, q, hq, hwill⟩
    · exact .inl fun hin => hgone (hsub hin)
    · obtain ⟨l, hl⟩ := List.mem_iff_getElem?.1 hu
      by_cases hli : l = i
      · subst hli
        obtain rfl := Option.some.inj (hi.symm.trans hl)
        obtain ⟨hop, hnext'⟩ := at_next hq host s.world hsend'
        rcases hwill.next host with hgo | ⟨j', hj', q', hq', hgo⟩ | rfl
        · exact .inr ⟨e', he', _, hself, _, hnext', hgo.of_world hkeep.1 hkeep.2⟩
        · rw [← hop] at hj'
          exact .inr ⟨e', he', _, hforked j' hj', q', hq', hgo.of_world hkeep.1 hkeep.2⟩
        · refine .inl ?_
          rw [hworld, hop]
          intro hin
          have := (List.mem_filter.1 hin).2
          simp at this
      · refine .inr ⟨e', he', u, ?_, q, hq, hwill.of_world hkeep.1 hkeep.2⟩
        rw [hthreads]
        exact List.mem_of_getElem? (moved_other hli hl)
  · intro entry hentry room hop
    rw [hevents]
    have hlog : t.log = ⟨i, o, j, s.world,
        ⟨p.op, (perform channelSync host s.world p.op false).2.1⟩⟩ :: s.log := by rw [ht]; rfl
    rw [hlog] at hentry
    rcases List.mem_cons.1 hentry with rfl | hentry
    · refine ⟨e, hev, fun row hrow hroom => ?_⟩
      have hp : p = .sweep room := by
        cases p with
        | sweep room' =>
            have : room' = room := by simpa [Point.op] using hop
            rw [this]
        | ended => exact absurd rfl hne
        | callback _ _ => cases hop
        | start _ => cases hop
        | previous _ _ _ => cases hop
        | _ => exact hfit.elim
      exact (hdelete room hp row hrow hroom).symm
    · exact hS.isolated entry hentry room hop

/-! ### A link event -/

theorem ended_append (es : List Ev) (e : Event) (row : MirrorRow) :
    ended channelOf (es ++ [Ev.newEvent e]) row =
      (ends channelOf row e || ended channelOf es row) := by
  simp [ended, arrivals]

/-- The job of a link event. -/
theorem jobOf_link (ht : e.type = channelDiscussionState) : jobOf e = some (cleanupJob e) := by
  simp only [jobOf, ht, if_true, cleanupJob, newRoomOf]

/-- What is remembered of a link event when it arrives is the link that it replaces. -/
theorem prevRoomOf_persist_self (w : World) (ht : e.type = channelDiscussionState)
    (hk : e.stateKey = some []) :
    World.prevRoomOf (w.persist e) e = w.link e.roomId := by
  simp only [World.prevRoomOf, Synapse.World.persist, if_true, hk, Option.bind_some, ht,
    World.link, discussionRoomOf]
  cases w.rooms.state e.roomId channelDiscussionState [] with
  | none => rfl
  | some ev => rfl

theorem prevRoomOf_persist_of_ne (w : World) {e' : Event} (hne : e'.eventId ≠ e.eventId) :
    World.prevRoomOf (w.persist e) e' = w.prevRoomOf e' := by
  simp only [World.prevRoomOf, Synapse.World.persist, if_neg hne]

/-- **The arrival of a link event keeps the invariant.** -/
theorem swept_event (hS : Swept channelOf rows s) (hrooms : ∀ row ∈ rows, row.room ≠ [])
    (hlink : Linking s (.event (.newEvent e)) = true)
    (htidy : Tidy channelOf s (.event (.newEvent e)) = true)
    (h : (system host).step s (.event (.newEvent e)) = some t) : Swept channelOf rows t := by
  simp only [Linking, Bool.and_eq_true, decide_eq_true_eq, List.all_eq_true] at hlink
  obtain ⟨⟨htype, hkey⟩, hfresh⟩ := hlink
  have ht := Option.some.inj h
  have hevents : t.events = s.events ++ [Ev.newEvent e] := by rw [← ht]
  have hworld : t.world = s.world.persist e := by rw [← ht]; rfl
  have hstore : t.world.store = s.world.store := by rw [hworld]; rfl
  have hlog : t.log = s.log := by rw [← ht]
  have hthreads : t.threads = s.threads ++ [⟨s.events.length, .onNewEvent e, onNewEvent host e⟩] := by
    rw [← ht]
    rfl
  have hchat : ∀ room, t.world.chatType room = s.world.chatType room := by
    intro room
    rw [hworld]
    simp only [Synapse.World.chatType, Synapse.World.persist]
    rw [Rooms.persist_state_of_ne]
    rintro ⟨-, hc, -⟩
    rw [htype] at hc
    exact absurd hc (by decide)
  -- the links before the earlier events are still remembered
  have hprev : ∀ e' ∈ arrivals s.events, t.world.prevRoomOf e' = s.world.prevRoomOf e' := by
    intro e' he'
    rw [hworld]
    exact prevRoomOf_persist_of_ne _ (hfresh e' he')
  have hget : ∀ (o : ℕ) (e' : Event), s.events[o]? = some (.newEvent e') →
      t.events[o]? = some (.newEvent e') := by
    intro o e' ho
    rw [hevents, List.getElem?_append_left (List.getElem?_eq_some_iff.1 ho).1, ho]
  have hself : ∀ u ∈ s.threads, u ∈ t.threads := by
    intro u hu
    rw [hthreads]
    exact List.mem_append_left _ hu
  obtain ⟨q, hq, hshape⟩ := onNewEvent_at host (e := e) (by simp [followed, htype])
  obtain rfl : q = .callback e.roomId (some (cleanupJob e)) := by
    rcases hshape with rfl | ⟨-, hnone⟩
    · rw [jobOf_link htype]
    · rw [jobOf_link htype] at hnone
      cases hnone
  refine ⟨?_, ?_, ?_, ?_, ?_, ?_⟩
  · intro row hrow
    rw [hchat]
    exact hS.channels row hrow
  · rw [hstore]
    exact hS.store
  · intro u hu
    rw [hthreads] at hu
    rcases List.mem_append.1 hu with hu | hu
    · obtain ⟨e', p', hev', hat', hfit'⟩ := hS.fits u hu
      have he' : e' ∈ arrivals s.events := mem_arrivals.2 (List.mem_of_getElem? hev')
      exact ⟨e', p', hget _ _ hev', hat', hfit'.of_prev (hprev e' he')⟩
    · obtain rfl := List.mem_singleton.1 hu
      refine ⟨e, _, ?_, hq, rfl, rfl⟩
      rw [hevents]
      simp
  · intro row hrow hnot
    rw [hevents, ended_append, Bool.or_eq_false_iff] at hnot
    rw [hstore]
    exact hS.kept row hrow hnot.2
  · intro row hrow hyes
    rw [hstore]
    have harrivals : ∀ e', e' ∈ arrivals s.events → e' ∈ arrivals t.events := by
      intro e' he'
      rw [hevents]
      exact mem_arrivals.2 (List.mem_append_left _ (mem_arrivals.1 he'))
    by_cases hbefore : ended channelOf s.events row = true
    · refine (hS.gone row hrow hbefore).imp id ?_
      rintro ⟨e', he', u, hu, p', hat', hwill⟩
      obtain ⟨hc, hp, hrest⟩ := hwill
      exact ⟨e', harrivals e' he', u, hself u hu, p', hat', (hchat _).trans hc,
        (hprev e' he').trans hp, hrest⟩
    · by_cases hin : row ∈ s.world.store
      · -- this is the first event that ends the row
        rw [hevents, ended_append, Bool.or_eq_true] at hyes
        have hends := hyes.resolve_right hbefore
        have hroom : e.roomId = channelOf row.post := by
          simp only [ends, Bool.and_eq_true, decide_eq_true_eq] at hends
          exact hends.1
        have hnow : s.world.link e.roomId = .str row.room := by
          simpa [hends, hbefore] using List.all_eq_true.1 htidy row hin
        refine .inr ⟨e, ?_, ⟨s.events.length, .onNewEvent e, onNewEvent host e⟩, ?_, _, hq, ?_, ?_,
          ?_, .inl rfl⟩
        · rw [hevents]
          exact mem_arrivals.2 (List.mem_append_right _ (List.mem_singleton_self _))
        · rw [hthreads]
          exact List.mem_append_right _ (List.mem_singleton_self _)
        · rw [hchat, hroom]
          exact hS.channels row hrow
        · rw [hworld, prevRoomOf_persist_self _ htype hkey, hnow]
        · rw [shouldCleanup_iff (hrooms row hrow) hroom, hends]
      · exact .inl hin
  · intro entry hentry room hop
    rw [hlog] at hentry
    obtain ⟨e', hev', hrows⟩ := hS.isolated entry hentry room hop
    exact ⟨e', hget _ _ hev', hrows⟩

/-! ### Runs -/

theorem swept_start
    (hchannel : ∀ row ∈ w.store, w.chatType (channelOf row.post) = .str channelTypeName) :
    Swept channelOf w.store (Synapse.start w) where
  channels := hchannel
  store := fun _ => id
  fits := by simp [Synapse.start]
  kept := fun _ hrow _ => hrow
  gone := by simp [ended, arrivals, Synapse.start]
  isolated := by simp [Isolated, Synapse.start]

/-- When all jobs have ended, no clean-up is on its way. -/
theorem Swept.exact (hS : Swept channelOf rows s) : Exact channelOf rows s := by
  intro hidle row hrow
  constructor
  · intro hin
    refine Bool.eq_false_iff.2 fun hyes => ?_
    rcases hS.gone row hrow hyes with hgone | ⟨e, -, u, hu, p, hat, hwill⟩
    · exact hgone hin
    · obtain ⟨-, -, -, hp⟩ := hwill
      rw [hat.eq_ended (hidle u hu)] at hp
      simp [cleanupJob, Point.first] at hp
  · exact hS.kept row hrow

/-- **Clean-ups are isolated and exact**, in every run of link events in which each row is
ended from its own room and no room is cleaned up that has rows of another channel. -/
theorem cleanup_isolated_exact {as : List Act}
    (hchannel : ∀ row ∈ w.store, w.chatType (channelOf row.post) = .str channelTypeName)
    (hrooms : ∀ row ∈ w.store, row.room ≠ [])
    (h : Exec (system host).step
      (fun s a => (Linking s a && Succeeds host s a && Tidy channelOf s a) = true)
      (Synapse.start w) as s) :
    Isolated channelOf s ∧ Exact channelOf w.store s := by
  have hS : Swept channelOf w.store s := by
    refine h.invariant (I := Swept channelOf w.store) (swept_start hchannel) ?_
    intro s a t hS hc hstep
    simp only [Bool.and_eq_true] at hc
    obtain ⟨⟨hlink, hok⟩, htidy⟩ := hc
    cases a with
    | step i raises => exact swept_step hS hrooms hok htidy hstep
    | event ev =>
        cases ev with
        | newEvent e => exact swept_event hS hrooms hlink htidy hstep
        | _ => cases hlink
  exact ⟨hS.isolated, hS.exact⟩

/-- Two channels with posts in one discussion room. -/
def sharedWorld : World :=
  { worldOf
      [("!c", createState, ⟨"@ann:h", [(chatTypeKey, .str channelTypeName)]⟩),
        ("!c", channelDiscussionState, ⟨"@ann:h", [("room_id", .str "!d")]⟩),
        ("!b", createState, ⟨"@bob:h", [(chatTypeKey, .str channelTypeName)]⟩),
        ("!b", channelDiscussionState, ⟨"@bob:h", [("room_id", .str "!d")]⟩)]
      [] with
    store := [⟨"$c", "$m", "!d"⟩, ⟨"$b", "$n", "!d"⟩] }

/-- `$b` is a post of `!b`, any other one of `!c`. -/
def postChannel (post : EventId) : RoomId := if post = py "$b" then "!b" else "!c"

/-- The channel `!c` is linked to a room, or to none. -/
def linkEvent (id : EventId) (room : Option RoomId) : Event :=
  ⟨id, channelDiscussionState, "!c", "@ann:h", some [],
    (room.map fun r => [(py "room_id", Json.str r)]).getD [], none⟩

/-- `!c` moves to the room `!e`. -/
def movedAway : List Act :=
  .event (.newEvent (linkEvent "$1" (some "!e"))) :: [0, 0, 1, 1].map fun i => .step i false

/-- `!c` moves to the room `!e` as well, but is unlinked first. -/
def unlinkedFirst : List Act :=
  Move.event (Ev.newEvent (linkEvent "$1" none)) :: ([0, 0, 1].map fun i => Move.step i false) ++
  Move.event (Ev.newEvent (linkEvent "$2" (some "!e"))) :: [2, 2, 3].map fun i => Move.step i false

/-- The room whose rows an operation deletes. -/
def sweptRoom : Op → Option Json
  | .own (.deleteByDiscussion room) => some room
  | _ => none

theorem sweptRoom_eq_some {op : Op} {room : Json} (h : sweptRoom op = some room) :
    op = .own (.deleteByDiscussion room) := by
  unfold sweptRoom at h
  split at h
  · rw [Option.some.inj h]
  · cases h

/-- **A clean-up deletes the rows of another channel, and an unlinking in between keeps
rows of a room that the channel has left.** -/
theorem cleanup_sweeps_shared_room :
    (∃ s, Exec (system "h").step (fun s a => (Linking s a && Succeeds "h" s a) = true)
        (Synapse.start sharedWorld) movedAway s ∧ System.Idle s ∧
      ¬Isolated postChannel s ∧ ¬Exact postChannel sharedWorld.store s) ∧
    ∃ s, Exec (system "h").step (fun s a => (Linking s a && Succeeds "h" s a) = true)
        (Synapse.start sharedWorld) unlinkedFirst s ∧ System.Idle s ∧
      s.world.link "!c" = .str "!e" ∧ ¬Exact postChannel sharedWorld.store s := by
  constructor
  · obtain ⟨s, hs, hidle, hnone, hstays, entry, hentry, hswept, hrow, hother⟩ :=
      exists_exec_of_runs (f := (system "h").step)
        (C := fun s a => (Linking s a && Succeeds "h" s a) = true)
        (s := Synapse.start sharedWorld) (l := movedAway)
        (p := fun s => System.Idle s ∧ s.world.store = [] ∧
          ended postChannel s.events ⟨"$b", "$n", "!d"⟩ = false ∧
          ∃ entry ∈ s.log, sweptRoom entry.done.op = some (.str "!d") ∧
            ⟨"$b", "$n", "!d"⟩ ∈ entry.before.store ∧
            ofOrigin postChannel s entry.origin ⟨"$b", "$n", "!d"⟩ = false) (by decide +kernel)
    refine ⟨s, hs, hidle, fun hisolated => ?_, fun hexact => ?_⟩
    · obtain ⟨e, hev, hown⟩ := hisolated entry hentry _ (sweptRoom_eq_some hswept)
      have hroom := hown _ hrow rfl
      simp [ofOrigin, hev, hroom] at hother
    · have hin := (hexact hidle ⟨"$b", "$n", "!d"⟩ (by decide)).2 hstays
      rw [hnone] at hin
      cases hin
  · obtain ⟨s, hs, hidle, hlink, hstore, hended⟩ :=
      exists_exec_of_runs (f := (system "h").step)
        (C := fun s a => (Linking s a && Succeeds "h" s a) = true)
        (s := Synapse.start sharedWorld) (l := unlinkedFirst)
        (p := fun s => System.Idle s ∧ s.world.link "!c" = .str "!e" ∧
          s.world.store = sharedWorld.store ∧
          ended postChannel s.events ⟨"$c", "$m", "!d"⟩ = true) (by decide +kernel)
    refine ⟨s, hs, hidle, hlink, fun hexact => ?_⟩
    have hrow : ⟨"$c", "$m", "!d"⟩ ∈ sharedWorld.store := by decide
    have hnot := (hexact hidle _ hrow).1 (by rw [hstore]; exact hrow)
    rw [hended] at hnot
    cases hnot

/-- `!c` is unlinked, linked again and moved, with a row of its own only. -/
def relinked : List Act :=
  Move.event (Ev.newEvent (linkEvent "$1" none)) :: ([0, 0, 1].map fun i => Move.step i false) ++
  Move.event (Ev.newEvent (linkEvent "$2" (some "!d"))) :: Move.event (Ev.newEvent (linkEvent "$3" (some "!e"))) ::
  [2, 3, 2, 3, 5, 4, 5].map fun i => Move.step i false

theorem relinked_isolated_exact :
    ∃ s, Exec (system "h").step
        (fun s a => (Linking s a && Succeeds "h" s a && Tidy postChannel s a) = true)
        (Synapse.start { sharedWorld with store := [⟨"$c", "$m", "!d"⟩] }) relinked s ∧
      System.Idle s ∧ s.world.store = [] ∧ Isolated postChannel s ∧
      Exact postChannel [⟨"$c", "$m", "!d"⟩] s := by
  obtain ⟨s, hs, hidle, hstore⟩ := exists_exec_of_runs (f := (system "h").step)
    (C := fun s a => (Linking s a && Succeeds "h" s a && Tidy postChannel s a) = true)
    (s := Synapse.start { sharedWorld with store := [⟨"$c", "$m", "!d"⟩] }) (l := relinked)
    (p := fun s => System.Idle s ∧ s.world.store = []) (by decide +kernel)
  exact ⟨s, hs, hidle, hstore, cleanup_isolated_exact (by decide +kernel) (by decide) hs⟩

end ChannelSync
end Liza
