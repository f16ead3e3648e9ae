/-
# The points of the mirroring jobs

The jobs that copy the posts of a channel into its discussion room, and the job that
cleans up after a discussion room, with their awaits named: `Point.task` is what is left
of the code at a point, and `Point.next` where the job goes on in a given world.  No
operation raises here, and every send succeeds, so the branch of `_mirror_post` that
brings the author into the room is not among the points.  The callback of an event of the
types below reads the type of the room and starts the job of the event (`jobOf`), if the
room is a channel.
-/

import Liza.ChannelSync.Module
import Liza.Lib.Points

set_option autoImplicit false

namespace Liza
namespace ChannelSync

open Lib Synapse

/-- `m.room.message`. -/
def messageType : PyStr := "m.room.message"

/-- `m.room.redaction`. -/
def redactionType : PyStr := "m.room.redaction"

deriving instance DecidableEq for Event

/-- The events that have arrived, latest first. -/
def arrivals (es : List Ev) : List Event :=
  (es.filterMap fun
    | .newEvent e => some e
    | _ => none).reverse

theorem mem_arrivals {es : List Ev} {e : Event} : e ∈ arrivals es ↔ .newEvent e ∈ es := by
  simp only [arrivals, List.mem_reverse, List.mem_filterMap]
  constructor
  · rintro ⟨ev, hev, h⟩
    split at h
    · obtain rfl := Option.some.inj h
      exact hev
    · cases h
  · intro h
    exact ⟨_, h, rfl⟩

/-- The job that the callback starts for an event of a channel: of a message, a redaction
or a link. -/
def jobOf (e : Event) : Option Job :=
  if e.type = channelDiscussionState then
    some (.cleanupUnlinkedDiscussion e.eventId (discussionRoomOf (some e.content))
      (channelDeletedOf (some e.content)))
  else if isRootPost e.type e.content then some (.mirrorPost e)
  else if e.type = messageType then
    match isEdit e.content, editedEventId e.content with
    | some true, some target => if target.truthy then some (.mirrorEdit e target) else none
    | _, _ => none
  else
    match e.redacts with
    | some target => if target ≠ [] then some (.mirrorRedact e target) else none
    | none => none

/-- The types of event that are followed here. -/
def followed (e : Event) : Bool :=
  e.type = messageType || e.type = redactionType || e.type = channelDiscussionState

/-- Where a job stands: at one of its awaits, or at its end. -/
inductive Point where
  /-- The callback reads the type of the room. -/
  | callback (room : RoomId) (job : Option Job)
  /-- It starts the job. -/
  | start (job : Job)
  /-- `_mirror_post` asks whether the post is mirrored already. -/
  | check (e : Event)
  /-- It reads the link of the channel. -/
  | link (e : Event)
  /-- It sends the mirror. -/
  | send (e : Event) (room : Json)
  /-- It records the mirror. -/
  | record (post mirror : EventId) (room : Json)
  /-- `_mirror_edit` looks for the mirror of the edited post. -/
  | findEdited (e : Event) (target : Json)
  /-- It sends the edit of the mirror. -/
  | sendEdit (d : EventDict)
  /-- `_mirror_redact` looks for the mirror of the redacted post. -/
  | findRedacted (e : Event) (post : EventId)
  /-- It redacts the mirror. -/
  | sendRedaction (e : Event) (post mirror : EventId) (room : RoomId)
  /-- It deletes the row of the post. -/
  | forget (post : EventId)
  /-- `_cleanup_unlinked_discussion` reads the link before the event. -/
  | previous (eventId : EventId) (newRoom : Json) (channelDeleted : Bool)
  /-- It deletes the rows of the room. -/
  | sweep (room : Json)
  | ended

/-- The redaction of a mirror. -/
def redactionDict (e : Event) (mirror : EventId) (room : RoomId) : EventDict :=
  { type := "m.room.redaction", room := .str room, sender := e.sender, stateKey := none,
    content := [], redacts := some mirror }

/-- The mirror of a post. -/
def mirrorDict (e : Event) (room : Json) : EventDict :=
  { type := "m.room.message", room, sender := e.sender, stateKey := none,
    content := buildMirrorContent e.content e.roomId e.eventId, redacts := none }

/-- The content of the edit of a mirror. -/
def editContent (new : Dict) (mirror : EventId) : Dict :=
  new.set relates (.obj [("rel_type", .str "m.replace"), ("event_id", .str mirror)])

/-- The edit of a mirror. -/
def editDict (e : Event) (new : Dict) (mirror : EventId) (room : RoomId) : EventDict :=
  { type := "m.room.message", room := .str room, sender := e.sender, stateKey := none,
    content := editContent new mirror, redacts := none }

/-- What is left of the code. -/
def Point.task : Point → Code Unit
  | .callback room job => do
      let chatType ← channelType (.str room)
      match job with
      | some job => if chatType = .str channelTypeName then call (.background job) else .ret ()
      | none => .ret ()
  | .start job => call (.background job)
  | .check e => mirrorPost e
  | .link e => do
      let discussion ← discussionRoom e.roomId
      if discussion = .null then .ret () else
      mirrorTo e discussion
  | .send e room => mirrorTo e room
  | .record post mirror room => call (.own (.putMirror post mirror room))
  | .findEdited e target => mirrorEdit e target
  | .sendEdit d => attempt (call (.sendEvent d))
  | .findRedacted e post => mirrorRedact e post
  | .sendRedaction e post mirror room => do
      let sent ← (call (.sendEvent (redactionDict e mirror room)) >>=
        fun _ => .ret true).orElse (.ret false)
      if sent then call (.own (.deleteMirror post)) else .ret ()
  | .forget post => call (.own (.deleteMirror post))
  | .previous eventId newRoom channelDeleted =>
      cleanupUnlinkedDiscussion eventId newRoom channelDeleted
  | .sweep room => call (.own (.deleteByDiscussion room))
  | .ended => .ret ()
where
  /-- `_mirror_post` from its first send on. -/
  mirrorTo (e : Event) (discussion : Json) : Code Unit := do
    let content := buildMirrorContent e.content e.roomId e.eventId
    let first ← trySendMirror e.sender discussion content
    match first with
    | some mirror => call (.own (.putMirror e.eventId mirror discussion))
    | none =>
      let joined ← ensureAuthorInDiscussion e.sender discussion
      if !joined then .ret () else
      let second ← trySendMirror e.sender discussion content
      match second with
      | some mirror => call (.own (.putMirror e.eventId mirror discussion))
      | none => .ret ()

/-- What the job awaits. -/
def Point.op : Point → Op
  | .callback room _ => .stateEvent (.str room) createState
  | .start job => .background job
  | .check e => .own (.alreadyMirrored e.eventId)
  | .link e => .stateEvent (.str e.roomId) channelDiscussionState
  | .send e room => .sendEvent (mirrorDict e room)
  | .record post mirror room => .own (.putMirror post mirror room)
  | .findEdited _ target => .own (.getMirror target)
  | .sendEdit d => .sendEvent d
  | .findRedacted _ post => .own (.getMirror (.str post))
  | .sendRedaction e _ mirror room => .sendEvent (redactionDict e mirror room)
  | .forget post => .own (.deleteMirror post)
  | .previous eventId _ _ => .prevContent eventId
  | .sweep room => .own (.deleteByDiscussion room)
  | .ended => .sleep

/-- The row of a post. -/
def World.rowOf (w : World) (post : Json) : Option MirrorRow :=
  w.store.find? fun row => .str row.post = post

/-- Where the job stands after its operation, in the world it is performed in. -/
def Point.next (w : World) : Point → Point
  | .callback room (some job) =>
      if w.chatType room = .str channelTypeName then .start job else .ended
  | .check e => if w.store.any fun row => row.post = e.eventId then .ended else .link e
  | .link e => if w.link e.roomId = .null then .ended else .send e (w.link e.roomId)
  | .send e room => .record e.eventId (sentId w.count) room
  | .findEdited e target =>
      match w.rowOf target, dictOf (e.content.get "m.new_content") with
      | some row, some new => .sendEdit (editDict e new row.mirror row.room)
      | _, _ => .ended
  | .findRedacted e post =>
      match w.rowOf (.str post) with
      | some row => .sendRedaction e post row.mirror row.room
      | none => .ended
  | .sendRedaction _ post _ _ => .forget post
  | .previous eventId newRoom channelDeleted =>
      let prevRoom := ((w.prev eventId).getD []).get "room_id"
      if shouldCleanupMappings prevRoom newRoom channelDeleted then .sweep prevRoom else .ended
  | _ => .ended

/-- The code at a point; at the end it does not matter how a job has ended. -/
def At : Point → Code Unit → Prop
  | .ended, t => t.Ended
  | p, t => t = p.task

variable {p q : Point} {w : World} {host : PyStr} {op : Op} {k : Option (Res op) → Code Unit}

@[simp]
theorem at_task (p : Point) : At p p.task := by
  cases p <;> first | rfl | exact trivial

theorem at_ite {c : Prop} [Decidable c] {t u : Code Unit} (hp : At p t) (hq : At q u) :
    At (if c then p else q) (if c then t else u) := by
  split
  · exact hp
  · exact hq

/-- The event that a send creates. -/
def sentEvent (w : World) (d : EventDict) (room : RoomId) : Event :=
  { eventId := sentId w.count, type := d.type, roomId := room, sender := d.sender,
    stateKey := d.stateKey, content := d.content, redacts := d.redacts }

/-- What a send does that is answered: its event is persisted, and its callback starts. -/
theorem perform_sendEvent {d : EventDict}
    (hs : (perform channelSync host w (.sendEvent d) false).2.1.isSome = true) :
    ∃ room, d.room = .str room ∧ perform channelSync host w (.sendEvent d) false =
      (w.create (sentEvent w d room), some (sentId w.count),
        [.onNewEvent (sentEvent w d room)]) := by
  have hcomplete : perform channelSync host w (.sendEvent d) false =
      complete channelSync host w (.sendEvent d) := rfl
  rw [hcomplete] at hs ⊢
  simp only [complete] at hs ⊢
  cases hc : createdEvent host w (.sendEvent d : Op) with
  | none =>
      rw [hc] at hs
      cases hs
  | some e =>
      simp only [createdEvent] at hc
      split at hc
      · rename_i room hroom
        split at hc
        · obtain rfl := Option.some.inj hc
          exact ⟨room, hroom, rfl⟩
        · cases hc
      · cases hc

/-- **A job goes on to the next point**, where its operation does not raise and a send is
answered. -/
theorem at_next (ha : At p (.await op k)) (host : PyStr) (w : World)
    (hsend : ∀ d, op = .sendEvent d → (perform channelSync host w op false).2.1.isSome = true) :
    op = p.op ∧ At (p.next w) (k (perform channelSync host w op false).2.1) := by
  cases p with
  | callback room job =>
      cases ha
      refine ⟨rfl, ?_⟩
      cases job with
      | none => exact trivial
      | some job => exact at_ite (at_task (.start job)) (at_task .ended)
  | start job =>
      cases ha
      exact ⟨rfl, trivial⟩
  | check e =>
      cases ha
      exact ⟨rfl, at_ite (at_task .ended) (at_task (.link e))⟩
  | link e =>
      cases ha
      exact ⟨rfl, at_ite (at_task .ended) (at_task (.send e _))⟩
  | send e room =>
      cases ha
      refine ⟨rfl, ?_⟩
      obtain ⟨_, -, hp⟩ := perform_sendEvent (hsend _ rfl)
      rw [hp]
      rfl
  | record post mirror room =>
      cases ha
      refine ⟨rfl, ?_⟩
      cases room <;> exact trivial
  | findEdited e target =>
      cases ha
      refine ⟨rfl, ?_⟩
      have h : (perform channelSync host w (.own (.getMirror target)) false).2.1 =
        some ((w.rowOf target).map fun row => (row.mirror, row.room)) := rfl
      rw [h]
      simp only [Point.next]
      cases w.rowOf target with
      | none => exact trivial
      | some row =>
          simp only [Option.map_some]
          cases dictOf (e.content.get "m.new_content") with
          | none => exact trivial
          | some new => exact at_task (.sendEdit (editDict e new row.mirror row.room))
  | sendEdit d =>
      cases ha
      refine ⟨rfl, ?_⟩
      obtain ⟨_, -, hp⟩ := perform_sendEvent (hsend _ rfl)
      rw [hp]
      exact trivial
  | findRedacted e post =>
      cases ha
      refine ⟨rfl, ?_⟩
      have h : (perform channelSync host w (.own (.getMirror (.str post))) false).2.1 =
        some ((w.rowOf (.str post)).map fun row => (row.mirror, row.room)) := rfl
      rw [h]
      simp only [Point.next]
      cases w.rowOf (.str post) with
      | none => exact trivial
      | some row => exact at_task (.sendRedaction e post row.mirror row.room)
  | sendRedaction e post mirror room =>
      cases ha
      refine ⟨rfl, ?_⟩
      obtain ⟨_, -, hp⟩ := perform_sendEvent (hsend _ rfl)
      rw [hp]
      exact at_task (.forget post)
  | forget post =>
      cases ha
      exact ⟨rfl, trivial⟩
  | previous id new deleted =>
      cases ha
      exact ⟨rfl, at_ite (at_task (.sweep _)) (at_task .ended)⟩
  | sweep room =>
      cases ha
      exact ⟨rfl, trivial⟩
  | ended => exact ha.elim


/-- Where the callback of a followed event starts. -/
theorem onNewEvent_at (host : PyStr) {e : Event} (hf : followed e = true) :
    ∃ p, At p (onNewEvent host e) ∧
      (p = .callback e.roomId (jobOf e) ∨ p = .ended ∧ jobOf e = none) := by
  simp only [followed, Bool.or_eq_true, decide_eq_true_eq] at hf
  have hmember : e.type ≠ py "m.room.member" := by
    rcases hf with (h | h) | h <;> rw [h] <;> decide
  have hjoin : e.type ≠ joinRulesState := by
    rcases hf with (h | h) | h <;> rw [h] <;> decide
  have hleave : isMembershipLeave e.type e.content = false := by
    simp [isMembershipLeave, hmember]
  simp only [onNewEvent, hleave, Bool.false_eq_true, if_false, hmember, false_and, hjoin, jobOf]
  split
  · refine ⟨_, ?_, .inl rfl⟩
    rfl
  · rename_i hlink
    split
    · refine ⟨_, ?_, .inl rfl⟩
      rfl
    · rename_i hroot
      by_cases hm : e.type = messageType
      · rw [if_pos (show e.type = py "m.room.message" from hm), if_pos hm]
        cases isEdit e.content with
        | none => exact ⟨.ended, trivial, .inr ⟨rfl, rfl⟩⟩
        | some b =>
            cases b with
            | false => exact ⟨.ended, trivial, .inr ⟨rfl, rfl⟩⟩
            | true =>
                cases editedEventId e.content with
                | none => exact ⟨.ended, trivial, .inr ⟨rfl, rfl⟩⟩
                | some target =>
                    refine ⟨_, ?_, .inl rfl⟩
                    by_cases ht : target.truthy = true
                    · simp only [ht, and_true, if_true]
                      rfl
                    · simp only [ht, Bool.false_eq_true, and_false, if_false]
                      rfl
      · have hr : e.type = py "m.room.redaction" := (hf.resolve_right hlink).resolve_left hm
        rw [if_neg (show ¬e.type = py "m.room.message" from hm), if_neg hm, if_pos hr]
        refine ⟨_, ?_, .inl rfl⟩
        cases e.redacts with
        | none => rfl
        | some target =>
            by_cases ht : target = []
            · simp only [ht, ne_eq, not_true_eq_false, and_false, if_false]
              rfl
            · simp only [ht, ne_eq, not_false_eq_true, and_true, if_true]
              rfl

/-- Where the callback of an event starts that the module has sent. -/
theorem starts_sent (host : PyStr) (w : World) (d : EventDict) (room : RoomId)
    (ht : d.type = messageType ∨ d.type = redactionType) :
    ∃ new, System.Starts At (system host) new [.onNewEvent (sentEvent w d room)] ∧
      ∀ r ∈ new, r = .ended ∨ ∃ job, r = .callback room job := by
  have hf : followed (sentEvent w d room) = true := by
    rcases ht with ht | ht <;> simp [followed, sentEvent, ht]
  obtain ⟨q, hq, hshape⟩ := onNewEvent_at host hf
  refine ⟨[q], .cons hq .nil, fun r hr => ?_⟩
  obtain rfl := List.mem_singleton.1 hr
  rcases hshape with rfl | ⟨rfl, -⟩
  · exact .inr ⟨_, rfl⟩
  · exact .inl rfl

/-- Where the jobs of the callback start. -/
def Point.first : Job → Point
  | .mirrorPost e => .check e
  | .mirrorEdit e target => .findEdited e target
  | .mirrorRedact e post => .findRedacted e post
  | .cleanupUnlinkedDiscussion eventId newRoom channelDeleted =>
      .previous eventId newRoom channelDeleted
  | _ => .ended

/-- At the end of a task there is no other point. -/
theorem At.eq_ended {t : Code Unit} (ha : At p t) (ht : t.Ended) : p = .ended := by
  cases p with
  | ended => rfl
  | _ =>
      obtain rfl : t = _ := ha
      exact ht.elim

/-! ### The moves of the loop -/

/-- The operation that a thread performs next does not fail: it does not raise, and if it
sends an event, then the event is sent. -/
def Succeeds (host : PyStr) (s : State) : Act → Bool
  | .event _ => true
  | .step i raises => !raises &&
      match s.threads[i]? with
      | some ⟨_, _, .await (.sendEvent d) _⟩ =>
          (perform channelSync host s.world (.sendEvent d) false).2.1.isSome
      | _ => true

variable {s t : State} {ps : List Point} {i : ℕ} {raises : Bool}

/-- **What a move of a thread does**: the operation at its point, after which it stands at
the next one. -/
theorem step_located (hs : System.Located At ps s) (hok : Succeeds host s (.step i raises) = true)
    (h : (system host).step s (.step i raises) = some t) :
    ∃ o j rest p, s.threads[i]? = some ⟨o, j, rest⟩ ∧ At p rest ∧ ps[i]? = some p ∧ p ≠ .ended ∧
      (∀ d, p.op = .sendEvent d →
        (perform channelSync host s.world (.sendEvent d) false).2.1.isSome = true) ∧
      t.world = (perform channelSync host s.world p.op false).1 ∧ t.events = s.events ∧
      t.log = ⟨i, o, j, s.world, ⟨p.op, (perform channelSync host s.world p.op false).2.1⟩⟩ ::
        s.log ∧
      ∀ new, System.Starts At (system host) new (perform channelSync host s.world p.op false).2.2 →
        System.Located At (ps.set i (p.next s.world) ++ new) t := by
  obtain ⟨_, hm, -⟩ | ⟨i', c, o, j, op, k, hm, hi, ht⟩ := System.step_cases h
  · cases hm
  obtain ⟨rfl, rfl⟩ := Move.step.inj hm
  simp only [Succeeds, hi, Bool.and_eq_true, Bool.not_eq_true'] at hok
  obtain ⟨rfl, hsend⟩ := hok
  obtain ⟨p, hp, ha⟩ := hs.getElem? hi
  have hsend' : ∀ d, op = .sendEvent d →
      (perform channelSync host s.world op false).2.1.isSome = true := by
    rintro d rfl
    exact hsend
  obtain ⟨rfl, hnext⟩ := at_next ha host s.world hsend'
  refine ⟨o, j, _, p, hi, ha, hp, ?_, fun d hd => ?_, ?_, ?_, ?_, fun new hnew => ?_⟩
  · rintro rfl
    exact ha
  · rw [hd] at hsend'
    exact hsend' d rfl
  · rw [ht]
    rfl
  · rw [ht]
  · rw [ht]
    rfl
  · exact hs.op hi h hnext hnew

end ChannelSync
end Liza
