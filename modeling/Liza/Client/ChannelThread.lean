/-
# Threads of comments

`clients/flutter/lib/utils/channel_discussion.dart`, from `findMirrorEventId` to
`threadReplyAnchorId`.  A thread is what answers the mirror of a post or an answer to it, and a
reply to an event of the thread refers to an event of its first level.  So every reply that is
sent is in the thread.

Deleting a comment empties its content, and with it the link to the mirror.  The replies that hang
on it are in the thread no longer, although they have not been deleted.  In a run every reply
stays exactly when no comment is deleted that one of them refers to (`replies_stay_iff`).

An event is the map that the screens make of it.
-/

import Liza.Client.NewsPoll
import Liza.Lib.Run
import Mathlib.Data.List.Perm.Subperm

set_option autoImplicit false

namespace Liza
namespace Client
namespace ChannelThread

open Lib

/-- `channelPostRefKey`. -/
def channelPostRefKey : PyStr := "com.liza.channel.post_ref"

/-- What a cast throws. -/
inductive CastError where
  | notAMap
  | notAString
deriving DecidableEq

/-- `(e['content'] as Map?)?[channelPostRefKey]`. -/
def postRef (e : Dict) : Except CastError (Option Json) :=
  match Dict.get e "content" with
  | .null => .ok none
  | .obj content => .ok (Dict.get? content channelPostRefKey)
  | _ => .error .notAMap

/-- `ref is Map && ref['post_event_id'] == postEventId`. -/
def refersTo (postEventId : PyStr) : Option Json → Bool
  | some (.obj ref) => Dict.get ref "post_event_id" = .str postEventId
  | _ => false

/-- `e['event_id'] as String?`. -/
def eventIdOf (e : Dict) : Except CastError (Option PyStr) :=
  match Dict.get e "event_id" with
  | .null => .ok none
  | .str id => .ok (some id)
  | _ => .error .notAString

/-- `findMirrorEventId`. -/
def findMirrorEventId (postEventId : PyStr) : List Dict → Except CastError (Option PyStr)
  | [] => .ok none
  | e :: events => do
      if refersTo postEventId (← postRef e) then eventIdOf e
      else findMirrorEventId postEventId events

/-- `_inReplyToEventId`. -/
def inReplyToEventId (e : Dict) : Option PyStr := do
  let content ← tryGetMap e "content"
  let rel ← tryGetMap content "m.relates_to"
  let reply ← tryGetMap rel "m.in_reply_to"
  tryGetString reply "event_id"

/-- `repliesToMirror`. -/
def repliesToMirror (events : List Dict) (mirrorId : PyStr) : List Dict :=
  events.filter fun e => inReplyToEventId e = some mirrorId

/-- A `String?` among the other values. -/
def jsonOf : Option PyStr → Json
  | some s => .str s
  | none => .null

/-- `threadEvents`. -/
def threadEvents (events : List Dict) (mirrorId : PyStr) : List Dict :=
  let directIds := (repliesToMirror events mirrorId).map fun e => Dict.get e "event_id"
  events.filter fun e =>
    inReplyToEventId e = some mirrorId || jsonOf (inReplyToEventId e) ∈ directIds

/-- `countThreadComments`. -/
def countThreadComments (events : List Dict) (postEventId : PyStr) : Except CastError ℕ := do
  match ← findMirrorEventId postEventId events with
  | none => return 0
  | some mirrorId => return (threadEvents events mirrorId).length

/-- `threadReplyAnchorId`. -/
def threadReplyAnchorId (target : Dict) (mirrorId : PyStr) : PyStr :=
  match inReplyToEventId target with
  | none => mirrorId
  | some parent =>
      if parent = mirrorId then (tryGetString target "event_id").getD mirrorId else parent

/-! ### The discussion in time -/

/-- The events of the discussion, and the replies that were sent into the thread and not deleted. -/
structure State where
  events : List Dict
  sent : List Dict
deriving DecidableEq

/-- What happens: a reply to an event of the thread, or to the post, comes in at some place of the
list; or a comment is deleted. -/
inductive Act where
  | reply (position : ℕ) (target : Option Dict) (event : Dict)
  | redact (eventId : PyStr)
deriving DecidableEq

/-- What `_send` makes the reply refer to. -/
def anchorId (mirrorId : PyStr) : Option Dict → PyStr
  | some target => threadReplyAnchorId target mirrorId
  | none => mirrorId

/-- A reply to the target: it has an id of its own, refers to the anchor and is no mirror. -/
def Sendable (mirrorId : PyStr) (s : State) (target : Option Dict) (event : Dict) : Prop :=
  (∀ t ∈ target, t ∈ threadEvents s.events mirrorId) ∧
  Dict.get event "event_id" ∉ s.events.map (fun e => Dict.get e "event_id") ∧
  inReplyToEventId event = some (anchorId mirrorId target) ∧
  postRef event = .ok none

instance decidableSendable (mirrorId : PyStr) (s : State) (target : Option Dict) (event : Dict) :
    Decidable (Sendable mirrorId s target event) :=
  inferInstanceAs (Decidable (_ ∧ _ ∧ _ ∧ _))

/-- A deleted event has no content. -/
def redactEvent (eventId : PyStr) (e : Dict) : Dict :=
  if Dict.get e "event_id" = .str eventId then Dict.set e "content" (.obj []) else e

def step (mirrorId : PyStr) (s : State) : Act → Option State
  | .reply position target event =>
      if Sendable mirrorId s target event then
        some ⟨s.events.take position ++ event :: s.events.drop position, event :: s.sent⟩
      else none
  | .redact eventId =>
      if eventId ≠ mirrorId then
        some ⟨s.events.map (redactEvent eventId),
          s.sent.filter fun r => Dict.get r "event_id" ≠ .str eventId⟩
      else none

/-- Every reply that was sent and not deleted is an event of the thread of its own, and they are
counted. -/
def Kept (mirrorId postEventId : PyStr) (s : State) : Prop :=
  s.sent.Subperm (threadEvents s.events mirrorId) ∧
  countThreadComments s.events postEventId = .ok (threadEvents s.events mirrorId).length

/-- The comment that is deleted is none that a reply refers to, unless that is deleted with it. -/
def Harmless (s : State) : Act → Prop
  | .reply _ _ _ => True
  | .redact eventId =>
      ∀ r ∈ s.sent, Dict.get r "event_id" ≠ .str eventId → inReplyToEventId r ≠ some eventId

instance decidableHarmless (s : State) : (a : Act) → Decidable (Harmless s a)
  | .reply _ _ _ => .isTrue trivial
  | .redact eventId => inferInstanceAs (Decidable
      (∀ r ∈ s.sent, Dict.get r "event_id" ≠ .str eventId → inReplyToEventId r ≠ some eventId))

/-! ### The events of a thread -/

section Thread

variable {events : List Dict} {e r : Dict} {mirrorId postEventId eventId : PyStr}

theorem mem_threadEvents :
    e ∈ threadEvents events mirrorId ↔ e ∈ events ∧
      (inReplyToEventId e = some mirrorId ∨ ∃ d ∈ events, inReplyToEventId d = some mirrorId ∧
        Dict.get d "event_id" = jsonOf (inReplyToEventId e)) := by
  simp [threadEvents, repliesToMirror, and_assoc]

/-- **What a reply refers to is the mirror or an answer to it.** -/
theorem anchorId_eq {target : Option Dict} (h : ∀ t ∈ target, t ∈ threadEvents events mirrorId) :
    anchorId mirrorId target = mirrorId ∨ ∃ d ∈ events, inReplyToEventId d = some mirrorId ∧
      Dict.get d "event_id" = .str (anchorId mirrorId target) := by
  rcases target with _ | t
  · exact .inl rfl
  · obtain ⟨ht, hlevel⟩ := mem_threadEvents.1 (h t rfl)
    simp only [anchorId, threadReplyAnchorId]
    cases hparent : inReplyToEventId t with
    | none => exact .inl rfl
    | some parent =>
        dsimp only
        split
        · rename_i hmirror
          rw [hmirror] at hparent
          cases hid : tryGetString t "event_id" with
          | none => exact .inl rfl
          | some id =>
              refine .inr ⟨t, ht, hparent, ?_⟩
              unfold tryGetString at hid
              split at hid
              · rename_i s hs
                obtain rfl := Option.some.inj hid
                rw [Dict.get, hs]
                rfl
              · cases hid
        · rename_i hne
          rw [hparent] at hlevel
          obtain ⟨d, hd, hdirect, hid⟩ :=
            hlevel.resolve_left fun heq => hne (Option.some.inj heq)
          exact .inr ⟨d, hd, hdirect, hid⟩

/-- More events do not take any out of a thread. -/
theorem threadEvents_mono {l : List Dict} (hsub : events ⊆ l)
    (he : e ∈ threadEvents events mirrorId) : e ∈ threadEvents l mirrorId := by
  obtain ⟨hmem, hlevel⟩ := mem_threadEvents.1 he
  exact mem_threadEvents.2 ⟨hsub hmem, hlevel.imp id fun ⟨d, hd, hdirect⟩ => ⟨d, hsub hd, hdirect⟩⟩

end Thread

/-! ### Deleting -/

section Redact

variable {events : List Dict} {e r : Dict} {mirrorId postEventId eventId : PyStr}

theorem content_ne_eventId : py "content" ≠ py "event_id" := by decide

@[simp]
theorem get_eventId_redactEvent :
    Dict.get (redactEvent eventId e) "event_id" = Dict.get e "event_id" := by
  unfold redactEvent
  split
  · rw [Dict.get, Dict.get, Dict.get?_set_of_ne _ _ content_ne_eventId.symm]
  · rfl

theorem redactEvent_of_ne (h : Dict.get e "event_id" ≠ .str eventId) : redactEvent eventId e = e :=
  if_neg h

/-- A deleted event refers to nothing. -/
theorem inReplyTo_redactEvent (h : Dict.get e "event_id" = .str eventId) :
    inReplyToEventId (redactEvent eventId e) = none := by
  simp [redactEvent, h, inReplyToEventId, tryGetMap]

theorem inReplyTo_of_redactEvent {id : PyStr}
    (h : inReplyToEventId (redactEvent eventId e) = some id) :
    Dict.get e "event_id" ≠ .str eventId ∧ redactEvent eventId e = e := by
  have hne : Dict.get e "event_id" ≠ .str eventId := fun heq => by
    rw [inReplyTo_redactEvent heq] at h
    cases h
  exact ⟨hne, redactEvent_of_ne hne⟩

/-- **A reply stays exactly when it does not refer to what is deleted.** -/
theorem mem_thread_redact_iff (hr : r ∈ threadEvents events mirrorId)
    (hreply : ∃ id, inReplyToEventId r = some id) (hother : Dict.get r "event_id" ≠ .str eventId)
    (hmirror : eventId ≠ mirrorId) :
    r ∈ threadEvents (events.map (redactEvent eventId)) mirrorId ↔
      inReplyToEventId r ≠ some eventId := by
  obtain ⟨hmem, hlevel⟩ := mem_threadEvents.1 hr
  obtain ⟨id, hid⟩ := hreply
  have hstays : r ∈ events.map (redactEvent eventId) :=
    List.mem_map.2 ⟨r, hmem, redactEvent_of_ne hother⟩
  rw [mem_threadEvents, hid]
  rw [hid] at hlevel
  constructor
  · rintro ⟨-, hdirect⟩ heq
    obtain rfl := Option.some.inj heq
    rcases hdirect with hdirect | ⟨d, hd, hdirect, hdid⟩
    · exact hmirror (Option.some.inj hdirect)
    · -- the comment it refers to has no content
      obtain ⟨e, -, rfl⟩ := List.mem_map.1 hd
      obtain ⟨hne, -⟩ := inReplyTo_of_redactEvent hdirect
      rw [get_eventId_redactEvent] at hdid
      exact hne hdid
  · intro hne
    refine ⟨hstays, hlevel.imp_right ?_⟩
    rintro ⟨d, hd, hdirect, hdid⟩
    have hdne : Dict.get d "event_id" ≠ .str eventId := fun heq => by
      rw [hdid] at heq
      exact hne (congrArg some (Json.str.inj heq))
    exact ⟨d, List.mem_map.2 ⟨d, hd, redactEvent_of_ne hdne⟩, hdirect, hdid⟩

/-- The mirror is still found. -/
theorem find_redact (h : findMirrorEventId postEventId events = .ok (some mirrorId))
    (hne : eventId ≠ mirrorId) :
    findMirrorEventId postEventId (events.map (redactEvent eventId)) = .ok (some mirrorId) := by
  induction events with
  | nil => cases h
  | cons e events ih =>
      rw [findMirrorEventId] at h
      rw [List.map_cons, findMirrorEventId]
      rcases href : postRef e with error | ref
      · rw [href] at h
        cases h
      rw [href] at h
      change (if refersTo postEventId ref = true then _ else _) = _ at h
      by_cases hid : Dict.get e "event_id" = .str eventId
      · have hempty : postRef (redactEvent eventId e) = .ok none := by
          rw [redactEvent, if_pos hid, postRef, Dict.get, Dict.get?_set_self]
          rfl
        rw [hempty]
        refine ih ?_
        split at h
        · -- the mirror is not deleted
          rw [eventIdOf, hid] at h
          exact absurd (Option.some.inj (Except.ok.inj h)) hne
        · exact h
      · rw [redactEvent_of_ne hid, href]
        change (if refersTo postEventId ref = true then _ else _) = _
        split
        · rwa [if_pos ‹_›] at h
        · rw [if_neg ‹_›] at h
          exact ih h

/-- The mirror is still found when a reply has come in. -/
theorem find_reply {position : ℕ} (h : findMirrorEventId postEventId events = .ok (some mirrorId))
    (hr : postRef r = .ok none) :
    findMirrorEventId postEventId (events.take position ++ r :: events.drop position) =
      .ok (some mirrorId) := by
  induction events generalizing position with
  | nil => cases h
  | cons e events ih =>
      cases position with
      | zero =>
          rw [List.take_zero, List.drop_zero, List.nil_append, findMirrorEventId, hr]
          exact h
      | succ position =>
          rw [List.take_succ_cons, List.drop_succ_cons, List.cons_append, findMirrorEventId]
          rw [findMirrorEventId] at h
          rcases href : postRef e with error | ref
          · rw [href] at h
            cases h
          rw [href] at h
          change (if refersTo postEventId ref = true then _ else _) = _ at h
          change (if refersTo postEventId ref = true then _ else _) = _
          split
          · rwa [if_pos ‹_›] at h
          · rw [if_neg ‹_›] at h
            exact ih h

end Redact

/-! ### Runs -/

section Run

variable {mirrorId postEventId : PyStr} {s t : State} {a : Act}

/-- **The invariant.**  The mirror is found, and the replies are different events of the thread. -/
structure Inv (mirrorId postEventId : PyStr) (s : State) : Prop where
  found : findMirrorEventId postEventId s.events = .ok (some mirrorId)
  nodup : s.sent.Nodup
  isReply : ∀ r ∈ s.sent, ∃ id, inReplyToEventId r = some id
  inThread : ∀ r ∈ s.sent, r ∈ threadEvents s.events mirrorId

theorem countThreadComments_eq (h : findMirrorEventId postEventId s.events = .ok (some mirrorId)) :
    countThreadComments s.events postEventId = .ok (threadEvents s.events mirrorId).length := by
  rw [countThreadComments, h]
  rfl

/-- Where the mirror is found, the replies are counted if they are in the thread. -/
theorem kept_iff (hfound : findMirrorEventId postEventId s.events = .ok (some mirrorId))
    (hnodup : s.sent.Nodup) :
    Kept mirrorId postEventId s ↔ ∀ r ∈ s.sent, r ∈ threadEvents s.events mirrorId :=
  ⟨fun h _ hr => h.1.subset hr,
    fun h => ⟨List.subperm_of_subset hnodup h, countThreadComments_eq hfound⟩⟩

/-- What a step keeps of the invariant whatever it is. -/
theorem Inv.step_basic (hs : Inv mirrorId postEventId s) (h : step mirrorId s a = some t) :
    findMirrorEventId postEventId t.events = .ok (some mirrorId) ∧ t.sent.Nodup ∧
      ∀ r ∈ t.sent, ∃ id, inReplyToEventId r = some id := by
  cases a with
  | reply position target event =>
      obtain ⟨⟨htarget, hfresh, hanchor, hpost⟩, ht⟩ := Option.ite_none_right_eq_some.1 h
      obtain rfl := Option.some.inj ht
      refine ⟨find_reply hs.found hpost, List.nodup_cons.2 ⟨fun hmem => ?_, hs.nodup⟩, ?_⟩
      · have hevent := (mem_threadEvents.1 (hs.inThread event hmem)).1
        exact hfresh (List.mem_map.2 ⟨event, hevent, rfl⟩)
      · rintro r hr
        rcases List.mem_cons.1 hr with rfl | hr
        · exact ⟨_, hanchor⟩
        · exact hs.isReply r hr
  | redact eventId =>
      obtain ⟨hne, ht⟩ := Option.ite_none_right_eq_some.1 h
      obtain rfl := Option.some.inj ht
      exact ⟨find_redact hs.found hne, hs.nodup.filter _,
        fun r hr => hs.isReply r (List.mem_of_mem_filter hr)⟩

/-- **After a step every reply is in the thread exactly when the step was harmless.** -/
theorem kept_step_iff (hs : Inv mirrorId postEventId s) (h : step mirrorId s a = some t) :
    Kept mirrorId postEventId t ↔ Harmless s a := by
  obtain ⟨hfound, hnodup, -⟩ := hs.step_basic h
  rw [kept_iff hfound hnodup]
  cases a with
  | reply position target event =>
      refine iff_of_true ?_ trivial
      obtain ⟨⟨htarget, hfresh, hanchor, hpost⟩, ht⟩ := Option.ite_none_right_eq_some.1 h
      obtain rfl := Option.some.inj ht
      have hsub : s.events ⊆ s.events.take position ++ event :: s.events.drop position := by
        intro e he
        rw [← List.take_append_drop position s.events] at he
        rcases List.mem_append.1 he with he | he
        · exact List.mem_append_left _ he
        · exact List.mem_append_right _ (List.mem_cons_of_mem _ he)
      intro r hr
      rcases List.mem_cons.1 hr with rfl | hr
      · refine mem_threadEvents.2 ⟨List.mem_append_right _ List.mem_cons_self, ?_⟩
        rw [hanchor]
        refine (anchorId_eq htarget).imp (congrArg some) ?_
        rintro ⟨d, hd, hdirect, hdid⟩
        exact ⟨d, hsub hd, hdirect, hdid⟩
      · exact threadEvents_mono hsub (hs.inThread r hr)
  | redact eventId =>
      obtain ⟨hne, ht⟩ := Option.ite_none_right_eq_some.1 h
      obtain rfl := Option.some.inj ht
      have hiff : ∀ r ∈ s.sent, Dict.get r "event_id" ≠ .str eventId →
          (r ∈ threadEvents (s.events.map (redactEvent eventId)) mirrorId ↔
            inReplyToEventId r ≠ some eventId) := fun r hr hother =>
        mem_thread_redact_iff (hs.inThread r hr) (hs.isReply r hr) hother hne
      constructor
      · intro hkept r hr hother
        exact (hiff r hr hother).1 (hkept r (List.mem_filter.2 ⟨hr, decide_eq_true hother⟩))
      · intro hharmless r hr
        obtain ⟨hmem, hother⟩ := List.mem_filter.1 hr
        have hother := of_decide_eq_true hother
        exact (hiff r hmem hother).2 (hharmless r hmem hother)

end Run

/-- **When the replies stay in the thread.**  In a run from a discussion with the mirror of the
post, every reply that was sent and not deleted is in the thread, and counted, exactly when no
comment is deleted to which one of them refers that is not deleted with it. -/
theorem replies_stay_iff {mirrorId postEventId : PyStr} {events : List Dict}
    (hfound : findMirrorEventId postEventId events = .ok (some mirrorId)) (as : List Act) :
    Along (step mirrorId) (fun _ _ t => Kept mirrorId postEventId t) ⟨events, []⟩ as ↔
      Along (step mirrorId) (fun s a _ => Harmless s a) ⟨events, []⟩ as := by
  have hinit : Inv mirrorId postEventId ⟨events, []⟩ :=
    ⟨hfound, List.nodup_nil, fun _ hr => (by cases hr), fun _ hr => (by cases hr)⟩
  refine along_congr (P := fun _ _ t => Kept mirrorId postEventId t)
    (Q := fun s a _ => Harmless s a) (I := Inv mirrorId postEventId)
    (fun s a t hs ht => kept_step_iff hs ht) (fun s a t hs ht hkept => ?_) hinit as
  obtain ⟨hfound, hnodup, hreply⟩ := hs.step_basic ht
  exact ⟨hfound, hnodup, hreply, (kept_iff hfound hnodup).1 hkept⟩

/-! ### A deletion that does harm -/

/-- A reply to the event with the given id. -/
def replyEvent (id parent : PyStr) : Dict :=
  [("event_id", .str id), ("content", .obj [("msgtype", .str "m.text"), ("body", .str "x"),
    ("m.relates_to", .obj [("m.in_reply_to", .obj [("event_id", .str parent)])])])]

/-- The mirror of a post. -/
def mirrorEvent : Dict :=
  [("event_id", .str "$m"),
    ("content", .obj [(channelPostRefKey, .obj [("post_event_id", .str "$post")])])]

/-- A comment, an answer to it and an answer to that one, which refers to the comment, too. -/
def discussed : List Act :=
  [.reply 0 none (replyEvent "$c1" "$m"), .reply 0 (some (replyEvent "$c1" "$m"))
    (replyEvent "$c2" "$c1"), .reply 0 (some (replyEvent "$c2" "$c1")) (replyEvent "$c3" "$c1")]

/-- With the comment deleted its answers are gone from the thread. -/
theorem answers_lost :
    ∃ t, Exec (step "$m") (fun _ _ => True) ⟨[mirrorEvent], []⟩ (discussed ++ [.redact "$c1"]) t ∧
      t.sent = [replyEvent "$c3" "$c1", replyEvent "$c2" "$c1"] ∧
      threadEvents t.events "$m" = [] ∧ countThreadComments t.events "$post" = .ok 0 :=
  exists_exec_of_runs (by decide +kernel)

/-- No reply refers to the second one, so the others stay when it is deleted. -/
theorem replies_stay_deleted :
    Along (step "$m") (fun _ _ t => Kept "$m" "$post" t) ⟨[mirrorEvent], []⟩
      (discussed ++ [.redact "$c2"]) := by
  obtain ⟨t, hrun, -⟩ : ∃ t, Exec (step "$m") Harmless ⟨[mirrorEvent], []⟩
      (discussed ++ [.redact "$c2"]) t ∧ t.sent.length = 2 :=
    exists_exec_of_runs (by decide +kernel)
  exact (replies_stay_iff rfl _).2 hrun.along

end ChannelThread
end Client
end Liza
