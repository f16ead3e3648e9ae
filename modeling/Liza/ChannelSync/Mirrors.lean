/-
# The mirrors of a channel

The posts of a channel are copied into its discussion room: `World.mirrors` are the copies
of a post among the events the module has sent, `World.rows` its rows in
`channel_post_mirror`.  `Mirroring` says what they should be like when all jobs have
ended.  Below it are the facts about single sends and rows on which the results about runs
rest.
-/

import Liza.ChannelSync.Linked
import Liza.ChannelSync.Points
import Mathlib.Data.List.Nodup

set_option autoImplicit false

namespace Liza
namespace ChannelSync

open Lib Synapse

/-- The reference of a mirror to its post. -/
def postRef (C : RoomId) (post : EventId) : Json :=
  .obj [("channel_id", .str C), ("post_event_id", .str post)]

/-- A mirror of a post, as the module sends it. -/
def isMirror (C D : RoomId) (post : EventId) (e : Event) : Bool :=
  e.type = messageType && e.roomId = D && e.content.get postRefKey = postRef C post

/-- The mirrors of a post. -/
def World.mirrors (w : World) (C D : RoomId) (post : EventId) : List Event :=
  w.sent.filter (isMirror C D post)

/-- The module has redacted an event. -/
def World.redacted (w : World) (id : EventId) : Bool :=
  w.sent.any fun e => e.type = redactionType && e.redacts = some id

/-- The mirrors that are not redacted. -/
def World.liveMirrors (w : World) (C D : RoomId) (post : EventId) : List Event :=
  (w.mirrors C D post).filter fun m => !w.redacted m.eventId

/-- The rows of a post. -/
def World.rows (w : World) (post : EventId) : List MirrorRow :=
  w.store.filter fun row => row.post = post

/-- The post has exactly one live mirror, and one row, which names it. -/
def World.mirrored (w : World) (C D : RoomId) (post : EventId) : Bool :=
  match w.liveMirrors C D post, w.rows post with
  | [m], [row] => row = ⟨post, m.eventId, D⟩
  | _, _ => false

/-- The post has no live mirror and no row. -/
def World.unmirrored (w : World) (C D : RoomId) (post : EventId) : Bool :=
  (w.liveMirrors C D post).isEmpty && (w.rows post).isEmpty

/-- A root post of the channel. -/
def isPost (C : RoomId) (e : Event) : Bool := isRootPost e.type e.content && e.roomId = C

/-- A redaction in the channel. -/
def isRedaction (C : RoomId) (e : Event) : Bool := e.type = redactionType && e.roomId = C

/-- The post has arrived. -/
def posted (C : RoomId) (es : List Ev) (post : EventId) : Bool :=
  es.any fun
    | .newEvent e => isPost C e && e.eventId = post
    | _ => false

/-- A redaction of the post has arrived. -/
def deleted (C : RoomId) (es : List Ev) (post : EventId) : Bool :=
  es.any fun
    | .newEvent e => isRedaction C e && e.redacts = some post
    | _ => false

/-- What the mirrors of a channel should be like once all jobs have ended. -/
def Mirroring (C D : RoomId) (s : State) : Prop :=
  ∀ post, posted C s.events post = true →
    if deleted C s.events post then s.world.unmirrored C D post = true
    else s.world.mirrored C D post = true

/-- Only posts and redactions of the channel arrive; an event has an id. -/
def Traffic (C : RoomId) : Act → Bool
  | .event (.newEvent e) => (isPost C e || isRedaction C e) && e.eventId ≠ []
  | .event _ => false
  | .step _ _ => true

/-! ### The world -/

variable {C D : RoomId} {w : World} {e : Event} {post : EventId}

/-- The module has numbered its events, and redacts its own ones only. -/
structure Sound (w : World) : Prop where
  ids : (w.sent.map Event.eventId).Nodup
  bound : ∀ e ∈ w.sent, ∃ n < w.count, e.eventId = sentId n
  targets : ∀ e ∈ w.sent, ∀ id, e.redacts = some id → ∃ n < w.count, id = sentId n

theorem isPost_type (h : isPost C e = true) : e.type = messageType := by
  simp only [isPost, isRootPost, Bool.and_eq_true, decide_eq_true_eq] at h
  exact h.1.1

theorem isRedaction_type (h : isRedaction C e = true) : e.type = redactionType := by
  simp only [isRedaction, Bool.and_eq_true, decide_eq_true_eq] at h
  exact h.1

theorem sentId_injective : Function.Injective sentId := by
  intro m n h
  have := congrArg List.length h
  simpa [sentId] using this

/-- The event of a send that is not a state event. -/
theorem create_message (hk : e.stateKey = none) :
    (w.create e).rooms = w.rooms ∧ (w.create e).store = w.store ∧
      (w.create e).sent = e :: w.sent ∧ (w.create e).count = w.count + 1 := by
  refine ⟨?_, rfl, ?_, rfl⟩
  · show w.rooms.persist e = w.rooms
    rw [Rooms.persist, hk]
  · show (if e.stateKey.isNone then e :: w.sent else w.sent) = _
    rw [hk]
    rfl

/-- The mirror of a post refers to it. -/
theorem postRef_buildMirrorContent (content : Dict) (C : RoomId) (post : EventId) :
    (buildMirrorContent content C post).get postRefKey = postRef C post := by
  simp [buildMirrorContent, Dict.get, postRef]

theorem postRef_injective {p q : EventId} (h : postRef C p = postRef C q) : p = q := by
  simpa [postRef] using h

theorem Sound.create (h : Sound w) (hk : e.stateKey = none) (hid : e.eventId = sentId w.count)
    (hred : ∀ id, e.redacts = some id → ∃ n < w.count, id = sentId n) : Sound (w.create e) := by
  obtain ⟨-, -, hsent, hcount⟩ := create_message (w := w) hk
  have hlater : ∀ id, (∃ n < w.count, id = sentId n) → ∃ n < (w.create e).count, id = sentId n := by
    rintro id ⟨n, hn, rfl⟩
    exact ⟨n, by omega, rfl⟩
  refine ⟨?_, fun e' he' => ?_, fun e' he' id hr => ?_⟩
  · rw [hsent, List.map_cons, List.nodup_cons]
    refine ⟨fun hmem => ?_, h.ids⟩
    obtain ⟨e', he', heq⟩ := List.mem_map.1 hmem
    obtain ⟨n, hn, hn'⟩ := h.bound e' he'
    have := sentId_injective (hn'.symm.trans (heq.trans hid))
    omega
  · rw [hsent] at he'
    rcases List.mem_cons.1 he' with rfl | he'
    · exact ⟨w.count, by omega, hid⟩
    · exact hlater _ (h.bound e' he')
  · rw [hsent] at he'
    rcases List.mem_cons.1 he' with rfl | he'
    · exact hlater _ (hred id hr)
    · exact hlater _ (h.targets e' he' id hr)

/-- The mirror that is sent is one of its post, and of no other. -/
theorem isMirror_sentEvent (he : e.roomId = C) (p : EventId) :
    isMirror C D p (sentEvent w (mirrorDict e (.str D)) D) = decide (p = e.eventId) := by
  have hget : (sentEvent w (mirrorDict e (.str D)) D).content.get postRefKey =
      postRef C e.eventId := by
    rw [← he]
    exact postRef_buildMirrorContent _ _ _
  have htype : (sentEvent w (mirrorDict e (.str D)) D).type = messageType := rfl
  have hroom : (sentEvent w (mirrorDict e (.str D)) D).roomId = D := rfl
  simp only [isMirror, hget, htype, hroom, decide_true, Bool.true_and]
  refine decide_eq_decide.2 ⟨fun h => (postRef_injective h).symm, fun h => by rw [h]⟩

/-- What the mirror of a post changes. -/
theorem mirrors_create (he : e.roomId = C) (p : EventId) :
    World.mirrors (w.create (sentEvent w (mirrorDict e (.str D)) D)) C D p =
      if p = e.eventId then sentEvent w (mirrorDict e (.str D)) D :: w.mirrors C D p
      else w.mirrors C D p := by
  have hsent := (create_message (w := w) (e := sentEvent w (mirrorDict e (.str D)) D) rfl).2.2.1
  simp only [World.mirrors, hsent, List.filter_cons, isMirror_sentEvent he]
  by_cases hp : p = e.eventId <;> simp [hp]

/-- A message redacts nothing. -/
theorem redacted_create_message (hk : e.stateKey = none) (ht : e.type = messageType) (id : EventId) :
    World.redacted (w.create e) id = w.redacted id := by
  have hne : e.type ≠ redactionType := by
    rw [ht]
    decide
  simp [World.redacted, (create_message (w := w) hk).2.2.1, hne]

/-- The next event is not redacted yet. -/
theorem Sound.not_redacted (h : Sound w) : w.redacted (sentId w.count) = false := by
  simp only [World.redacted, List.any_eq_false, Bool.and_eq_true, decide_eq_true_eq, not_and]
  intro e he _ hr
  obtain ⟨n, hn, heq⟩ := h.targets e he _ hr
  have := sentId_injective heq
  omega

/-- The redaction of a mirror. -/
theorem redacted_create_redaction {mirror : EventId} (id : EventId) :
    World.redacted (w.create (sentEvent w (redactionDict e mirror D) D)) id =
      (decide (mirror = id) || w.redacted id) := by
  have hsent := (create_message (w := w) (e := sentEvent w (redactionDict e mirror D) D) rfl).2.2.1
  have htype : (sentEvent w (redactionDict e mirror D) D).type = redactionType := rfl
  have hred : (sentEvent w (redactionDict e mirror D) D).redacts = some mirror := rfl
  simp [World.redacted, hsent, htype, hred]

theorem mirrors_create_redaction {mirror : EventId} (p : EventId) :
    World.mirrors (w.create (sentEvent w (redactionDict e mirror D) D)) C D p =
      w.mirrors C D p := by
  have hsent := (create_message (w := w) (e := sentEvent w (redactionDict e mirror D) D) rfl).2.2.1
  have hnot : isMirror C D p (sentEvent w (redactionDict e mirror D) D) = false := by
    have hne : (sentEvent w (redactionDict e mirror D) D).type ≠ messageType :=
      show redactionType ≠ messageType by decide
    simp [isMirror, hne]
  simp [World.mirrors, hsent, hnot]

/-- Mirrors of different posts are different events. -/
theorem Sound.mirror_ne (h : Sound w) {p p' : EventId} {m m' : Event} (hm : m ∈ w.mirrors C D p)
    (hm' : m' ∈ w.mirrors C D p') (hne : p ≠ p') : m.eventId ≠ m'.eventId := by
  intro heq
  obtain ⟨hs, hp⟩ := List.mem_filter.1 hm
  obtain ⟨hs', hp'⟩ := List.mem_filter.1 hm'
  obtain rfl := List.inj_on_of_nodup_map h.ids hs hs' heq
  simp only [isMirror, Bool.and_eq_true, decide_eq_true_eq] at hp hp'
  exact hne (postRef_injective (hp.2.symm.trans hp'.2))

/-- The row of a post that is looked up. -/
theorem rowOf_eq_some {row : MirrorRow} (h : w.rowOf (.str post) = some row) : row ∈ w.rows post := by
  have hmem := List.mem_of_find?_eq_some h
  have hpost := List.find?_some h
  simp only [decide_eq_true_eq, Json.str.injEq] at hpost
  exact List.mem_filter.2 ⟨hmem, decide_eq_true hpost⟩

theorem rowOf_eq_none (h : w.rowOf (.str post) = none) : w.rows post = [] := by
  simp only [World.rowOf, List.find?_eq_none, decide_eq_true_eq, Json.str.injEq] at h
  exact List.filter_eq_nil_iff.2 fun row hrow => by simpa using h row hrow

theorem rows_eq_nil_iff : w.rows post = [] ↔ (w.store.any fun row => row.post = post) = false := by
  simp [World.rows, List.filter_eq_nil_iff]

/-- The callback of a post starts its mirroring. -/
theorem jobOf_post (h : isPost C e = true) : jobOf e = some (.mirrorPost e) := by
  have ht : e.type ≠ channelDiscussionState := by
    rw [isPost_type h]
    decide
  simp only [isPost, Bool.and_eq_true] at h
  simp [jobOf, ht, h.1]

/-- A channel with its discussion room, and an author who is in both. -/
def newsWorld : World :=
  worldOf
    [("!c", createState, ⟨"@ann:h", [(chatTypeKey, .str channelTypeName)]⟩),
      ("!c", channelDiscussionState, ⟨"@ann:h", [("room_id", .str "!d")]⟩),
      ("!d", createState, ⟨"@ann:h", [(chatTypeKey, .str discussionChatType)]⟩)]
    [("!c", "@ann:h", .join), ("!d", "@ann:h", .join)]

theorem newsWorld_linked : Linked "!c" "!d" "@ann:h" newsWorld where
  channel := by decide +kernel
  link := by decide +kernel
  creator := by decide +kernel
  discussion := by decide +kernel

/-- A post of the author. -/
def firstPost : Event :=
  ⟨"$post", messageType, "!c", "@ann:h", none, [("body", .str "news")], none⟩

end ChannelSync
end Liza
