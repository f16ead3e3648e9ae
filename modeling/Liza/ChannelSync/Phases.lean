/-
# Every post has its mirror, and no deleted post keeps one

`_mirror_post` asks the table whether the post is mirrored, sends the mirror and records
it, in separate awaits; `_mirror_redact` looks the mirror up, redacts it and deletes the
row.  The jobs of one post do not wait for one another.  Two of them can both find no row,
and a redaction can look for a mirror that is not recorded yet.

Each post goes through five phases: nothing has happened to it, one job has passed the
check, that job has sent the mirror, the mirror is recorded, the mirror is redacted and
its row gone.  As long as a check that finds no row is the first operation on the table
for its post, and a redaction does not look between a check and the record, each post is
in one phase and the points of all jobs fit the phases of their posts (`Tracked`).  When
all jobs have ended, only the last two phases are left.
-/

import Liza.ChannelSync.Mirrors

set_option autoImplicit false

namespace Liza
namespace ChannelSync

open Lib Synapse

/-- The question whether a post is mirrored. -/
def checks (post : EventId) : Op → Bool
  | .own (.alreadyMirrored p) => p = post
  | _ => false

/-- The record of the mirror of a post. -/
def records (post : EventId) : Op → Bool
  | .own (.putMirror p _ _) => p = post
  | _ => false

/-- A read of the table for a post. -/
def reads (post : EventId) : Op → Bool
  | .own (.alreadyMirrored p) => p = post
  | .own (.getMirror p) => p = .str post
  | _ => false

/-- An operation with the property has been performed. -/
def State.did (s : State) (f : Op → Bool) : Bool := s.log.any fun e => f e.done.op

/-- The jobs of one post do not cross: a check that finds no row is the first read of the
table for its post, and a redaction that finds no row does not come between a check and
the record. -/
def Uncrossed (s : State) : Act → Bool
  | .event _ => true
  | .step i _ =>
      match s.threads[i]? with
      | some ⟨_, _, .await (.own (.alreadyMirrored post)) _⟩ =>
          !(s.world.rows post).isEmpty || !s.did (reads post)
      | some ⟨_, _, .await (.own (.getMirror (.str post))) _⟩ =>
          !(s.world.rows post).isEmpty || !s.did (checks post) || s.did (records post)
      | _ => true

/-! ### Phases -/

/-- How far the mirroring of a post has come. -/
inductive Phase where
  | fresh
  /-- The thread has found no row. -/
  | posting (thread : ℕ)
  /-- The thread has sent the mirror. -/
  | sent (thread : ℕ) (mirror : Event)
  | recorded (mirror : Event)
  | gone (mirror : Event)

/-- The mirror is recorded, or was. -/
def Phase.settled (mirror : Event) : Phase → Prop
  | .recorded m => m = mirror
  | .gone m => m = mirror
  | _ => False

/-- What the world and the points are like in the phase of a post. -/
def Holds (C D : RoomId) (w : World) (ps : List Point) (post : EventId) : Phase → Prop
  | .fresh => w.mirrors C D post = [] ∧ w.rows post = []
  | .posting i => (w.mirrors C D post = [] ∧ w.rows post = []) ∧
      ∃ e, e.eventId = post ∧ (ps[i]? = some (.link e) ∨ ∃ room, ps[i]? = some (.send e room))
  | .sent i m => (w.mirrors C D post = [m] ∧ w.rows post = []) ∧ w.redacted m.eventId = false ∧
      ∃ room, ps[i]? = some (.record post m.eventId room)
  | .recorded m => (w.mirrors C D post = [m] ∧ w.rows post = [⟨post, m.eventId, D⟩]) ∧
      (w.redacted m.eventId = true → ∃ l : ℕ, ps[l]? = some (.forget post))
  | .gone m => (w.mirrors C D post = [m] ∧ w.rows post = []) ∧ w.redacted m.eventId = true

/-- The jobs that posts and redactions lead to. -/
def JobFits (C : RoomId) (es : List Ev) : Job → Prop
  | .mirrorPost e => isPost C e = true
  | .mirrorRedact _ post => deleted C es post = true
  | _ => False

/-- A point of the thread `i` that fits the phases. -/
def Fits (C D : RoomId) (w : World) (es : List Ev) (phase : EventId → Phase) (i : ℕ) :
    Point → Prop
  | .callback room job =>
      w.chatType room ≠ .str channelTypeName ∨ ∀ j, job = some j → JobFits C es j
  | .start job => JobFits C es job
  | .check e => isPost C e = true
  | .link e => isPost C e = true ∧ phase e.eventId = .posting i
  | .send e room => isPost C e = true ∧ room = .str D ∧ phase e.eventId = .posting i
  | .record post mirror room => room = .str D ∧ ∃ m, m.eventId = mirror ∧ phase post = .sent i m
  | .findRedacted _ post => deleted C es post = true
  | .sendRedaction _ post mirror room => deleted C es post = true ∧ room = D ∧
      ∃ m, m.eventId = mirror ∧ (phase post).settled m
  | .forget post => deleted C es post = true ∧
      ∃ m, w.redacted m.eventId = true ∧ (phase post).settled m
  | .ended => True
  | _ => False

/-- The thread is on its way to check the post. -/
def Point.willCheck (C : RoomId) (post : EventId) : Point → Bool
  | .callback room (some (.mirrorPost e)) => room = C && e.eventId = post
  | .start (.mirrorPost e) => e.eventId = post
  | .check e => e.eventId = post
  | _ => false

/-- The thread is on its way to delete the row of the post. -/
def Point.willForget (C : RoomId) (post : EventId) : Point → Bool
  | .callback room (some (.mirrorRedact _ p)) => room = C && p = post
  | .start (.mirrorRedact _ p) => p = post
  | .findRedacted _ p => p = post
  | .sendRedaction _ p _ _ => p = post
  | .forget p => p = post
  | _ => false

/-- **The invariant**: each post is in its phase, and all points fit. -/
structure Tracked (C D : RoomId) (owner : UserId) (s : State) (ps : List Point)
    (phase : EventId → Phase) : Prop where
  located : System.Located At ps s
  linked : Linked C D owner s.world
  sound : Sound s.world
  named : ∀ post, posted C s.events post = true → post ≠ []
  fits : ∀ i p, ps[i]? = some p → Fits C D s.world s.events phase i p
  holds : ∀ post, Holds C D s.world ps post (phase post)
  checked : ∀ post, phase post ≠ .fresh → s.did (checks post) = true
  settled : ∀ post, s.did (records post) = true → ∃ m, (phase post).settled m
  posts : ∀ post, posted C s.events post = true → phase post ≠ .fresh ∨
    ∃ p ∈ ps, p.willCheck C post = true
  redactions : ∀ post, deleted C s.events post = true → post ≠ [] → (∃ m, phase post = .gone m) ∨
    (phase post = .fresh ∧ s.did (reads post) = true) ∨ ∃ p ∈ ps, p.willForget C post = true
  gone : ∀ post m, phase post = .gone m → deleted C s.events post = true

/-! ### What each post's phase says, and what keeps it -/

variable {C D : RoomId} {w w' : World} {e : Event} {post : EventId} {es : List Ev}
  {ps new : List Point} {i l : ℕ} {p q r : Point} {phase phase' : EventId → Phase} {ph x : Phase}
  {host : PyStr} {owner : UserId} {s t : State} {raises : Bool}

/-- A check is a read. -/
theorem did_reads {s : State} (h : s.did (checks post) = true) : s.did (reads post) = true := by
  obtain ⟨entry, hmem, hop⟩ := List.any_eq_true.1 h
  refine List.any_eq_true.2 ⟨entry, hmem, ?_⟩
  revert hop
  generalize entry.done.op = op
  cases op with
  | own o =>
      cases o with
      | alreadyMirrored p => exact id
      | _ => exact fun h => by cases h
  | _ => exact fun h => by cases h

/-- The thread at the point is the one that the phase of the post names. -/
def Point.carries (post : EventId) : Point → Bool
  | .link e => e.eventId = post
  | .send e _ => e.eventId = post
  | .record p _ _ => p = post
  | .forget p => p = post
  | _ => false

/-- The phase of a post does not notice the move of a thread that does not carry it. -/
theorem Holds.moved (h : Holds C D w ps post ph) (hi : ps[i]? = some p)
    (hp : p.carries post = false) : Holds C D w (ps.set i q ++ new) post ph := by
  have hkeep : ∀ (l : ℕ) (r : Point), r.carries post = true → ps[l]? = some r →
      (ps.set i q ++ new)[l]? = some r := by
    intro l r hr hl
    refine moved_other ?_ hl
    rintro rfl
    obtain rfl := Option.some.inj (hl.symm.trans hi)
    rw [hp] at hr
    cases hr
  cases ph with
  | fresh => exact h
  | posting l =>
      obtain ⟨hw, e, rfl, he⟩ := h
      refine ⟨hw, e, rfl, ?_⟩
      rcases he with he | ⟨room, he⟩
      · exact .inl (hkeep l _ (decide_eq_true rfl) he)
      · exact .inr ⟨room, hkeep l _ (decide_eq_true rfl) he⟩
  | sent l m =>
      obtain ⟨hw, hred, room, hr⟩ := h
      exact ⟨hw, hred, room, hkeep l _ (decide_eq_true rfl) hr⟩
  | recorded m =>
      obtain ⟨hw, hred⟩ := h
      refine ⟨hw, fun hm => ?_⟩
      obtain ⟨l, hl⟩ := hred hm
      exact ⟨l, hkeep l _ (decide_eq_true rfl) hl⟩
  | gone m => exact h

/-- The phase of a post is about its own mirrors and rows. -/
theorem Holds.world (h : Holds C D w ps post ph) (hm : w'.mirrors C D post = w.mirrors C D post)
    (hr : w'.rows post = w.rows post)
    (hred : ∀ m ∈ w.mirrors C D post, w'.redacted m.eventId = w.redacted m.eventId) :
    Holds C D w' ps post ph := by
  have hone : ∀ m, w.mirrors C D post = [m] → w'.redacted m.eventId = w.redacted m.eventId := by
    intro m h
    exact hred m (by rw [h]; exact List.mem_singleton_self m)
  cases ph with
  | fresh => exact ⟨hm.trans h.1, hr.trans h.2⟩
  | posting l => exact ⟨⟨hm.trans h.1.1, hr.trans h.1.2⟩, h.2⟩
  | sent l m =>
      obtain ⟨⟨h1, h2⟩, hnot, hrec⟩ := h
      exact ⟨⟨hm.trans h1, hr.trans h2⟩, (hone m h1).trans hnot, hrec⟩
  | recorded m =>
      obtain ⟨⟨h1, h2⟩, hforget⟩ := h
      exact ⟨⟨hm.trans h1, hr.trans h2⟩, fun hm' => hforget ((hone m h1).symm.trans hm')⟩
  | gone m =>
      obtain ⟨⟨h1, h2⟩, hyes⟩ := h
      exact ⟨⟨hm.trans h1, hr.trans h2⟩, (hone m h1).trans hyes⟩

theorem JobFits.mono {es' : List Ev} {job : Job} (h : JobFits C es job)
    (hes : ∀ post, deleted C es post = true → deleted C es' post = true) : JobFits C es' job := by
  cases job with
  | mirrorPost e => exact h
  | mirrorRedact e post => exact hes post h
  | _ => exact h.elim

/-- A point goes on to fit: the types of the rooms stay, and redactions are not undone. -/
theorem Fits.mono {es' : List Ev} (h : Fits C D w es phase l r)
    (hchat : ∀ room, w'.chatType room = w.chatType room)
    (hred : ∀ id, w.redacted id = true → w'.redacted id = true)
    (hes : ∀ post, deleted C es post = true → deleted C es' post = true) :
    Fits C D w' es' phase l r := by
  cases r with
  | callback room job =>
      rcases h with h | h
      · exact .inl (by rw [hchat]; exact h)
      · exact .inr fun j hj => (h j hj).mono hes
  | start job => exact JobFits.mono h hes
  | findRedacted e post => exact hes post h
  | sendRedaction e post mirror room => exact ⟨hes post h.1, h.2⟩
  | forget post =>
      obtain ⟨hd, m, hm, hset⟩ := h
      exact ⟨hes post hd, m, hred _ hm, hset⟩
  | _ => exact h

/-- The phases with the one of a post changed. -/
def turn (phase : EventId → Phase) (post : EventId) (x : Phase) : EventId → Phase :=
  fun p => if p = post then x else phase p

@[simp]
theorem turn_self : turn phase post x post = x := if_pos rfl

theorem turn_other {p : EventId} (h : p ≠ post) : turn phase post x p = phase p := if_neg h

/-- A point goes on to fit when the phase of a post changes: its thread is not the one the
phase names, and what was settled stays so. -/
theorem Fits.turn (h : Fits C D w es phase l r) (hp : phase post ≠ .posting l)
    (hs : ∀ m, phase post ≠ .sent l m) (hset : ∀ m, (phase post).settled m → x.settled m) :
    Fits C D w es (turn phase post x) l r := by
  have hsame : ∀ p ph, phase p = ph → (ph = .posting l ∨ ∃ m, ph = .sent l m) →
      ChannelSync.turn phase post x p = ph := by
    intro p ph hph hl
    rw [turn_other, hph]
    rintro rfl
    rcases hl with rfl | ⟨m, rfl⟩
    · exact hp hph
    · exact hs m hph
  have hsettled : ∀ p m, (phase p).settled m → (ChannelSync.turn phase post x p).settled m := by
    intro p m hm
    by_cases hpost : p = post
    · subst hpost
      rw [turn_self]
      exact hset m hm
    · rw [turn_other hpost]
      exact hm
  cases r with
  | link e => exact ⟨h.1, hsame _ _ h.2 (.inl rfl)⟩
  | send e room => exact ⟨h.1, h.2.1, hsame _ _ h.2.2 (.inl rfl)⟩
  | record post' mirror room =>
      obtain ⟨hr, m, hm, hph⟩ := h
      exact ⟨hr, m, hm, hsame _ _ hph (.inr ⟨m, rfl⟩)⟩
  | sendRedaction e post' mirror room =>
      obtain ⟨hd, hr, m, hm, hph⟩ := h
      exact ⟨hd, hr, m, hm, hsettled _ _ hph⟩
  | forget post' =>
      obtain ⟨hd, m, hm, hph⟩ := h
      exact ⟨hd, m, hm, hsettled _ _ hph⟩
  | _ => exact h

/-! ### One move -/

/-- What has to be shown of the move of one thread from `p` to `q`, with the phases `phase'`
after it. -/
structure Carried (C D : RoomId) (s t : State) (ps new : List Point) (i : ℕ) (p q : Point)
    (phase phase' : EventId → Phase) : Prop where
  self : Fits C D t.world s.events phase' i q
  others : ∀ l r, l ≠ i → ps[l]? = some r → Fits C D t.world s.events phase' l r
  started : ∀ r ∈ new, ∀ l, Fits C D t.world s.events phase' l r
  holds : ∀ post, Holds C D t.world (ps.set i q ++ new) post (phase' post)
  checked : ∀ post, phase' post ≠ .fresh → phase post ≠ .fresh ∨ checks post p.op = true
  settled : ∀ post, (∃ m, (phase post).settled m) ∨ records post p.op = true →
    ∃ m, (phase' post).settled m
  posts : ∀ post, phase post ≠ .fresh ∨ p.willCheck C post = true →
    phase' post ≠ .fresh ∨ ∃ r ∈ q :: new, r.willCheck C post = true
  redactions : ∀ post, (∃ m, phase post = .gone m) ∨
    (phase post = .fresh ∧ s.did (reads post) = true) ∨ p.willForget C post = true →
    (∃ m, phase' post = .gone m) ∨
    (phase' post = .fresh ∧ (reads post p.op = true ∨ s.did (reads post) = true)) ∨
    ∃ r ∈ q :: new, r.willForget C post = true
  gone : ∀ post m, phase' post = .gone m → phase post = .gone m ∨ deleted C s.events post = true

/-- The point that has moved, or one that was appended. -/
theorem mem_moved_self (hi : ps[i]? = some p) {r : Point} (h : r ∈ q :: new) :
    r ∈ ps.set i q ++ new := by
  rcases List.mem_cons.1 h with rfl | h
  · exact List.mem_of_getElem? (moved_self hi)
  · exact List.mem_append_right _ h

/-- The move of one thread keeps the invariant. -/
theorem Tracked.moved (hT : Tracked C D owner s ps phase) (hi : ps[i]? = some p)
    (hloc : System.Located At (ps.set i q ++ new) t) (hev : t.events = s.events)
    (hlog : ∀ f, t.did f = (f p.op || s.did f)) (hlinked : Linked C D owner t.world)
    (hsound : Sound t.world)
    (hc : Carried C D s t ps new i p q phase phase') :
    Tracked C D owner t (ps.set i q ++ new) phase' where
  located := hloc
  linked := hlinked
  sound := hsound
  named := by
    rw [hev]
    exact hT.named
  fits := by
    intro l r hl
    rw [hev]
    rcases getElem?_moved hl with ⟨rfl, rfl⟩ | ⟨hne, hl⟩ | hr
    · exact hc.self
    · exact hc.others l r hne hl
    · exact hc.started r hr l
  holds := hc.holds
  checked := by
    intro post hph
    rw [hlog, Bool.or_eq_true]
    rcases hc.checked post hph with h | h
    · exact .inr (hT.checked post h)
    · exact .inl h
  settled := by
    intro post hrec
    rw [hlog, Bool.or_eq_true] at hrec
    refine hc.settled post ?_
    rcases hrec with h | h
    · exact .inr h
    · exact .inl (hT.settled post h)
  posts := by
    intro post hp
    rw [hev] at hp
    have hcase : phase' post ≠ .fresh ∨ (∃ r ∈ q :: new, r.willCheck C post = true) ∨
        ∃ r ∈ ps.set i q ++ new, r.willCheck C post = true := by
      rcases hT.posts post hp with h | ⟨r, hr, hw⟩
      · exact (hc.posts post (.inl h)).imp id .inl
      · rcases mem_moved q new hi hr with rfl | hr
        · exact (hc.posts post (.inr hw)).imp id .inl
        · exact .inr (.inr ⟨r, hr, hw⟩)
    rcases hcase with h | ⟨r, hr, hw⟩ | h
    · exact .inl h
    · exact .inr ⟨r, mem_moved_self hi hr, hw⟩
    · exact .inr h
  redactions := by
    intro post hp hne
    rw [hev] at hp
    have hdid : reads post p.op = true ∨ s.did (reads post) = true → t.did (reads post) = true := by
      rw [hlog, Bool.or_eq_true]
      exact id
    have hcase : ((∃ m, phase post = .gone m) ∨ (phase post = .fresh ∧ s.did (reads post) = true) ∨
          p.willForget C post = true) →
        (∃ m, phase' post = .gone m) ∨ (phase' post = .fresh ∧ t.did (reads post) = true) ∨
          ∃ r ∈ ps.set i q ++ new, r.willForget C post = true := by
      intro h
      rcases hc.redactions post h with h | ⟨h, hr⟩ | ⟨r, hr, hw⟩
      · exact .inl h
      · exact .inr (.inl ⟨h, hdid hr⟩)
      · exact .inr (.inr ⟨r, mem_moved_self hi hr, hw⟩)
    rcases hT.redactions post hp hne with h | h | ⟨r, hr, hw⟩
    · exact hcase (.inl h)
    · exact hcase (.inr (.inl h))
    · rcases mem_moved q new hi hr with rfl | hr
      · exact hcase (.inr (.inr hw))
      · exact .inr (.inr ⟨r, hr, hw⟩)
  gone := by
    intro post m hph
    rw [hev]
    rcases hc.gone post m hph with h | h
    · exact hT.gone post m h
    · exact h

/-- A move that leaves the world and the phases as they are. -/
theorem Tracked.still (hT : Tracked C D owner s ps phase) (hi : ps[i]? = some p)
    (hloc : System.Located At (ps.set i q ++ new) t) (hev : t.events = s.events)
    (hlog : ∀ f, t.did f = (f p.op || s.did f)) (hw : t.world = s.world)
    (hself : Fits C D s.world s.events phase i q)
    (hnew : ∀ r ∈ new, ∀ l, Fits C D s.world s.events phase l r)
    (hholds : ∀ post, p.carries post = true → Holds C D s.world (ps.set i q ++ new) post (phase post))
    (hrec : ∀ post, records post p.op = false)
    (hposts : ∀ post, p.willCheck C post = true →
      phase post ≠ .fresh ∨ ∃ r ∈ q :: new, r.willCheck C post = true)
    (hreds : ∀ post, p.willForget C post = true → (∃ m, phase post = .gone m) ∨
      (phase post = .fresh ∧ (reads post p.op = true ∨ s.did (reads post) = true)) ∨
      ∃ r ∈ q :: new, r.willForget C post = true) :
    Tracked C D owner t (ps.set i q ++ new) phase := by
  refine hT.moved hi hloc hev hlog (by rw [hw]; exact hT.linked) (by rw [hw]; exact hT.sound) ?_
  rw [← hw] at hself hnew hholds
  refine ⟨hself, fun l r _ hl => ?_, hnew, fun post => ?_, fun post h => .inl h, ?_, ?_, ?_,
    fun post m h => .inl h⟩
  · rw [hw]
    exact hT.fits l r hl
  · cases hcar : p.carries post with
    | true => exact hholds post hcar
    | false =>
        rw [hw]
        exact (hT.holds post).moved hi hcar
  · intro post h
    rcases h with h | h
    · exact h
    · rw [hrec] at h
      cases h
  · intro post h
    rcases h with h | h
    · exact .inl h
    · exact hposts post h
  · intro post h
    rcases h with h | h | h
    · exact .inl h
    · exact .inr (.inl ⟨h.1, .inr h.2⟩)
    · exact hreds post h

/-- What has to be shown of a move that turns the phase of one post to `x`. -/
structure Turns (C D : RoomId) (s t : State) (ps new : List Point) (i : ℕ) (p q : Point)
    (phase : EventId → Phase) (post : EventId) (x : Phase) : Prop where
  chat : ∀ room, t.world.chatType room = s.world.chatType room
  redacted : ∀ id, t.world.redacted id = s.world.redacted id
  mirrors : ∀ p, p ≠ post → t.world.mirrors C D p = s.world.mirrors C D p
  rows : ∀ p, p ≠ post → t.world.rows p = s.world.rows p
  carries : ∀ p', p.carries p' = true → p' = post
  self : Fits C D t.world s.events (turn phase post x) i q
  started : ∀ r ∈ new, ∀ l, Fits C D t.world s.events (turn phase post x) l r
  holds : Holds C D t.world (ps.set i q ++ new) post x
  posting : ∀ l, l ≠ i → phase post ≠ .posting l
  sent : ∀ l m, l ≠ i → phase post ≠ .sent l m
  settled : ∀ m, (phase post).settled m → x.settled m
  fresh : x ≠ .fresh
  checked : phase post ≠ .fresh ∨ checks post p.op = true
  unread : phase post = .fresh → s.did (reads post) = false
  records : ∀ p', records p' p.op = true → p' = post ∧ ∃ m, x.settled m
  checks : ∀ p', p.willCheck C p' = true → p' = post
  forgets : ∀ p', p.willForget C p' = true → p' = post ∧ ∃ m, x = .gone m
  stays : ∀ m, phase post = .gone m → ∃ m, x = .gone m
  gone : ∀ m, x = .gone m → deleted C s.events post = true

theorem Turns.carried (post : EventId) (x : Phase) (hT : Tracked C D owner s ps phase)
    (hi : ps[i]? = some p) (h : Turns C D s t ps new i p q phase post x) :
    Carried C D s t ps new i p q phase (turn phase post x) where
  self := h.self
  others := by
    intro l r hne hl
    have hfit : Fits C D t.world s.events phase l r :=
      (hT.fits l r hl).mono h.chat (fun id hid => (h.redacted id).trans hid) fun _ => id
    exact hfit.turn (h.posting l hne) (fun m => h.sent l m hne) h.settled
  started := h.started
  holds := by
    intro p'
    by_cases hp : p' = post
    · subst hp
      rw [turn_self]
      exact h.holds
    · rw [turn_other hp]
      have hcar : p.carries p' = false := by
        cases hc : p.carries p' with
        | false => rfl
        | true => exact absurd (h.carries p' hc) hp
      exact ((hT.holds p').moved hi hcar).world (h.mirrors p' hp) (h.rows p' hp)
        fun m _ => h.redacted m.eventId
  checked := by
    intro p' hne
    by_cases hp : p' = post
    · subst hp
      exact h.checked
    · rw [turn_other hp] at hne
      exact .inl hne
  settled := by
    intro p' hset
    by_cases hp : p' = post
    · subst hp
      rw [turn_self]
      rcases hset with ⟨m, hm⟩ | hrec
      · exact ⟨m, h.settled m hm⟩
      · exact (h.records p' hrec).2
    · rw [turn_other hp]
      rcases hset with hset | hrec
      · exact hset
      · exact absurd (h.records p' hrec).1 hp
  posts := by
    intro p' hcase
    by_cases hp : p' = post
    · subst hp
      rw [turn_self]
      exact .inl h.fresh
    · rw [turn_other hp]
      rcases hcase with hcase | hwill
      · exact .inl hcase
      · exact absurd (h.checks p' hwill) hp
  redactions := by
    intro p' hcase
    by_cases hp : p' = post
    · subst hp
      rw [turn_self]
      rcases hcase with ⟨m, hm⟩ | ⟨hfresh, hread⟩ | hwill
      · exact .inl (h.stays m hm)
      · rw [h.unread hfresh] at hread
        cases hread
      · exact .inl (h.forgets p' hwill).2
    · rw [turn_other hp]
      rcases hcase with hcase | hcase | hwill
      · exact .inl hcase
      · exact .inr (.inl ⟨hcase.1, .inr hcase.2⟩)
      · exact absurd (h.forgets p' hwill).1 hp
  gone := by
    intro p' m hph
    by_cases hp : p' = post
    · subst hp
      rw [turn_self] at hph
      exact .inr (h.gone m hph)
    · rw [turn_other hp] at hph
      exact .inl hph

/-- The phase of a post with a row. -/
theorem Holds.recorded_of_row {row : MirrorRow} (h : Holds C D w ps post ph)
    (hrow : row ∈ w.rows post) :
    ∃ m, ph = .recorded m ∧ row = ⟨post, m.eventId, D⟩ := by
  cases ph with
  | recorded m =>
      obtain ⟨⟨-, h2⟩, -⟩ := h
      rw [h2] at hrow
      exact ⟨m, rfl, List.mem_singleton.1 hrow⟩
  | fresh =>
      rw [h.2] at hrow
      cases hrow
  | posting l =>
      rw [h.1.2] at hrow
      cases hrow
  | sent l m =>
      rw [h.1.2] at hrow
      cases hrow
  | gone m =>
      rw [h.1.2] at hrow
      cases hrow

/-- A post that has been checked and not recorded, without a row, is on its way. -/
theorem Holds.of_no_row (h : Holds C D w ps post ph) (hrow : w.rows post = []) :
    ∀ m, ph ≠ .recorded m := by
  rintro m rfl
  obtain ⟨⟨-, h2⟩, -⟩ := h
  rw [hrow] at h2
  cases h2

/-- The mirror of a settled post. -/
theorem Tracked.mirrors (hT : Tracked C D owner s ps phase) {m : Event}
    (hset : (phase post).settled m) :
    s.world.mirrors C D post = [m] := by
  have hold := hT.holds post
  cases hph : phase post with
  | recorded m' =>
      rw [hph] at hold hset
      obtain rfl : m' = m := hset
      exact hold.1.1
  | gone m' =>
      rw [hph] at hold hset
      obtain rfl : m' = m := hset
      exact hold.1.1
  | _ =>
      rw [hph] at hset
      exact hset.elim

section Steps

variable (hT : Tracked C D owner s ps phase) (hev : t.events = s.events)
  (hlog : ∀ f, t.did f = (f p.op || s.did f))
include hT hev hlog

/-- The callback has read the type of its room. -/
theorem tracked_callback {room : RoomId} {job : Option Job} (hp : p = .callback room job)
    (hi : ps[i]? = some p) (hw : t.world = s.world)
    (hloc : System.Located At (ps.set i (p.next s.world) ++ []) t) :
    Tracked C D owner t (ps.set i (p.next s.world) ++ []) phase := by
  subst hp
  have hfit := hT.fits i _ hi
  have hnext : ∀ j, job = some j → room = C → Point.next s.world (.callback room job) = .start j := by
    rintro j rfl rfl
    exact if_pos hT.linked.channel
  refine hT.still hi hloc hev hlog hw ?_ (by simp) (by simp [Point.carries]) (fun _ => rfl) ?_ ?_
  · cases job with
    | none => exact trivial
    | some j =>
        simp only [Point.next]
        split
        · rename_i hchat
          exact (hfit.resolve_left (not_not_intro hchat)) j rfl
        · exact trivial
  · intro post hwill
    refine .inr ⟨_, List.mem_cons_self, ?_⟩
    cases job with
    | none => cases hwill
    | some j =>
        cases j with
        | mirrorPost e =>
            simp only [Point.willCheck, Bool.and_eq_true, decide_eq_true_eq] at hwill
            rw [hnext _ rfl hwill.1]
            exact decide_eq_true hwill.2
        | _ => cases hwill
  · intro post hwill
    refine .inr (.inr ⟨_, List.mem_cons_self, ?_⟩)
    cases job with
    | none => cases hwill
    | some j =>
        cases j with
        | mirrorRedact e target =>
            simp only [Point.willForget, Bool.and_eq_true, decide_eq_true_eq] at hwill
            rw [hnext _ rfl hwill.1]
            exact decide_eq_true hwill.2
        | _ => cases hwill

/-- A job starts. -/
theorem tracked_start {job : Job} (hp : p = .start job) (hi : ps[i]? = some p)
    (hw : t.world = s.world)
    (hloc : System.Located At (ps.set i (p.next s.world) ++ [Point.first job]) t) :
    Tracked C D owner t (ps.set i (p.next s.world) ++ [Point.first job]) phase := by
  subst hp
  have hfit : JobFits C s.events job := hT.fits i _ hi
  refine hT.still hi hloc hev hlog hw trivial ?_ (by simp [Point.carries]) (fun _ => rfl) ?_ ?_
  · intro r hr l
    obtain rfl := List.mem_singleton.1 hr
    cases job with
    | mirrorPost e => exact hfit
    | mirrorRedact e post => exact hfit
    | _ => exact hfit.elim
  · intro post hwill
    refine .inr ⟨.first job, by simp, ?_⟩
    cases job with
    | mirrorPost e => exact hwill
    | _ => cases hwill
  · intro post hwill
    refine .inr (.inr ⟨.first job, by simp, ?_⟩)
    cases job with
    | mirrorRedact e target => exact hwill
    | _ => cases hwill

/-- The link is read. -/
theorem tracked_link (hp : p = .link e) (hi : ps[i]? = some p) (hw : t.world = s.world)
    (hloc : System.Located At (ps.set i (p.next s.world) ++ []) t) :
    Tracked C D owner t (ps.set i (p.next s.world) ++ []) phase := by
  subst hp
  obtain ⟨hpost, hph⟩ := hT.fits i _ hi
  have hroom : e.roomId = C := by
    simp only [isPost, Bool.and_eq_true, decide_eq_true_eq] at hpost
    exact hpost.2
  have hnext : Point.next s.world (.link e) = .send e (.str D) := by
    simp only [Point.next, hroom, hT.linked.link]
    rfl
  rw [hnext] at hloc ⊢
  refine hT.still hi hloc hev hlog hw ⟨hpost, rfl, hph⟩ (by simp) ?_ (fun _ => rfl)
    (by simp [Point.willCheck]) (by simp [Point.willForget])
  intro post hcar
  obtain rfl : e.eventId = post := of_decide_eq_true hcar
  have hold := hT.holds e.eventId
  rw [hph] at hold ⊢
  exact ⟨hold.1, e, rfl, .inr ⟨_, moved_self hi⟩⟩

/-- A redaction has looked for the mirror.  It comes before a check of the post or after
the record. -/
theorem tracked_findRedacted (hp : p = .findRedacted e post) (hi : ps[i]? = some p)
    (hw : t.world = s.world)
    (hloc : System.Located At (ps.set i (p.next s.world) ++ []) t)
    (hun : s.world.rows post = [] → s.did (checks post) = false ∨ s.did (records post) = true) :
    Tracked C D owner t (ps.set i (p.next s.world) ++ []) phase := by
  subst hp
  have hdel : deleted C s.events post = true := hT.fits i _ hi
  simp only [Point.next] at hloc ⊢
  cases hrow : s.world.rowOf (.str post) with
  | some row =>
      rw [hrow] at hloc
      obtain ⟨m, hph, rfl⟩ := (hT.holds post).recorded_of_row (rowOf_eq_some hrow)
      refine hT.still hi hloc hev hlog hw ⟨hdel, rfl, m, rfl, ?_⟩ (by simp) (by simp [Point.carries])
        (fun _ => rfl) (by simp [Point.willCheck]) ?_
      · rw [hph]
        exact rfl
      · intro post' hwill
        exact .inr (.inr ⟨_, List.mem_cons_self, hwill⟩)
  | none =>
      rw [hrow] at hloc
      have hnil := rowOf_eq_none hrow
      refine hT.still hi hloc hev hlog hw trivial (by simp) (by simp [Point.carries])
        (fun _ => rfl) (by simp [Point.willCheck]) ?_
      intro post' hwill
      obtain rfl : post = post' := of_decide_eq_true hwill
      rcases hun hnil with hnot | hrec
      · -- no check has come before: nothing has happened to the post
        have hfresh : phase post = .fresh := by
          by_contra hne
          rw [hT.checked post hne] at hnot
          cases hnot
        exact .inr (.inl ⟨hfresh, .inl (decide_eq_true rfl)⟩)
      · -- the record has been deleted since
        obtain ⟨m, hset⟩ := hT.settled post hrec
        have hnorec := (hT.holds post).of_no_row hnil
        cases hph : phase post with
        | gone m' => exact .inl ⟨m', rfl⟩
        | recorded m' => exact absurd hph (hnorec m')
        | _ =>
            rw [hph] at hset
            exact hset.elim

/-- A check finds a row, or it is the first read of the table for its post. -/
theorem tracked_check (hp : p = .check e) (hi : ps[i]? = some p) (hw : t.world = s.world)
    (hloc : System.Located At (ps.set i (p.next s.world) ++ []) t)
    (hun : s.world.rows e.eventId = [] → s.did (reads e.eventId) = false) :
    ∃ phase', Tracked C D owner t (ps.set i (p.next s.world) ++ []) phase' := by
  subst hp
  have hpost : isPost C e = true := hT.fits i _ hi
  simp only [Point.next] at hloc ⊢
  split
  · rename_i hany
    rw [if_pos hany] at hloc
    refine ⟨phase, hT.still hi hloc hev hlog hw trivial (by simp) (by simp [Point.carries])
      (fun _ => rfl) ?_ (by simp [Point.willForget])⟩
    intro post hwill
    obtain rfl : e.eventId = post := of_decide_eq_true hwill
    refine .inl fun hfresh => ?_
    have hold := hT.holds e.eventId
    rw [hfresh] at hold
    rw [rows_eq_nil_iff.1 hold.2] at hany
    cases hany
  · rename_i hany
    rw [if_neg hany] at hloc
    have hnil : s.world.rows e.eventId = [] := rows_eq_nil_iff.2 (by simpa using hany)
    have hunread := hun hnil
    have hfresh : phase e.eventId = .fresh := by
      by_contra hne
      rw [did_reads (hT.checked e.eventId hne)] at hunread
      cases hunread
    have hold := hT.holds e.eventId
    rw [hfresh] at hold
    refine ⟨_, hT.moved hi hloc hev hlog (by rw [hw]; exact hT.linked) (by rw [hw]; exact hT.sound)
      (Turns.carried e.eventId (.posting i) hT hi ?_)⟩
    exact
      { chat := fun _ => by rw [hw]
        redacted := fun _ => by rw [hw]
        mirrors := fun _ _ => by rw [hw]
        rows := fun _ _ => by rw [hw]
        carries := by simp [Point.carries]
        self := ⟨hpost, turn_self⟩
        started := by simp
        holds := by
          rw [hw]
          exact ⟨hold, e, rfl, .inl (moved_self hi)⟩
        posting := by simp [hfresh]
        sent := by simp [hfresh]
        settled := by simp [hfresh, Phase.settled]
        fresh := by simp
        checked := .inr (decide_eq_true rfl)
        unread := fun _ => hunread
        records := by simp [Point.op, records]
        checks := by simp [Point.willCheck, eq_comm]
        forgets := by simp [Point.willForget]
        stays := by simp [hfresh]
        gone := by simp }

/-- The mirror is sent. -/
theorem tracked_send {room : Json} (hp : p = .send e room) (hi : ps[i]? = some p)
    (hw : t.world = s.world.create (sentEvent s.world (mirrorDict e (.str D)) D))
    (hloc : System.Located At (ps.set i (p.next s.world) ++ new) t)
    (hnew : ∀ r ∈ new, r = .ended ∨ ∃ job, r = .callback D job) :
    ∃ phase', Tracked C D owner t (ps.set i (p.next s.world) ++ new) phase' := by
  subst hp
  obtain ⟨hpost, rfl, hph⟩ := hT.fits i _ hi
  have hroom : e.roomId = C := by
    simp only [isPost, Bool.and_eq_true, decide_eq_true_eq] at hpost
    exact hpost.2
  obtain ⟨hrooms, hstore, hsent, -⟩ :=
    create_message (w := s.world) (e := sentEvent s.world (mirrorDict e (.str D)) D) rfl
  rw [← hw] at hrooms hstore hsent
  have hold := hT.holds e.eventId
  rw [hph] at hold
  have hred : ∀ id, t.world.redacted id = s.world.redacted id := by
    intro id
    rw [hw]
    exact redacted_create_message rfl rfl id
  refine ⟨_, hT.moved hi hloc hev hlog (hT.linked.of_rooms_eq hrooms) ?_
    (Turns.carried e.eventId (.sent i (sentEvent s.world (mirrorDict e (.str D)) D)) hT hi ?_)⟩
  · rw [hw]
    exact hT.sound.create rfl rfl fun id h => by cases h
  exact
    { chat := fun room => by simp only [Synapse.World.chatType, hrooms]
      redacted := hred
      mirrors := fun p hne => by rw [hw, mirrors_create hroom, if_neg hne]
      rows := fun p _ => by simp only [World.rows, hstore]
      carries := by simp [Point.carries, eq_comm]
      self := ⟨rfl, _, rfl, turn_self⟩
      started := by
        intro r hr l
        rcases hnew r hr with rfl | ⟨job, rfl⟩
        · exact trivial
        · refine .inl ?_
          rw [show t.world.chatType D = s.world.chatType D by simp only [Synapse.World.chatType, hrooms]]
          exact hT.linked.discussion
      holds := by
        refine ⟨⟨?_, ?_⟩, ?_, _, moved_self hi⟩
        · rw [hw, mirrors_create hroom, if_pos rfl, hold.1.1]
        · simp only [World.rows, hstore]
          exact hold.1.2
        · rw [hred]
          exact hT.sound.not_redacted
      posting := by
        intro l hne
        rw [hph]
        exact fun h => hne (Phase.posting.inj h).symm
      sent := by simp [hph]
      settled := by simp [hph, Phase.settled]
      fresh := by simp
      checked := .inl (by simp [hph])
      unread := by simp [hph]
      records := by simp [Point.op, records]
      checks := by simp [Point.willCheck]
      forgets := by simp [Point.willForget]
      stays := by simp [hph]
      gone := by simp }

/-- The mirror is recorded. -/
theorem tracked_record {mirror : EventId} {room : Json} (hp : p = .record post mirror room)
    (hi : ps[i]? = some p)
    (hw : t.world = { s.world with store := (storeOp s.world.rooms s.world.store
      (.putMirror post mirror room)).1 })
    (hloc : System.Located At (ps.set i (p.next s.world) ++ []) t) :
    ∃ phase', Tracked C D owner t (ps.set i (p.next s.world) ++ []) phase' := by
  subst hp
  obtain ⟨rfl, m, rfl, hph⟩ := hT.fits i _ hi
  have hold := hT.holds post
  rw [hph] at hold
  obtain ⟨⟨hmirrors, hrows⟩, hred, -⟩ := hold
  have hstore : t.world.store = s.world.store ++ [⟨post, m.eventId, D⟩] := by
    rw [hw]
    show (if s.world.store.any (fun row => row.post = post) then s.world.store
      else s.world.store ++ [⟨post, m.eventId, D⟩]) = _
    rw [rows_eq_nil_iff.1 hrows]
    rfl
  have hrest : t.world.rooms = s.world.rooms ∧ t.world.sent = s.world.sent ∧
      t.world.count = s.world.count := by
    rw [hw]
    exact ⟨rfl, rfl, rfl⟩
  refine ⟨_, hT.moved hi hloc hev hlog (hT.linked.of_rooms_eq hrest.1) ?_
    (Turns.carried post (.recorded m) hT hi ?_)⟩
  · obtain ⟨h1, h2, h3⟩ := hT.sound
    rw [hw]
    exact ⟨h1, h2, h3⟩
  exact
    { chat := fun room => by simp only [Synapse.World.chatType, hrest.1]
      redacted := fun id => by simp only [World.redacted, hrest.2.1]
      mirrors := fun p _ => by simp only [World.mirrors, hrest.2.1]
      rows := fun p hne => by simp [World.rows, hstore, Ne.symm hne]
      carries := by simp [Point.carries, eq_comm]
      self := trivial
      started := by simp
      holds := by
        refine ⟨⟨?_, ?_⟩, fun h => ?_⟩
        · simp only [World.mirrors, hrest.2.1]
          exact hmirrors
        · have hnil : s.world.store.filter (fun row => row.post = post) = [] := hrows
          simp [World.rows, hstore, hnil]
        · simp only [World.redacted, hrest.2.1] at h
          have : s.world.redacted m.eventId = true := h
          rw [hred] at this
          cases this
      posting := by simp [hph]
      sent := by
        intro l m' hne
        rw [hph]
        exact fun h => hne (Phase.sent.inj h).1.symm
      settled := by simp [hph, Phase.settled]
      fresh := by simp
      checked := .inl (by simp [hph])
      unread := by simp [hph]
      records := by
        intro p' h
        exact ⟨(of_decide_eq_true h).symm, m, rfl⟩
      checks := by simp [Point.willCheck]
      forgets := by simp [Point.willForget]
      stays := by simp [hph]
      gone := by simp }

/-- The mirror is redacted. -/
theorem tracked_sendRedaction {mirror : EventId} {room : RoomId}
    (hp : p = .sendRedaction e post mirror room) (hi : ps[i]? = some p)
    (hw : t.world = s.world.create (sentEvent s.world (redactionDict e mirror room) room))
    (hloc : System.Located At (ps.set i (p.next s.world) ++ new) t)
    (hnew : ∀ r ∈ new, r = .ended ∨ ∃ job, r = .callback D job) :
    ∃ phase', Tracked C D owner t (ps.set i (p.next s.world) ++ new) phase' := by
  subst hp
  obtain ⟨hdel, rfl, m, rfl, hset⟩ := hT.fits i _ hi
  obtain ⟨hrooms, hstore, -, -⟩ :=
    create_message (w := s.world) (e := sentEvent s.world (redactionDict e m.eventId room) room) rfl
  rw [← hw] at hrooms hstore
  have hred : ∀ id, t.world.redacted id = (decide (m.eventId = id) || s.world.redacted id) := by
    intro id
    rw [hw]
    exact redacted_create_redaction id
  have hmir : ∀ p, t.world.mirrors C room p = s.world.mirrors C room p := by
    intro p
    rw [hw]
    exact mirrors_create_redaction p
  have hone := hT.mirrors hset
  have hmem : m ∈ s.world.mirrors C room post := by
    rw [hone]
    exact List.mem_singleton_self m
  have hchat : ∀ room', t.world.chatType room' = s.world.chatType room' := by
    intro room'
    simp only [Synapse.World.chatType, hrooms]
  refine ⟨phase, hT.moved hi hloc hev hlog (hT.linked.of_rooms_eq hrooms) ?_ ?_⟩
  · rw [hw]
    refine hT.sound.create rfl rfl fun id h => ?_
    obtain rfl : m.eventId = id := Option.some.inj h
    exact hT.sound.bound m (List.mem_filter.1 hmem).1
  refine ⟨?_, ?_, ?_, ?_, fun _ h => .inl h, ?_, ?_, ?_, fun _ _ h => .inl h⟩
  · exact ⟨hdel, m, by rw [hred]; simp, hset⟩
  · intro l r _ hl
    exact (hT.fits l r hl).mono hchat (fun id hid => by rw [hred, hid, Bool.or_true]) fun _ => id
  · intro r hr l
    rcases hnew r hr with rfl | ⟨job, rfl⟩
    · exact trivial
    · refine .inl ?_
      rw [hchat]
      exact hT.linked.discussion
  · intro post'
    have hrows : t.world.rows post' = s.world.rows post' := by simp only [World.rows, hstore]
    have hold : Holds C room s.world (ps.set i (.forget post) ++ new) post' (phase post') :=
      (hT.holds post').moved hi rfl
    by_cases hne : post' = post
    · subst hne
      cases hph : phase post' with
      | recorded m' =>
          rw [hph] at hold
          exact ⟨⟨(hmir _).trans hold.1.1, hrows.trans hold.1.2⟩, fun _ => ⟨i, moved_self hi⟩⟩
      | gone m' =>
          rw [hph] at hold
          exact ⟨⟨(hmir _).trans hold.1.1, hrows.trans hold.1.2⟩,
            by rw [hred, hold.2, Bool.or_true]⟩
      | _ =>
          rw [hph] at hset
          exact hset.elim
    · refine hold.world (hmir post') hrows fun m' hm' => ?_
      rw [hred, decide_eq_false (hT.sound.mirror_ne hmem hm' (Ne.symm hne)), Bool.false_or]
  · intro post' h
    exact h.resolve_right (by simp [Point.op, records])
  · intro post' h
    exact .inl (h.resolve_right (by simp [Point.willCheck]))
  · intro post' h
    rcases h with h | ⟨h, hr⟩ | h
    · exact .inl h
    · exact .inr (.inl ⟨h, .inr hr⟩)
    · exact .inr (.inr ⟨.forget post, List.mem_cons_self, h⟩)

/-- The row is deleted. -/
theorem tracked_forget (hp : p = .forget post) (hi : ps[i]? = some p)
    (hw : t.world = { s.world with store := (storeOp s.world.rooms s.world.store
      (.deleteMirror post)).1 })
    (hloc : System.Located At (ps.set i (p.next s.world) ++ []) t) :
    ∃ phase', Tracked C D owner t (ps.set i (p.next s.world) ++ []) phase' := by
  subst hp
  obtain ⟨hdel, m, hred, hset⟩ := hT.fits i _ hi
  have hone := hT.mirrors hset
  have hstore : t.world.store = s.world.store.filter fun row => row.post ≠ post := by
    rw [hw]
    rfl
  have hrest : t.world.rooms = s.world.rooms ∧ t.world.sent = s.world.sent := by
    rw [hw]
    exact ⟨rfl, rfl⟩
  have hnot : (∀ l, phase post ≠ .posting l) ∧ (∀ l m, phase post ≠ .sent l m) ∧
      phase post ≠ .fresh := by
    refine ⟨fun l h => ?_, fun l m h => ?_, fun h => ?_⟩ <;>
      · rw [h] at hset
        exact hset
  refine ⟨_, hT.moved hi hloc hev hlog (hT.linked.of_rooms_eq hrest.1) ?_
    (Turns.carried post (.gone m) hT hi ?_)⟩
  · obtain ⟨h1, h2, h3⟩ := hT.sound
    rw [hw]
    exact ⟨h1, h2, h3⟩
  exact
    { chat := fun room => by simp only [Synapse.World.chatType, hrest.1]
      redacted := fun id => by simp only [World.redacted, hrest.2]
      mirrors := fun p _ => by simp only [World.mirrors, hrest.2]
      rows := fun p hne => by
        simp only [World.rows, hstore, List.filter_filter]
        refine List.filter_congr fun row _ => ?_
        by_cases hrow : row.post = p
        · simp [hrow, hne]
        · simp [hrow]
      carries := by simp [Point.carries, eq_comm]
      self := trivial
      started := by simp
      holds := by
        refine ⟨⟨?_, ?_⟩, ?_⟩
        · simp only [World.mirrors, hrest.2]
          exact hone
        · simp [World.rows, hstore, List.filter_filter]
        · simp only [World.redacted, hrest.2]
          exact hred
      posting := fun l _ => hnot.1 l
      sent := fun l m _ => hnot.2.1 l m
      settled := by
        intro m' hm'
        have := hT.mirrors hm'
        rw [hone] at this
        exact List.singleton_inj.1 this
      fresh := by simp
      checked := .inl hnot.2.2
      unread := fun h => absurd h hnot.2.2
      records := by simp [Point.op, records]
      checks := by simp [Point.willCheck]
      forgets := by
        intro p' h
        exact ⟨(of_decide_eq_true h).symm, m, rfl⟩
      stays := fun _ _ => ⟨m, rfl⟩
      gone := fun _ _ => hdel }

end Steps

/-- **Every move of a thread keeps the invariant.** -/
theorem tracked_step (hT : Tracked C D owner s ps phase)
    (hok : Succeeds host s (.step i raises) = true) (hun : Uncrossed s (.step i raises) = true)
    (h : (system host).step s (.step i raises) = some t) :
    ∃ ps' phase', Tracked C D owner t ps' phase' := by
  obtain ⟨o, j, rest, p, hthread, hat, hi, hne, hsend, hw, hev, hentry, hloc⟩ :=
    step_located hT.located hok h
  have hlog : ∀ f, t.did f = (f p.op || s.did f) := by
    intro f
    simp only [State.did, hentry, List.any_cons]
  have hfit := hT.fits i p hi
  cases p with
  | callback room job =>
      exact ⟨_, _, tracked_callback hT hev hlog rfl hi hw (hloc [] .nil)⟩
  | start job =>
      refine ⟨_, _, tracked_start hT hev hlog rfl hi hw (hloc [.first job] (.cons ?_ .nil))⟩
      cases job with
      | mirrorPost e => exact rfl
      | mirrorRedact e post => exact rfl
      | _ => exact hfit.elim
  | check e =>
      obtain rfl : rest = mirrorPost e := hat
      refine ⟨_, tracked_check hT hev hlog rfl hi hw (hloc [] .nil) fun hnil => ?_⟩
      simp only [Uncrossed, hthread] at hun
      have : (!(s.world.rows e.eventId).isEmpty || !s.did (reads e.eventId)) = true := hun
      simpa [hnil] using this
  | link e => exact ⟨_, _, tracked_link hT hev hlog rfl hi hw (hloc [] .nil)⟩
  | send e room =>
      obtain ⟨-, rfl, -⟩ := hfit
      obtain ⟨room, hroom, hperf⟩ := perform_sendEvent (hsend _ rfl)
      obtain rfl : D = room := Json.str.inj hroom
      obtain ⟨new, hstarts, hshape⟩ := starts_sent host s.world (mirrorDict e (.str D)) D (.inl rfl)
      rw [Point.op, hperf] at hw
      refine ⟨_, tracked_send hT hev hlog rfl hi hw (hloc new ?_) hshape⟩
      rw [Point.op, hperf]
      exact hstarts
  | record post mirror room =>
      exact ⟨_, tracked_record hT hev hlog rfl hi hw (hloc [] .nil)⟩
  | findRedacted e post =>
      obtain rfl : rest = mirrorRedact e post := hat
      refine ⟨_, _, tracked_findRedacted hT hev hlog rfl hi hw (hloc [] .nil) fun hnil => ?_⟩
      simp only [Uncrossed, hthread] at hun
      have : (!(s.world.rows post).isEmpty || !s.did (checks post) || s.did (records post)) = true :=
        hun
      simpa [hnil] using this
  | sendRedaction e post mirror room =>
      obtain ⟨-, rfl, -⟩ := id hfit
      obtain ⟨room', hroom, hperf⟩ := perform_sendEvent (hsend _ rfl)
      obtain rfl : room = room' := Json.str.inj hroom
      obtain ⟨new, hstarts, hshape⟩ := starts_sent host s.world (redactionDict e mirror room) room
        (.inr rfl)
      rw [Point.op, hperf] at hw
      refine ⟨_, tracked_sendRedaction hT hev hlog rfl hi hw (hloc new ?_) hshape⟩
      rw [Point.op, hperf]
      exact hstarts
  | forget post => exact ⟨_, tracked_forget hT hev hlog rfl hi hw (hloc [] .nil)⟩
  | ended => exact absurd rfl hne
  | _ => exact hfit.elim

/-! ### Events -/

theorem jobOf_redaction (h : isRedaction C e = true) {job : Job} :
    jobOf e = some job ↔ ∃ post, e.redacts = some post ∧ post ≠ [] ∧ job = .mirrorRedact e post := by
  have ht := isRedaction_type h
  have h1 : e.type ≠ channelDiscussionState := by
    rw [ht]
    decide
  have h2 : e.type ≠ messageType := by
    rw [ht]
    decide
  have h3 : isRootPost e.type e.content = false := by
    simp only [isRootPost, Bool.and_eq_false_iff, decide_eq_false_iff_not]
    exact .inl h2
  simp only [jobOf, h1, h2, h3, if_false, Bool.false_eq_true]
  cases e.redacts with
  | none => simp
  | some post =>
      by_cases hp : post = []
      · simp [hp]
      · simp [hp, eq_comm]

theorem posted_append (es : List Ev) (e : Event) (post : EventId) :
    posted C (es ++ [Ev.newEvent e]) post =
      (posted C es post || (isPost C e && decide (e.eventId = post))) := by
  simp [posted]

theorem deleted_append (es : List Ev) (e : Event) (post : EventId) :
    deleted C (es ++ [Ev.newEvent e]) post =
      (deleted C es post || (isRedaction C e && decide (e.redacts = some post))) := by
  simp [deleted]

/-- **A post or a redaction keeps the invariant.** -/
theorem tracked_event (hT : Tracked C D owner s ps phase)
    (htr : Traffic C (.event (.newEvent e)) = true)
    (h : (system host).step s (.event (.newEvent e)) = some t) :
    ∃ ps', Tracked C D owner t ps' phase := by
  simp only [Traffic, Bool.and_eq_true, Bool.or_eq_true, decide_eq_true_eq] at htr
  obtain ⟨hkind, hid⟩ := htr
  have htype : e.type = messageType ∨ e.type = redactionType :=
    hkind.imp isPost_type isRedaction_type
  have hroom : e.roomId = C := by
    rcases hkind with hk | hk <;> simp only [isPost, isRedaction, Bool.and_eq_true,
      decide_eq_true_eq] at hk <;> exact hk.2
  obtain ⟨q, hq, hshape⟩ := onNewEvent_at host (e := e) (by
    rcases htype with ht | ht <;> simp [followed, ht])
  have hloc : System.Located At (ps ++ [q]) t := hT.located.event rfl h (.cons hq .nil)
  have ht := Option.some.inj h
  have hev : t.events = s.events ++ [Ev.newEvent e] := by rw [← ht]
  have hlog : t.log = s.log := by rw [← ht]
  have hworld : t.world.rooms = s.world.rooms.persist e ∧ t.world.store = s.world.store ∧
      t.world.sent = s.world.sent ∧ t.world.count = s.world.count := by
    rw [← ht]
    exact ⟨rfl, rfl, rfl, rfl⟩
  obtain ⟨hrooms, hstore, hsent, hcount⟩ := hworld
  have hdel : ∀ post, deleted C s.events post = true → deleted C t.events post = true := by
    intro post hd
    rw [hev, deleted_append, hd, Bool.true_or]
  have hchat : ∀ room, t.world.chatType room = s.world.chatType room := by
    intro room
    simp only [Synapse.World.chatType, hrooms]
    rw [Rooms.persist_state_of_ne]
    rintro ⟨-, hc, -⟩
    rcases htype with ht | ht <;> rw [ht] at hc <;> exact absurd hc (by decide)
  have hmir : ∀ post, t.world.mirrors C D post = s.world.mirrors C D post := by
    intro post
    simp only [World.mirrors, hsent]
  have hred : ∀ id, t.world.redacted id = s.world.redacted id := by
    intro id
    simp only [World.redacted, hsent]
  have hold : ∀ (l : ℕ) (r : Point), ps[l]? = some r → (ps ++ [q])[l]? = some r := by
    intro l r hl
    rw [List.getElem?_append_left (List.getElem?_eq_some_iff.1 hl).1, hl]
  refine ⟨ps ++ [q], hloc, ?_, ?_, ?_, ?_, ?_, ?_, ?_, ?_, ?_, ?_⟩
  · refine hT.linked.persist hrooms ?_ ?_ <;>
      rcases htype with ht | ht <;> rw [ht] <;> decide
  · obtain ⟨h1, h2, h3⟩ := hT.sound
    exact ⟨by rw [hsent]; exact h1, by rw [hsent, hcount]; exact h2, by rw [hsent, hcount]; exact h3⟩
  · intro post hp
    rw [hev, posted_append, Bool.or_eq_true] at hp
    rcases hp with hp | hp
    · exact hT.named post hp
    · simp only [Bool.and_eq_true, decide_eq_true_eq] at hp
      rw [← hp.2]
      exact hid
  · intro l r hl
    rw [List.getElem?_append] at hl
    split at hl
    · exact (hT.fits l r hl).mono hchat (fun id hi => (hred id).trans hi) hdel
    · obtain rfl := List.mem_singleton.1 (List.mem_of_getElem? hl)
      rcases hshape with rfl | ⟨rfl, -⟩
      · refine .inr fun j hj => ?_
        rcases hkind with hk | hk
        · rw [jobOf_post hk] at hj
          obtain rfl := Option.some.inj hj
          exact hk
        · obtain ⟨post, hr, -, rfl⟩ := (jobOf_redaction hk).1 hj
          show deleted C t.events post = true
          rw [hev, deleted_append, hk, hr]
          simp
      · exact trivial
  · intro post
    refine Holds.world (w := s.world) ?_ (hmir post) (by simp only [World.rows, hstore])
      fun m _ => hred m.eventId
    have hh := hT.holds post
    cases hph : phase post with
    | fresh =>
        rw [hph] at hh
        exact hh
    | posting l =>
        rw [hph] at hh
        obtain ⟨hw, e', he', hl⟩ := hh
        exact ⟨hw, e', he', hl.imp (hold l _) (Exists.imp fun room hr => hold l _ hr)⟩
    | sent l m =>
        rw [hph] at hh
        obtain ⟨hw, hn, room, hl⟩ := hh
        exact ⟨hw, hn, room, hold l _ hl⟩
    | recorded m =>
        rw [hph] at hh
        refine ⟨hh.1, fun hm => ?_⟩
        obtain ⟨l, hl⟩ := hh.2 hm
        exact ⟨l, hold l _ hl⟩
    | gone m =>
        rw [hph] at hh
        exact hh
  · intro post hne
    simp only [State.did, hlog]
    exact hT.checked post hne
  · intro post hrec
    simp only [State.did, hlog] at hrec
    exact hT.settled post hrec
  · intro post hp
    rw [hev, posted_append, Bool.or_eq_true] at hp
    rcases hp with hp | hp
    · rcases hT.posts post hp with h | ⟨r, hr, hwill⟩
      · exact .inl h
      · exact .inr ⟨r, List.mem_append_left _ hr, hwill⟩
    · simp only [Bool.and_eq_true, decide_eq_true_eq] at hp
      refine .inr ⟨q, by simp, ?_⟩
      rcases hshape with rfl | ⟨-, hnone⟩
      · rw [jobOf_post hp.1]
        simp [Point.willCheck, hroom, hp.2]
      · rw [jobOf_post hp.1] at hnone
        cases hnone
  · intro post hd hne
    rw [hev, deleted_append, Bool.or_eq_true] at hd
    rcases hd with hd | hd
    · rcases hT.redactions post hd hne with h | h | ⟨r, hr, hwill⟩
      · exact .inl h
      · exact .inr (.inl ⟨h.1, by simpa only [State.did, hlog] using h.2⟩)
      · exact .inr (.inr ⟨r, List.mem_append_left _ hr, hwill⟩)
    · simp only [Bool.and_eq_true, decide_eq_true_eq] at hd
      have hj : jobOf e = some (.mirrorRedact e post) :=
        (jobOf_redaction hd.1).2 ⟨post, hd.2, hne, rfl⟩
      refine .inr (.inr ⟨q, by simp, ?_⟩)
      rcases hshape with rfl | ⟨-, hnone⟩
      · rw [hj]
        simp [Point.willForget, hroom]
      · rw [hj] at hnone
        cases hnone
  · intro post m hph
    exact hdel post (hT.gone post m hph)

/-! ### Runs -/

/-- The moves of a run: posts and redactions arrive, nothing fails, and the jobs of one
post do not cross. -/
def Orderly (host : PyStr) (C : RoomId) (s : State) (a : Act) : Bool :=
  Traffic C a && Succeeds host s a && Uncrossed s a

/-- The homeserver before the first post. -/
theorem tracked_start_world (hw : Linked C D owner w) (hstore : w.store = []) (hsent : w.sent = []) :
    Tracked C D owner (Synapse.start w) [] fun _ => .fresh where
  located := .nil
  linked := hw
  sound := by
    refine ⟨?_, ?_, ?_⟩ <;> simp [Synapse.start, hsent]
  named := by simp [Synapse.start, posted]
  fits := by simp
  holds := by
    intro post
    simp [Holds, World.mirrors, World.rows, Synapse.start, hsent, hstore]
  checked := by simp
  settled := by simp [State.did, Synapse.start]
  posts := by simp [Synapse.start, posted]
  redactions := by simp [Synapse.start, deleted]
  gone := by simp

/-- **Every post has exactly its mirror, and no deleted post keeps one**, once all jobs
have ended. -/
theorem posts_mirrored {as : List Act} (hw : Linked C D owner w) (hstore : w.store = [])
    (hsent : w.sent = [])
    (h : Exec (system host).step (fun s a => Orderly host C s a = true) (Synapse.start w) as s)
    (hidle : System.Idle s) : Mirroring C D s := by
  obtain ⟨ps, phase, hT⟩ : ∃ ps phase, Tracked C D owner s ps phase := by
    refine h.invariant (I := fun s => ∃ ps phase, Tracked C D owner s ps phase)
      ⟨[], _, tracked_start_world hw hstore hsent⟩ ?_
    rintro s a t ⟨ps, phase, hT⟩ hc hstep
    simp only [Orderly, Bool.and_eq_true] at hc
    cases a with
    | step i raises => exact tracked_step hT hc.1.2 hc.2 hstep
    | event ev =>
        cases ev with
        | newEvent e =>
            obtain ⟨ps', hT'⟩ := tracked_event hT hc.1.1 hstep
            exact ⟨ps', phase, hT'⟩
        | _ => cases hc.1.1
  have hended : ∀ p ∈ ps, p = .ended := by
    intro p hp
    obtain ⟨t, ht, hat⟩ := hT.located.idle hidle hp
    exact hat.eq_ended ht
  have hat : ∀ (l : ℕ) (p : Point), ps[l]? = some p → p = .ended := fun l p hl =>
    hended p (List.mem_of_getElem? hl)
  intro post hposted
  have hne : phase post ≠ .fresh := by
    rcases hT.posts post hposted with h | ⟨p, hp, hwill⟩
    · exact h
    · rw [hended p hp] at hwill
      cases hwill
  have hhold := hT.holds post
  cases hph : phase post with
  | fresh => exact absurd hph hne
  | posting l =>
      rw [hph] at hhold
      obtain ⟨-, e, -, hl | ⟨room, hl⟩⟩ := hhold
      · cases hat l _ hl
      · cases hat l _ hl
  | sent l m =>
      rw [hph] at hhold
      obtain ⟨-, -, room, hl⟩ := hhold
      cases hat l _ hl
  | recorded m =>
      rw [hph] at hhold
      obtain ⟨⟨hm, hr⟩, hforget⟩ := hhold
      have hlive : s.world.redacted m.eventId = false := by
        cases hred : s.world.redacted m.eventId with
        | false => rfl
        | true =>
            obtain ⟨l, hl⟩ := hforget hred
            cases hat l _ hl
      have hdel : deleted C s.events post = false := by
        cases hd : deleted C s.events post with
        | false => rfl
        | true =>
            rcases hT.redactions post hd (hT.named post hposted) with ⟨m', h⟩ | ⟨h, -⟩ | ⟨p, hp, h⟩
            · rw [hph] at h
              cases h
            · exact absurd h hne
            · rw [hended p hp] at h
              cases h
      rw [hdel]
      simp [World.mirrored, World.liveMirrors, hm, hr, hlive]
  | gone m =>
      rw [hph] at hhold
      obtain ⟨⟨hm, hr⟩, hred⟩ := hhold
      rw [hT.gone post m hph]
      simp [World.unmirrored, World.liveMirrors, hm, hr, hred]

/-- The post arrives. -/
def newPost : Act := .event (.newEvent firstPost)

/-- The author deletes it. -/
def deletion : Act :=
  .event (.newEvent ⟨"$redaction", redactionType, "!c", "@ann:h", none, [], some "$post"⟩)

/-- The redaction looks for the mirror before it is recorded. -/
def lookedTooEarly : List Act :=
  newPost :: deletion :: [0, 0, 1, 1, 3, 2, 2, 2, 2, 4].map fun i => .step i false

/-- The post is delivered twice, and both jobs find no row. -/
def deliveredTwice : List Act :=
  newPost :: newPost :: [0, 0, 1, 1, 2, 3, 2, 2, 2, 4, 3, 3, 3, 5].map fun i => .step i false

/-- **A deleted post keeps a live mirror.**  Every send succeeds, and all jobs have ended. -/
theorem deleted_post_keeps_mirror :
    Linked "!c" "!d" "@ann:h" newsWorld ∧
    ∃ s, Exec (system "h").step (fun s a => (Traffic "!c" a && Succeeds "h" s a) = true)
        (Synapse.start newsWorld) lookedTooEarly s ∧ System.Idle s ∧ ¬Mirroring "!c" "!d" s ∧
      (s.world.liveMirrors "!c" "!d" "$post").length = 1 ∧ (s.world.rows "$post").length = 1 := by
  refine ⟨newsWorld_linked, ?_⟩
  obtain ⟨s, hs, hidle, hposted, hdeleted, hlive, hrows⟩ := exists_exec_of_runs
    (f := (system "h").step) (C := fun s a => (Traffic "!c" a && Succeeds "h" s a) = true)
    (s := Synapse.start newsWorld) (l := lookedTooEarly)
    (p := fun s => System.Idle s ∧ posted "!c" s.events "$post" = true ∧
      deleted "!c" s.events "$post" = true ∧
      (s.world.liveMirrors "!c" "!d" "$post").length = 1 ∧ (s.world.rows "$post").length = 1)
    (by decide +kernel)
  refine ⟨s, hs, hidle, fun hm => ?_, hlive, hrows⟩
  have hun := hm "$post" hposted
  rw [hdeleted] at hun
  simp only [if_true, World.unmirrored, Bool.and_eq_true, List.isEmpty_iff] at hun
  rw [hun.1] at hlive
  cases hlive

/-- A post that is delivered twice has two mirrors, if both jobs find no row. -/
example : ∃ s, Exec (system "h").step (fun s a => (Traffic "!c" a && Succeeds "h" s a) = true)
    (Synapse.start newsWorld) deliveredTwice s ∧ System.Idle s ∧
      (s.world.liveMirrors "!c" "!d" "$post").length = 2 :=
  exists_exec_of_runs (f := (system "h").step)
    (C := fun s a => (Traffic "!c" a && Succeeds "h" s a) = true)
    (s := Synapse.start newsWorld) (l := deliveredTwice) (by decide +kernel)

/-- The post is mirrored, delivered once more, and then deleted. -/
def oneAfterTheOther : List Act :=
  newPost :: ([0, 0, 1, 1, 1, 1, 2].map fun i => .step i false) ++
  newPost :: ([3, 3, 4].map fun i => .step i false) ++
  deletion :: [5, 5, 6, 6, 6, 7].map fun i => .step i false

theorem oneAfterTheOther_mirrored :
    ∃ s, Exec (system "h").step (fun s a => Orderly "h" "!c" s a = true)
        (Synapse.start newsWorld) oneAfterTheOther s ∧ System.Idle s ∧
      (s.world.mirrors "!c" "!d" "$post").length = 1 ∧ Mirroring "!c" "!d" s := by
  obtain ⟨s, hs, hidle, hone⟩ := exists_exec_of_runs (f := (system "h").step)
    (C := fun s a => Orderly "h" "!c" s a = true) (s := Synapse.start newsWorld)
    (l := oneAfterTheOther)
    (p := fun s => System.Idle s ∧ (s.world.mirrors "!c" "!d" "$post").length = 1)
    (by decide +kernel)
  exact ⟨s, hs, hidle, hone, posts_mirrored newsWorld_linked rfl rfl hs hidle⟩

end ChannelSync
end Liza
