/-
# What the mirror of an edited post shows

Matrix replaces the content of an event by the `m.new_content` of the latest `m.replace`
event of the same sender; a replacement without `m.new_content` is no replacement.
`_mirror_edit` sends the `m.new_content` of an edit as the content itself, next to the
relation, so the edit of the mirror has no `m.new_content` of its own.  Whatever the order
of the jobs, the mirror shows what the post was first sent with.
-/

import Liza.ChannelSync.Mirrors

set_option autoImplicit false

namespace Liza
namespace ChannelSync

open Lib Synapse

/-! ### Replacements -/

/-- The key `m.new_content`. -/
def newContentKey : PyStr := "m.new_content"

/-- The value of `m.new_content`, where it is an object. -/
def newContent (content : Dict) : Option Dict :=
  match content.get newContentKey with
  | .obj d => some d
  | _ => none

/-- The event that a content replaces. -/
def replacedBy (content : Dict) : Option Json :=
  match content.get relates with
  | .obj rel => if Dict.get rel "rel_type" = .str "m.replace" then some (Dict.get rel "event_id") else none
  | _ => none

/-- Matrix's rules for a replacement of an event: the same room, type and sender, and new
content. -/
def replaces (target e : Event) : Bool :=
  e.roomId = target.roomId && e.type = target.type && e.sender = target.sender &&
    replacedBy e.content = some (.str target.eventId) && (newContent e.content).isSome

/-- What an event shows among the given ones, latest first. -/
def shown (events : List Event) (target : Event) : Dict :=
  match events.find? (replaces target) with
  | some e => (newContent e.content).getD []
  | none => target.content

/-- The same content, up to the reference to the post. -/
def SameBut (a b : Dict) : Prop := ∀ k, k ≠ postRefKey → Dict.get? a k = Dict.get? b k

/-- The mirror of a post: the event that its row names. -/
def World.mirrorOf (w : World) (post : EventId) : Option Event :=
  (w.rowOf (.str post)).bind fun row => w.sent.find? fun e => e.eventId = row.mirror

/-- The mirror of a post shows what the post shows. -/
def ShowsPost (s : State) (e : Event) : Prop :=
  ∃ m, s.world.mirrorOf e.eventId = some m ∧
    SameBut (shown s.world.sent m) (shown (arrivals s.events) e)

/-- The new content of an edit brings no new content of its own. -/
def plain (e : Event) : Bool :=
  match dictOf (e.content.get newContentKey) with
  | some new => (newContent new).isNone
  | none => true

/-- Posts and edits of the channel arrive, and each post once; an edit is a plain one. -/
def Editing (C : RoomId) (s : State) : Act → Bool
  | .event (.newEvent e) => e.roomId = C && e.type = messageType &&
      if isRootPost e.type e.content then !posted C s.events e.eventId else plain e
  | .event _ => false
  | .step _ _ => true

/-! ### What the module sends -/

variable {C D : RoomId} {w w' : World} {e m : Event} {es : List Ev}

theorem newContent_of_get? {a b : Dict} (h : Dict.get? a newContentKey = Dict.get? b newContentKey) :
    newContent a = newContent b := by
  simp only [newContent, Dict.get, h]

/-- The edit of a mirror has the new content that it brings, and no other. -/
theorem newContent_editContent (new : Dict) (mirror : EventId) :
    newContent (editContent new mirror) = newContent new := by
  refine newContent_of_get? ?_
  rw [editContent, Dict.get?_set_of_ne _ _ (show newContentKey ≠ relates by decide)]

/-- The mirror of a root post replaces nothing. -/
theorem replacedBy_buildMirrorContent {content : Dict} (h : content.contains relates = false)
    (C : RoomId) (post : EventId) : replacedBy (buildMirrorContent content C post) = none := by
  have hget : Dict.get? (buildMirrorContent content C post) relates = none := by
    rw [buildMirrorContent, Dict.get?_set_of_ne _ _ (show relates ≠ postRefKey by decide)]
    simpa [Dict.contains] using h
  simp [replacedBy, Dict.get, hget]

/-- The content of a mirror is that of its post, up to the reference. -/
theorem sameBut_buildMirrorContent (content x : Dict) (C : RoomId) (post : EventId) :
    SameBut (buildMirrorContent content C post) x ↔ SameBut content x := by
  refine forall_congr' fun k => forall_congr' fun hk => ?_
  rw [buildMirrorContent, Dict.get?_set_of_ne _ _ hk]

/-- An event that replaces none. -/
def Inert (e : Event) : Prop := replacedBy e.content = none ∨ newContent e.content = none

/-- Among events that replace none, an event shows its own content. -/
theorem shown_of_inert {events : List Event} (h : ∀ e ∈ events, Inert e) (target : Event) :
    shown events target = target.content := by
  have hnone : events.find? (replaces target) = none := by
    refine List.find?_eq_none.2 fun e he hr => ?_
    simp only [replaces, Bool.and_eq_true, decide_eq_true_eq] at hr
    rcases h e he with hn | hn
    · rw [hn] at hr
      cases hr.1.2
    · rw [hn] at hr
      cases hr.2
  rw [shown, hnone]

/-! ### The invariant -/

/-- A post of the channel that has arrived. -/
def Arrived (C : RoomId) (es : List Ev) (e : Event) : Prop := .newEvent e ∈ es ∧ isPost C e = true

/-- The module has sent an event with the given id, and it is a mirror of the post. -/
def Copied (C D : RoomId) (w : World) (es : List Ev) (post mirror : EventId) : Prop :=
  ∃ e m, Arrived C es e ∧ e.eventId = post ∧ m ∈ w.sent ∧ m.eventId = mirror ∧ m.roomId = D ∧
    m.content = buildMirrorContent e.content C e.eventId

/-- The jobs that posts and edits lead to. -/
def EditJob (C : RoomId) (es : List Ev) : Job → Prop
  | .mirrorPost e => Arrived C es e
  | .mirrorEdit e _ => plain e = true
  | _ => False

/-- The points at which they stand. -/
def EditFits (C D : RoomId) (w : World) (es : List Ev) : Point → Prop
  | .callback room job =>
      w.chatType room ≠ .str channelTypeName ∨ ∀ j, job = some j → EditJob C es j
  | .start job => EditJob C es job
  | .check e => Arrived C es e
  | .link e => Arrived C es e
  | .send e room => Arrived C es e ∧ room = .str D
  | .record post mirror room => room = .str D ∧ Copied C D w es post mirror
  | .findEdited e _ => plain e = true
  | .sendEdit d => d.type = messageType ∧ d.stateKey = none ∧ d.redacts = none ∧
      newContent d.content = none ∧ d.room = .str D
  | .ended => True
  | _ => False

/-- The thread is on its way to record the mirror of the post. -/
def Point.willRecord (C : RoomId) (post : EventId) : Point → Bool
  | .callback room (some (.mirrorPost e)) => room = C && e.eventId = post
  | .start (.mirrorPost e) => e.eventId = post
  | .check e => e.eventId = post
  | .link e => e.eventId = post
  | .send e _ => e.eventId = post
  | .record p _ _ => p = post
  | _ => false

/-- **The invariant**: what was sent replaces nothing, and every row names a mirror. -/
structure Edited (C D : RoomId) (owner : UserId) (s : State) (ps : List Point) : Prop where
  located : System.Located At ps s
  linked : Linked C D owner s.world
  sound : Sound s.world
  unique : ∀ e e', Arrived C s.events e → Arrived C s.events e' → e.eventId = e'.eventId → e = e'
  fits : ∀ p ∈ ps, EditFits C D s.world s.events p
  inert : ∀ e ∈ s.world.sent, Inert e
  rows : ∀ row ∈ s.world.store, row.room = D ∧ Copied C D s.world s.events row.post row.mirror
  posts : ∀ e, Arrived C s.events e → (∃ row ∈ s.world.store, row.post = e.eventId) ∨
    ∃ p ∈ ps, p.willRecord C e.eventId = true

variable {host : PyStr} {owner : UserId} {s t : State} {ps new : List Point} {i : ℕ}
  {p q r : Point} {raises : Bool} {post mirror : EventId}

theorem Arrived.roomId (h : Arrived C es e) : e.roomId = C := by
  have := h.2
  simp only [isPost, Bool.and_eq_true, decide_eq_true_eq] at this
  exact this.2

theorem Arrived.not_related (h : Arrived C es e) : e.content.contains relates = false := by
  have := h.2
  simp only [isPost, isRootPost, Bool.and_eq_true, Bool.not_eq_true'] at this
  exact this.1.2

theorem Copied.mono {es' : List Ev} (h : Copied C D w es post mirror) (hsent : w.sent ⊆ w'.sent)
    (hes : es ⊆ es') : Copied C D w' es' post mirror := by
  obtain ⟨e, m, ⟨he, hpost⟩, hid, hm, hrest⟩ := h
  exact ⟨e, m, ⟨hes he, hpost⟩, hid, hsent hm, hrest⟩

theorem EditJob.mono {es' : List Ev} {job : Job} (h : EditJob C es job) (hes : es ⊆ es') :
    EditJob C es' job := by
  cases job with
  | mirrorPost e => exact ⟨hes h.1, h.2⟩
  | mirrorEdit e target => exact h
  | _ => exact h.elim

/-- A point goes on to fit. -/
theorem EditFits.mono {es' : List Ev} (h : EditFits C D w es r)
    (hchat : ∀ room, w'.chatType room = w.chatType room) (hsent : w.sent ⊆ w'.sent)
    (hes : es ⊆ es') : EditFits C D w' es' r := by
  cases r with
  | callback room job =>
      rcases h with h | h
      · exact .inl (by rw [hchat]; exact h)
      · exact .inr fun j hj => (h j hj).mono hes
  | start job => exact EditJob.mono h hes
  | check e => exact ⟨hes h.1, h.2⟩
  | link e => exact ⟨hes h.1, h.2⟩
  | send e room => exact ⟨⟨hes h.1.1, h.1.2⟩, h.2⟩
  | record post mirror room => exact ⟨h.1, h.2.mono hsent hes⟩
  | _ => exact h

/-- The move of one thread keeps the invariant. -/
theorem Edited.moved (hE : Edited C D owner s ps) (hi : ps[i]? = some p)
    (hloc : System.Located At (ps.set i q ++ new) t) (hev : t.events = s.events)
    (hrooms : t.world.rooms = s.world.rooms) (hsound : Sound t.world)
    (hsent : s.world.sent ⊆ t.world.sent) (hinert : ∀ e ∈ t.world.sent, Inert e)
    (hstore : s.world.store ⊆ t.world.store)
    (hrows : ∀ row ∈ t.world.store, row ∉ s.world.store →
      row.room = D ∧ Copied C D t.world s.events row.post row.mirror)
    (hfits : ∀ r ∈ q :: new, EditFits C D t.world s.events r)
    (hposts : ∀ post, p.willRecord C post = true → (∃ row ∈ t.world.store, row.post = post) ∨
      ∃ r ∈ q :: new, r.willRecord C post = true) :
    Edited C D owner t (ps.set i q ++ new) where
  located := hloc
  linked := hE.linked.of_rooms_eq hrooms
  sound := hsound
  unique := by
    rw [hev]
    exact hE.unique
  fits := by
    intro r hr
    rw [hev]
    obtain ⟨l, hl⟩ := List.mem_iff_getElem?.1 hr
    rcases getElem?_moved hl with ⟨-, rfl⟩ | ⟨-, hl⟩ | hr
    · exact hfits _ List.mem_cons_self
    · refine (hE.fits r (List.mem_of_getElem? hl)).mono (fun room => ?_) hsent fun _ => id
      simp only [Synapse.World.chatType, hrooms]
    · exact hfits r (List.mem_cons_of_mem _ hr)
  inert := hinert
  rows := by
    intro row hrow
    rw [hev]
    by_cases hold : row ∈ s.world.store
    · exact ⟨(hE.rows row hold).1, (hE.rows row hold).2.mono hsent fun _ => id⟩
    · exact hrows row hrow hold
  posts := by
    intro e he
    rw [hev] at he
    have hmem : ∀ r ∈ q :: new, r ∈ ps.set i q ++ new := by
      intro r hr
      rcases List.mem_cons.1 hr with rfl | hr
      · exact List.mem_of_getElem? (moved_self hi)
      · exact List.mem_append_right _ hr
    rcases hE.posts e he with ⟨row, hrow, hpost⟩ | ⟨r, hr, hwill⟩
    · exact .inl ⟨row, hstore hrow, hpost⟩
    · rcases mem_moved q new hi hr with rfl | hr
      · rcases hposts _ hwill with h | ⟨r, hr, hwill⟩
        · exact .inl h
        · exact .inr ⟨r, hmem r hr, hwill⟩
      · exact .inr ⟨r, hr, hwill⟩

/-- A move that leaves the world as it is. -/
theorem Edited.still (hE : Edited C D owner s ps) (hi : ps[i]? = some p)
    (hloc : System.Located At (ps.set i q ++ new) t) (hev : t.events = s.events)
    (hw : t.world = s.world) (hfits : ∀ r ∈ q :: new, EditFits C D s.world s.events r)
    (hposts : ∀ post, p.willRecord C post = true → (∃ row ∈ s.world.store, row.post = post) ∨
      ∃ r ∈ q :: new, r.willRecord C post = true) :
    Edited C D owner t (ps.set i q ++ new) := by
  refine hE.moved hi hloc hev (by rw [hw]) (by rw [hw]; exact hE.sound) ?_ ?_ ?_ ?_ ?_ ?_
  · rw [hw]
    exact fun _ => id
  · rw [hw]
    exact hE.inert
  · rw [hw]
    exact fun _ => id
  · rw [hw]
    exact fun row hrow hnot => absurd hrow hnot
  · rw [hw]
    exact hfits
  · rw [hw]
    exact hposts

/-- A message is sent into the discussion room. -/
theorem Edited.sent (hE : Edited C D owner s ps) (hi : ps[i]? = some p)
    (hloc : System.Located At (ps.set i q ++ new) t) (hev : t.events = s.events) {d : EventDict}
    (hw : t.world = s.world.create (sentEvent s.world d D)) (hk : d.stateKey = none)
    (hr : d.redacts = none) (hinert : Inert (sentEvent s.world d D))
    (hnew : ∀ r ∈ new, r = .ended ∨ ∃ job, r = .callback D job)
    (hself : EditFits C D t.world s.events q)
    (hposts : ∀ post, p.willRecord C post = true → q.willRecord C post = true) :
    Edited C D owner t (ps.set i q ++ new) := by
  obtain ⟨hrooms, hstore, hsent, -⟩ :=
    create_message (w := s.world) (e := sentEvent s.world d D) hk
  rw [← hw] at hrooms hstore hsent
  refine hE.moved hi hloc hev hrooms ?_ ?_ ?_ ?_ ?_ ?_ ?_
  · rw [hw]
    refine hE.sound.create hk rfl fun id h => ?_
    rw [show (sentEvent s.world d D).redacts = none from hr] at h
    cases h
  · rw [hsent]
    exact List.subset_cons_self _ _
  · intro e he
    rw [hsent] at he
    rcases List.mem_cons.1 he with rfl | he
    · exact hinert
    · exact hE.inert e he
  · rw [hstore]
    exact fun _ => id
  · rw [hstore]
    exact fun row hrow hnot => absurd hrow hnot
  · intro r hr
    rcases List.mem_cons.1 hr with rfl | hr
    · exact hself
    · rcases hnew r hr with rfl | ⟨job, rfl⟩
      · exact trivial
      · refine .inl ?_
        simp only [Synapse.World.chatType, hrooms]
        exact hE.linked.discussion
  · intro post hwill
    exact .inr ⟨q, List.mem_cons_self, hposts post hwill⟩

/-- **Every move of a thread keeps the invariant.** -/
theorem edited_step (hE : Edited C D owner s ps) (hok : Succeeds host s (.step i raises) = true)
    (h : (system host).step s (.step i raises) = some t) : ∃ ps', Edited C D owner t ps' := by
  obtain ⟨o, j, rest, p, hthread, hat, hi, hne, hsend, hw, hev, hentry, hloc⟩ :=
    step_located hE.located hok h
  have hfit := hE.fits p (List.mem_of_getElem? hi)
  cases p with
  | callback room job =>
      refine ⟨_, hE.still hi (hloc [] .nil) hev hw ?_ ?_⟩
      · intro r hr
        obtain rfl := List.mem_singleton.1 hr
        cases job with
        | none => exact trivial
        | some j =>
            simp only [Point.next]
            split
            · rename_i hchat
              exact hfit.resolve_left (not_not_intro hchat) j rfl
            · exact trivial
      · intro post hwill
        cases job with
        | none => cases hwill
        | some j =>
            cases j with
            | mirrorPost e =>
                simp only [Point.willRecord, Bool.and_eq_true, decide_eq_true_eq] at hwill
                refine .inr ⟨.start (.mirrorPost e), ?_, decide_eq_true hwill.2⟩
                simp only [Point.next, hwill.1, hE.linked.channel, if_true, List.mem_singleton]
            | _ => cases hwill
  | start job =>
      cases job with
      | mirrorPost e =>
          refine ⟨_, hE.still hi (hloc [.check e] (.cons rfl .nil)) hev hw ?_ ?_⟩
          · intro r hr
            rcases List.mem_cons.1 hr with rfl | hr
            · exact trivial
            · obtain rfl := List.mem_singleton.1 hr
              exact hfit
          · intro post hwill
            exact .inr ⟨.check e, by simp, hwill⟩
      | mirrorEdit e target =>
          refine ⟨_, hE.still hi (hloc [.findEdited e target] (.cons rfl .nil)) hev hw ?_
            (by simp [Point.willRecord])⟩
          intro r hr
          rcases List.mem_cons.1 hr with rfl | hr
          · exact trivial
          · obtain rfl := List.mem_singleton.1 hr
            exact hfit
      | _ => exact hfit.elim
  | check e =>
      refine ⟨_, hE.still hi (hloc [] .nil) hev hw ?_ ?_⟩
      · intro r hr
        obtain rfl := List.mem_singleton.1 hr
        simp only [Point.next]
        split
        · exact trivial
        · exact hfit
      · intro post hwill
        obtain rfl : e.eventId = post := of_decide_eq_true hwill
        cases hany : s.world.store.any fun row => row.post = e.eventId with
        | true =>
            obtain ⟨row, hrow, hpost⟩ := List.any_eq_true.1 hany
            exact .inl ⟨row, hrow, of_decide_eq_true hpost⟩
        | false =>
            refine .inr ⟨.link e, ?_, hwill⟩
            simp only [Point.next, hany, Bool.false_eq_true, if_false, List.mem_singleton]
  | link e =>
      have hnext : Point.next s.world (.link e) = .send e (.str D) := by
        simp only [Point.next, Arrived.roomId hfit, hE.linked.link]
        rfl
      have hloc := hloc [] .nil
      rw [hnext] at hloc
      refine ⟨_, hE.still hi hloc hev hw ?_ fun post hwill => .inr ⟨_, List.mem_cons_self, hwill⟩⟩
      intro r hr
      obtain rfl := List.mem_singleton.1 hr
      exact ⟨hfit, rfl⟩
  | send e room =>
      obtain ⟨harr, rfl⟩ := hfit
      obtain ⟨room, hroom, hperf⟩ := perform_sendEvent (hsend _ rfl)
      obtain rfl : D = room := Json.str.inj hroom
      obtain ⟨new, hstarts, hshape⟩ := starts_sent host s.world (mirrorDict e (.str D)) D (.inl rfl)
      rw [Point.op, hperf] at hw hloc
      refine ⟨_, hE.sent hi (hloc new hstarts) hev hw rfl rfl
        (.inl (replacedBy_buildMirrorContent harr.not_related _ _)) hshape ⟨rfl, e,
          sentEvent s.world (mirrorDict e (.str D)) D, harr, rfl, ?_, rfl, rfl, ?_⟩ fun _ => id⟩
      · rw [hw, (create_message rfl).2.2.1]
        exact List.mem_cons_self
      · show buildMirrorContent e.content e.roomId e.eventId = _
        rw [harr.roomId]
  | record post mirror room =>
      obtain ⟨rfl, hcopied⟩ := hfit
      have hstore : t.world.store = if s.world.store.any fun row => row.post = post
          then s.world.store else s.world.store ++ [⟨post, mirror, D⟩] := by
        rw [hw]
        rfl
      have hsame : t.world.rooms = s.world.rooms ∧ t.world.sent = s.world.sent := by
        rw [hw]
        exact ⟨rfl, rfl⟩
      refine ⟨_, hE.moved hi (hloc [] .nil) hev hsame.1 ?_ ?_ ?_ ?_ ?_ ?_ ?_⟩
      · obtain ⟨h1, h2, h3⟩ := hE.sound
        rw [hw]
        exact ⟨h1, h2, h3⟩
      · rw [hsame.2]
        exact fun _ => id
      · rw [hsame.2]
        exact hE.inert
      · rw [hstore]
        split
        · exact fun _ => id
        · exact List.subset_append_left _ _
      · intro row hrow hnot
        rw [hstore] at hrow
        split at hrow
        · exact absurd hrow hnot
        · rcases List.mem_append.1 hrow with hrow | hrow
          · exact absurd hrow hnot
          · obtain rfl := List.mem_singleton.1 hrow
            exact ⟨rfl, hcopied.mono (by rw [hsame.2]; exact fun _ => id) fun _ => id⟩
      · intro r hr
        obtain rfl := List.mem_singleton.1 hr
        exact trivial
      · intro post' hwill
        obtain rfl : post = post' := of_decide_eq_true hwill
        refine .inl ?_
        rw [hstore]
        split
        · rename_i hany
          obtain ⟨row, hrow, hpost⟩ := List.any_eq_true.1 hany
          exact ⟨row, hrow, of_decide_eq_true hpost⟩
        · exact ⟨_, List.mem_append_right _ (List.mem_singleton_self _), rfl⟩
  | findEdited e target =>
      refine ⟨_, hE.still hi (hloc [] .nil) hev hw ?_ (by simp [Point.willRecord])⟩
      intro r hr
      obtain rfl := List.mem_singleton.1 hr
      simp only [Point.next]
      split
      · rename_i row new hrow hnew
        have hmem : row ∈ s.world.store := List.mem_of_find?_eq_some hrow
        refine ⟨rfl, rfl, rfl, ?_, ?_⟩
        · show newContent (editContent new row.mirror) = none
          rw [newContent_editContent]
          have hplain : plain e = true := hfit
          rw [plain, show dictOf (e.content.get newContentKey) = some new from hnew] at hplain
          exact Option.isNone_iff_eq_none.1 hplain
        · show Json.str row.room = .str D
          rw [(hE.rows row hmem).1]
      · exact trivial
  | sendEdit d =>
      obtain ⟨htype, hkey, hred, hnone, hroomd⟩ := hfit
      obtain ⟨room, hroom, hperf⟩ := perform_sendEvent (hsend _ rfl)
      obtain rfl : D = room := Json.str.inj (hroomd.symm.trans hroom)
      obtain ⟨new, hstarts, hshape⟩ := starts_sent host s.world d D (.inl htype)
      rw [Point.op, hperf] at hw hloc
      exact ⟨_, hE.sent hi (hloc new hstarts) hev hw hkey hred (.inr hnone) hshape trivial
        (by simp [Point.willRecord])⟩
  | ended => exact absurd rfl hne
  | _ => exact hfit.elim

/-! ### Events -/

/-- The job of a message of the channel. -/
theorem editJob_of_jobOf {j : Job} (ht : e.type = messageType) (hroom : e.roomId = C)
    (hmem : .newEvent e ∈ es) (hplain : isRootPost e.type e.content = true ∨ plain e = true)
    (hj : jobOf e = some j) : EditJob C es j := by
  have hne : e.type ≠ channelDiscussionState := by
    rw [ht]
    decide
  rw [jobOf, if_neg hne] at hj
  split at hj
  · rename_i hroot
    obtain rfl := Option.some.inj hj
    refine ⟨hmem, ?_⟩
    simp only [isPost, hroot, hroom, decide_true, Bool.and_self]
  · rename_i hroot
    have hp : plain e = true := hplain.resolve_left hroot
    split at hj
    · split at hj
      · obtain rfl := Option.some.inj hj
        exact hp
      · cases hj
    · cases hj

theorem Arrived.posted (h : Arrived C es e) : posted C es e.eventId = true :=
  List.any_eq_true.2 ⟨_, h.1, by simp [h.2]⟩

/-- The posts after a message has arrived. -/
theorem arrived_append {e' : Event} (h : Arrived C (es ++ [Ev.newEvent e]) e') :
    Arrived C es e' ∨ e' = e := by
  obtain ⟨hmem, hpost⟩ := h
  rcases List.mem_append.1 hmem with hmem | hmem
  · exact .inl ⟨hmem, hpost⟩
  · exact .inr (Ev.newEvent.inj (List.mem_singleton.1 hmem))

/-- **A post or an edit keeps the invariant.** -/
theorem edited_event (hE : Edited C D owner s ps)
    (hed : Editing C s (.event (.newEvent e)) = true)
    (h : (system host).step s (.event (.newEvent e)) = some t) : ∃ ps', Edited C D owner t ps' := by
  simp only [Editing, Bool.and_eq_true, decide_eq_true_eq] at hed
  obtain ⟨⟨hroom, htype⟩, hcond⟩ := hed
  have hplain : isRootPost e.type e.content = true ∨ plain e = true := by
    split at hcond
    · rename_i hroot
      exact .inl hroot
    · exact .inr hcond
  have honce : isPost C e = true → ChannelSync.posted C s.events e.eventId = false := by
    intro hpost
    simp only [isPost, Bool.and_eq_true] at hpost
    rw [if_pos hpost.1] at hcond
    simpa using hcond
  obtain ⟨q, hq, hshape⟩ := onNewEvent_at host (e := e) (by simp [followed, htype])
  have hloc : System.Located At (ps ++ [q]) t := hE.located.event rfl h (.cons hq .nil)
  have ht := Option.some.inj h
  have hev : t.events = s.events ++ [Ev.newEvent e] := by rw [← ht]
  have hworld : t.world.rooms = s.world.rooms.persist e ∧ t.world.store = s.world.store ∧
      t.world.sent = s.world.sent ∧ t.world.count = s.world.count := by
    rw [← ht]
    exact ⟨rfl, rfl, rfl, rfl⟩
  obtain ⟨hrooms, hstore, hsent, hcount⟩ := hworld
  have hes : s.events ⊆ t.events := by
    rw [hev]
    exact List.subset_append_left _ _
  have hmem : .newEvent e ∈ t.events := by
    rw [hev]
    exact List.mem_append_right _ (List.mem_singleton_self _)
  have hchat : ∀ room, t.world.chatType room = s.world.chatType room := by
    intro room
    simp only [Synapse.World.chatType, hrooms]
    rw [Rooms.persist_state_of_ne]
    rintro ⟨-, hc, -⟩
    rw [htype] at hc
    exact absurd hc (by decide)
  refine ⟨ps ++ [q], hloc, ?_, ?_, ?_, ?_, ?_, ?_, ?_⟩
  · refine hE.linked.persist hrooms ?_ ?_ <;> rw [htype] <;> decide
  · obtain ⟨h1, h2, h3⟩ := hE.sound
    exact ⟨by rw [hsent]; exact h1, by rw [hsent, hcount]; exact h2, by rw [hsent, hcount]; exact h3⟩
  · intro e₁ e₂ h₁ h₂ heq
    rw [hev] at h₁ h₂
    -- a new post has an id that no earlier one has
    have hfresh : ∀ e', Arrived C s.events e' → e'.eventId = e.eventId → isPost C e = true → False := by
      intro e' he' hid hpost
      have := honce hpost
      rw [← hid, he'.posted] at this
      cases this
    rcases arrived_append h₁ with ha₁ | rfl <;> rcases arrived_append h₂ with ha₂ | rfl
    · exact hE.unique _ _ ha₁ ha₂ heq
    · exact (hfresh _ ha₁ heq h₂.2).elim
    · exact (hfresh _ ha₂ heq.symm h₁.2).elim
    · rfl
  · intro r hr
    rcases List.mem_append.1 hr with hr | hr
    · exact (hE.fits r hr).mono hchat (by rw [hsent]; exact fun _ => id) hes
    · obtain rfl := List.mem_singleton.1 hr
      rcases hshape with rfl | ⟨rfl, -⟩
      · exact .inr fun j hj => editJob_of_jobOf htype hroom hmem hplain hj
      · exact trivial
  · rw [hsent]
    exact hE.inert
  · intro row hrow
    rw [hstore] at hrow
    exact ⟨(hE.rows row hrow).1,
      (hE.rows row hrow).2.mono (by rw [hsent]; exact fun _ => id) hes⟩
  · intro e' he'
    rw [hev] at he'
    rcases arrived_append he' with ha | rfl
    · rw [hstore]
      exact (hE.posts e' ha).imp id (Exists.imp fun r hr => ⟨List.mem_append_left _ hr.1, hr.2⟩)
    · refine .inr ⟨q, List.mem_append_right _ (List.mem_singleton_self _), ?_⟩
      have hj := jobOf_post he'.2
      rcases hshape with rfl | ⟨-, hnone⟩
      · rw [hj]
        simp [Point.willRecord, hroom]
      · rw [hj] at hnone
        cases hnone

/-! ### Runs -/

theorem edited_start (hw : Linked C D owner w) (hstore : w.store = []) (hsent : w.sent = []) :
    Edited C D owner (Synapse.start w) [] where
  located := .nil
  linked := hw
  sound := by
    refine ⟨?_, ?_, ?_⟩ <;> simp [Synapse.start, hsent]
  unique := by simp [Arrived, Synapse.start]
  fits := by simp
  inert := by simp [Synapse.start, hsent]
  rows := by simp [Synapse.start, hstore]
  posts := by simp [Arrived, Synapse.start]

/-- The mirror of a post that has arrived, once all jobs have ended. -/
theorem Edited.mirrorOf (hE : Edited C D owner s ps) (hidle : System.Idle s)
    (he : Arrived C s.events e) :
    ∃ m, s.world.mirrorOf e.eventId = some m ∧
      m.content = buildMirrorContent e.content C e.eventId := by
  have hrow : ∃ row ∈ s.world.store, row.post = e.eventId := by
    rcases hE.posts e he with h | ⟨p, hp, hwill⟩
    · exact h
    · obtain ⟨t, ht, hat⟩ := hE.located.idle hidle hp
      rw [hat.eq_ended ht] at hwill
      cases hwill
  obtain ⟨row, hfind⟩ : ∃ row, s.world.rowOf (.str e.eventId) = some row := by
    cases hf : s.world.rowOf (.str e.eventId) with
    | some row => exact ⟨row, rfl⟩
    | none =>
        obtain ⟨row, hmem, hpost⟩ := hrow
        have := List.find?_eq_none.1 hf row hmem
        simp [hpost] at this
  have hmem : row ∈ s.world.rows e.eventId := rowOf_eq_some hfind
  obtain ⟨hstore, hpost⟩ := List.mem_filter.1 hmem
  obtain ⟨e', m, he', hid, hm, hmid, -, hcontent⟩ := (hE.rows row hstore).2
  obtain rfl : e' = e := hE.unique e' e he' he (hid.trans (of_decide_eq_true hpost))
  refine ⟨m, ?_, hcontent⟩
  rw [World.mirrorOf, hfind]
  show s.world.sent.find? (fun e => e.eventId = row.mirror) = some m
  cases hf : s.world.sent.find? (fun e => e.eventId = row.mirror) with
  | none =>
      have := List.find?_eq_none.1 hf m hm
      simp [hmid] at this
  | some m' =>
      have hid' : m'.eventId = row.mirror := by simpa using List.find?_some hf
      rw [List.inj_on_of_nodup_map hE.sound.ids (List.mem_of_find?_eq_some hf) hm
        (hid'.trans hmid.symm)]

/-- **The mirror shows what the post shows exactly when the edits have left that as it
was.**  The mirror itself never shows anything but the first content of the post. -/
theorem mirror_shows_post_iff {as : List Act} (hw : Linked C D owner w) (hstore : w.store = [])
    (hsent : w.sent = [])
    (h : Exec (system host).step (fun s a => (Editing C s a && Succeeds host s a) = true)
      (Synapse.start w) as s)
    (hidle : System.Idle s) (he : e ∈ arrivals s.events) (hpost : isPost C e = true) :
    ShowsPost s e ↔ SameBut e.content (shown (arrivals s.events) e) := by
  obtain ⟨ps, hE⟩ : ∃ ps, Edited C D owner s ps := by
    refine h.invariant (I := fun s => ∃ ps, Edited C D owner s ps)
      ⟨[], edited_start hw hstore hsent⟩ ?_
    rintro s a t ⟨ps, hE⟩ hc hstep
    simp only [Bool.and_eq_true] at hc
    cases a with
    | step i raises => exact edited_step hE hc.2 hstep
    | event ev =>
        cases ev with
        | newEvent e => exact edited_event hE hc.1 hstep
        | _ => cases hc.1
  obtain ⟨m, hm, hcontent⟩ := hE.mirrorOf hidle ⟨mem_arrivals.1 he, hpost⟩
  have hshown : ∀ x, SameBut (shown s.world.sent m) x ↔ SameBut e.content x := by
    intro x
    rw [shown_of_inert hE.inert, hcontent, sameBut_buildMirrorContent]
  constructor
  · rintro ⟨m', hm', hsame⟩
    obtain rfl := Option.some.inj (hm.symm.trans hm')
    exact (hshown _).1 hsame
  · intro hsame
    exact ⟨m, hm, (hshown _).2 hsame⟩

/-- An edit of the post, with the given text. -/
def edit (id text : PyStr) : Event :=
  ⟨id, messageType, "!c", "@ann:h", none, [("body", .str (py "* " ++ text)),
    (newContentKey, .obj [("body", .str text)]),
    (relates, .obj [("rel_type", .str "m.replace"), ("event_id", .str "$post")])], none⟩

/-- The post is mirrored and then edited, one job after the other. -/
def editedOnce : List Act :=
  Move.event (Ev.newEvent firstPost) :: ([0, 0, 1, 1, 1, 1, 2].map fun i => Move.step i false) ++
  Move.event (Ev.newEvent (edit "$edit" "late news")) :: [3, 3, 4, 4, 5].map fun i => Move.step i false

/-- **The mirror of an edited post shows the old text.** -/
theorem edited_post_shows_old :
    Linked "!c" "!d" "@ann:h" newsWorld ∧ isPost "!c" firstPost = true ∧
    ∃ s, Exec (system "h").step (fun s a => (Editing "!c" s a && Succeeds "h" s a) = true)
        (Synapse.start newsWorld) editedOnce s ∧ System.Idle s ∧
      firstPost ∈ arrivals s.events ∧ ¬ShowsPost s firstPost ∧
      Dict.get? (shown (arrivals s.events) firstPost) "body" = some (.str "late news") ∧
      (s.world.mirrorOf "$post").map (fun m => Dict.get? (shown s.world.sent m) "body") =
        some (some (.str "news")) := by
  refine ⟨newsWorld_linked, by decide, ?_⟩
  obtain ⟨s, hs, hidle, hmem, hnew, hold⟩ := exists_exec_of_runs (f := (system "h").step)
    (C := fun s a => (Editing "!c" s a && Succeeds "h" s a) = true)
    (s := Synapse.start newsWorld) (l := editedOnce)
    (p := fun s => System.Idle s ∧ firstPost ∈ arrivals s.events ∧
      Dict.get? (shown (arrivals s.events) firstPost) "body" = some (.str "late news") ∧
      (s.world.mirrorOf "$post").map (fun m => Dict.get? (shown s.world.sent m) "body") =
        some (some (.str "news"))) (by decide +kernel)
  refine ⟨s, hs, hidle, hmem, ?_, hnew, hold⟩
  rintro ⟨m, hm, hsame⟩
  have hbody := hsame "body" (by decide)
  rw [show s.world.mirrorOf "$post" = some m from hm] at hold
  have hshown : Dict.get? (shown s.world.sent m) "body" = some (.str "news") :=
    Option.some.inj hold
  rw [hshown, hnew] at hbody
  exact absurd hbody (by decide)

/-- A second edit brings the first text back, and its job overtakes the one of the first. -/
def editedBack : List Act :=
  Move.event (Ev.newEvent firstPost) :: ([0, 0, 1, 1, 1, 1, 2].map fun i => Move.step i false) ++
  Move.event (Ev.newEvent (edit "$edit" "late news")) :: Move.event (Ev.newEvent (edit "$back" "news")) ::
  [3, 3, 4, 4, 6, 6, 7, 5, 5, 8].map fun i => Move.step i false

theorem editedBack_shows_post :
    ∃ s, Exec (system "h").step (fun s a => (Editing "!c" s a && Succeeds "h" s a) = true)
        (Synapse.start newsWorld) editedBack s ∧ System.Idle s ∧ s.world.sent.length = 3 ∧
      ShowsPost s firstPost := by
  obtain ⟨s, hs, hidle, hmem, hlen, hshown⟩ := exists_exec_of_runs (f := (system "h").step)
    (C := fun s a => (Editing "!c" s a && Succeeds "h" s a) = true)
    (s := Synapse.start newsWorld) (l := editedBack)
    (p := fun s => System.Idle s ∧ firstPost ∈ arrivals s.events ∧ s.world.sent.length = 3 ∧
      shown (arrivals s.events) firstPost = firstPost.content) (by decide +kernel)
  refine ⟨s, hs, hidle, hlen, ?_⟩
  rw [mirror_shows_post_iff newsWorld_linked rfl rfl hs hidle hmem (by decide), hshown]
  exact fun _ _ => rfl

end ChannelSync
end Liza
