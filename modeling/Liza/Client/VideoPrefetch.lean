/-
# Videos that are loaded in advance

`clients/flutter/lib/utils/video_prefetch_manager.dart`, with `shouldPrefetch` of
`video_prefetch_cache.dart`: the small videos that a sync brings for the room that is open are
queued, and loaded two at a time.  There is one loop over the queue, which waits for a lookup in the
cache (`getCached`) before each download; the downloads run beside it and start the loop again when
they end, whether they fail or not.  A lookup may raise, and then ends the loop.

`dispose` forgets the downloads and does not stop them: those go on beside the ones that are begun
afterwards, and take the marks of those away when they end.

`running` are the downloads that are on their way, `seen` and `settled` the videos that were queued
and what became of them.  The web, where nothing is loaded, is left out.
-/

import Liza.Lib.Assoc
import Liza.Lib.PyStr
import Liza.Lib.Run
import Mathlib.Data.List.Perm.Basic

set_option autoImplicit false

namespace Liza
namespace Client

open Lib

/-! ### The videos -/

/-- What is read of an event: the type and the `msgtype`, whether the attachment is encrypted and
the event was sent, the size of the attachment, and `attachmentOrThumbnailMxcUrl`. -/
structure VideoEvent where
  type : PyStr
  msgtype : Option PyStr
  encrypted : Bool
  sent : Bool
  size : Option ℤ
  mxc : Option PyStr
deriving DecidableEq

/-- `maxPrefetchFileSize`. -/
def maxPrefetchFileSize : ℤ := 5 * 1024 * 1024

/-- `VideoPrefetchCache.shouldPrefetch`. -/
def VideoEvent.shouldPrefetch (e : VideoEvent) : Bool :=
  !e.encrypted && e.sent && e.size.any fun size => 0 < size ∧ size ≤ maxPrefetchFileSize

/-- A video is queued if it should be loaded and is not being loaded. -/
def VideoEvent.wanted (active : List PyStr) (e : VideoEvent) : Bool :=
  e.type = py "m.room.message" && e.msgtype = some (py "m.video") && e.shouldPrefetch &&
    e.mxc.any fun mxc => mxc ∉ active

/-! ### The manager -/

/-- What becomes of a video: its download begins, it is in the cache, it is being loaded already or
has no address, its lookup raises, or the queue is cleared. -/
inductive Fate where
  | started
  | cached
  | busy
  | noAddress
  | raised
  | cleared
deriving DecidableEq

/-- `VideoPrefetchManager`. -/
structure VideoPrefetchManager where
  listening : Bool
  activeRoom : Option PyStr
  queue : List VideoEvent
  activeDownloads : List PyStr
  processing : Bool
  lookups : List VideoEvent
  running : List PyStr
  disposes : ℕ
  seen : List VideoEvent
  settled : List (VideoEvent × Fate)
deriving DecidableEq

/-- `_maxConcurrentPrefetch`. -/
def maxConcurrentPrefetch : ℕ := 2

/-- What the loop does to the queue before its next lookup: the videos it passes over, the one that
is looked up, and the rest. -/
def pump (active : List PyStr) :
    List VideoEvent → List (VideoEvent × Fate) × Option VideoEvent × List VideoEvent
  | [] => ([], none, [])
  | e :: queue =>
      if maxConcurrentPrefetch ≤ active.length then ([], none, e :: queue)
      else
        match e.mxc with
        | none => ((e, .noAddress) :: (pump active queue).1, (pump active queue).2)
        | some mxc =>
            if mxc ∈ active then ((e, .busy) :: (pump active queue).1, (pump active queue).2)
            else ([], some e, queue)

namespace VideoPrefetchManager

variable (s : VideoPrefetchManager)

/-- A manager that was just made. -/
def fresh : VideoPrefetchManager := ⟨false, none, [], [], false, [], [], 0, [], []⟩

/-- The loop of `_processQueue`, up to its next lookup or to its end. -/
def loop : VideoPrefetchManager :=
  let r := pump s.activeDownloads s.queue
  { s with
    queue := r.2.2
    settled := r.1 ++ s.settled
    processing := r.2.1.isSome
    lookups := r.2.1.toList ++ s.lookups }

/-- `_processQueue`. -/
def processQueue : VideoPrefetchManager := if s.processing then s else s.loop

/-- `_onSync`. -/
def onSync (rooms : Assoc PyStr (List VideoEvent)) : VideoPrefetchManager :=
  match s.activeRoom.bind rooms.get? with
  | none | some [] => s
  | some (e :: events) =>
      let found := (e :: events).filter (VideoEvent.wanted s.activeDownloads)
      { s with queue := s.queue ++ found, seen := s.seen ++ found }.processQueue

/-- The download of a video begins, and the loop goes on. -/
def download (e : VideoEvent) : VideoPrefetchManager :=
  let mxc := e.mxc.getD []
  { s with
    activeDownloads := if mxc ∈ s.activeDownloads then s.activeDownloads
      else mxc :: s.activeDownloads
    running := mxc :: s.running
    settled := (e, .started) :: s.settled }.loop

/-- `_downloadInBackground` ends. -/
def finished (i : ℕ) (mxc : PyStr) : VideoPrefetchManager :=
  { s with
    running := s.running.eraseIdx i
    activeDownloads := s.activeDownloads.erase mxc }.processQueue

/-- `dispose`. -/
def disposed : VideoPrefetchManager :=
  { s with
    listening := false
    queue := []
    activeDownloads := []
    disposes := s.disposes + 1
    settled := s.queue.map (·, .cleared) ++ s.settled }

end VideoPrefetchManager

/-- What `getCached` comes to. -/
inductive CacheAnswer where
  | file
  | nothing
  | raises
deriving DecidableEq

/-- What may happen. -/
inductive PrefetchAct where
  | init
  | setActiveRoom (room : PyStr)
  | clearActiveRoom
  | sync (rooms : Assoc PyStr (List VideoEvent))
  | looked (i : ℕ) (answer : CacheAnswer)
  | finished (i : ℕ)
  | dispose
deriving DecidableEq

/-- One step. -/
def prefetchStep (s : VideoPrefetchManager) : PrefetchAct → Option VideoPrefetchManager
  | .init => some { s with listening := true }
  | .setActiveRoom room => some { s with activeRoom := some room }
  | .clearActiveRoom => some { s with activeRoom := none }
  | .sync rooms => if s.listening then some (s.onSync rooms) else none
  | .looked i answer => do
      let e ← s.lookups[i]?
      let s := { s with lookups := s.lookups.eraseIdx i }
      match answer with
      | .file => some { s with settled := (e, .cached) :: s.settled }.loop
      | .nothing => some (s.download e)
      | .raises => some { s with processing := false, settled := (e, .raised) :: s.settled }
  | .finished i => s.running[i]?.map fun mxc => s.finished i mxc
  | .dispose => some s.disposed

/-! ### The loop -/

section Loop

variable {active : List PyStr} {queue : List VideoEvent} {e : VideoEvent}

/-- The loop takes nothing away unseen. -/
theorem pump_perm (active : List PyStr) (queue : List VideoEvent) :
    ((pump active queue).1.map Prod.fst ++ (pump active queue).2.1.toList ++
      (pump active queue).2.2).Perm queue := by
  induction queue with
  | nil => exact List.Perm.nil
  | cons e queue ih =>
      unfold pump
      split
      · exact List.Perm.refl _
      · split
        · exact ih.cons e
        · split
          · exact ih.cons e
          · exact List.Perm.refl _

/-- The loop ends when the queue is empty or two videos are being loaded. -/
theorem pump_ends (h : (pump active queue).2.1 = none) :
    (pump active queue).2.2 = [] ∨ maxConcurrentPrefetch ≤ active.length := by
  induction queue with
  | nil => exact .inl rfl
  | cons e queue ih =>
      unfold pump at h ⊢
      split at h
      · rename_i hfull
        exact .inr hfull
      · rename_i hroom
        rw [if_neg hroom]
        split at h
        · exact ih h
        · split at h
          · rename_i hmem
            rw [if_pos hmem]
            exact ih h
          · cases h

/-- A video is looked up when it may be loaded. -/
theorem pump_looks (h : (pump active queue).2.1 = some e) :
    active.length < maxConcurrentPrefetch ∧ ∃ mxc, e.mxc = some mxc ∧ mxc ∉ active := by
  induction queue with
  | nil => cases h
  | cons f queue ih =>
      unfold pump at h
      split at h
      · cases h
      · rename_i hroom
        split at h
        · exact ih h
        · rename_i mxc hmxc
          split at h
          · exact ih h
          · rename_i hmem
            obtain rfl := Option.some.inj h
            exact ⟨Nat.lt_of_not_le hroom, mxc, hmxc, hmem⟩

/-- What the loop passes over has no address, or is being loaded. -/
theorem fate_of_mem_pump {p : VideoEvent × Fate} (h : p ∈ (pump active queue).1) :
    p.2 = .noAddress ∨ p.2 = .busy := by
  induction queue with
  | nil => cases h
  | cons f queue ih =>
      unfold pump at h
      split at h
      · cases h
      · split at h
        · rcases List.mem_cons.1 h with rfl | h
          · exact .inl rfl
          · exact ih h
        · split at h
          · rcases List.mem_cons.1 h with rfl | h
            · exact .inr rfl
            · exact ih h
          · cases h

end Loop

/-! ### What always holds -/

section Runs

variable {s t : VideoPrefetchManager} {a : PrefetchAct} {as : List PrefetchAct}

/-- What holds of the downloads: two that are known, which are on their way, and two more for each
`dispose`. -/
structure Loading (s : VideoPrefetchManager) : Prop where
  active_le : s.activeDownloads.length ≤ maxConcurrentPrefetch
  nodup : s.activeDownloads.Nodup
  running_le : s.running.length ≤ s.activeDownloads.length + maxConcurrentPrefetch * s.disposes
  marked : ∀ mxc ∈ s.activeDownloads, mxc ∈ s.running
  known : s.disposes = 0 → s.running.Perm s.activeDownloads

/-- There is one lookup at most, with room for its download. -/
structure Bounded (s : VideoPrefetchManager) : Prop extends Loading s where
  lookups_le : s.lookups.length ≤ 1
  processing_iff : s.processing = true ↔ s.lookups ≠ []
  room : ∀ e ∈ s.lookups, s.activeDownloads.length < maxConcurrentPrefetch ∧
    ∃ mxc, e.mxc = some mxc ∧ mxc ∉ s.activeDownloads

/-- The loop goes on where no lookup is on its way. -/
theorem Loading.loop (hs : Loading s) (hlookups : s.lookups = []) : Bounded s.loop := by
  have hnext : s.loop.lookups = (pump s.activeDownloads s.queue).2.1.toList := by
    rw [VideoPrefetchManager.loop, hlookups, List.append_nil]
  refine ⟨⟨hs.active_le, hs.nodup, hs.running_le, hs.marked, hs.known⟩, ?_, ?_, fun e he => ?_⟩
  · rw [hnext]
    cases (pump s.activeDownloads s.queue).2.1 <;> simp
  · rw [hnext, VideoPrefetchManager.loop]
    cases (pump s.activeDownloads s.queue).2.1 <;> simp
  · rw [hnext, Option.mem_toList] at he
    exact pump_looks he

theorem Bounded.processQueue (hs : Bounded s) : Bounded s.processQueue := by
  unfold VideoPrefetchManager.processQueue
  split
  · exact hs
  · rename_i hidle
    refine hs.toLoading.loop ?_
    by_contra hne
    exact hidle (hs.processing_iff.2 hne)

/-- The one lookup has answered. -/
theorem Bounded.single (hs : Bounded s) {i : ℕ} {e : VideoEvent} (he : s.lookups[i]? = some e) :
    s.lookups = [e] ∧ s.lookups.eraseIdx i = [] := by
  have hle := hs.lookups_le
  match hlookups : s.lookups, i with
  | [], _ => simp [hlookups] at he
  | [f], 0 =>
      rw [hlookups] at he
      exact ⟨by rw [Option.some.inj he], rfl⟩
  | [f], i + 1 => simp [hlookups] at he
  | _ :: _ :: _, _ => simp [hlookups] at hle

/-- **One step keeps the bounds.** -/
theorem Bounded.step (hs : Bounded s) (h : prefetchStep s a = some t) : Bounded t := by
  cases a with
  | init | setActiveRoom room | clearActiveRoom =>
      obtain rfl := Option.some.inj h
      exact ⟨⟨hs.active_le, hs.nodup, hs.running_le, hs.marked, hs.known⟩, hs.lookups_le,
        hs.processing_iff, hs.room⟩
  | sync rooms =>
      simp only [prefetchStep] at h
      split at h
      · obtain rfl := Option.some.inj h
        unfold VideoPrefetchManager.onSync
        split
        · exact hs
        · exact hs
        · exact Bounded.processQueue ⟨⟨hs.active_le, hs.nodup, hs.running_le, hs.marked, hs.known⟩,
            hs.lookups_le, hs.processing_iff, hs.room⟩
      · cases h
  | looked i answer =>
      obtain ⟨e, he, h⟩ := Option.bind_eq_some_iff.1 h
      obtain ⟨hlookups, hnone⟩ := hs.single he
      cases answer with
      | file =>
          obtain rfl := Option.some.inj h
          exact Loading.loop ⟨hs.active_le, hs.nodup, hs.running_le, hs.marked, hs.known⟩ hnone
      | raises =>
          obtain rfl := Option.some.inj h
          refine ⟨⟨hs.active_le, hs.nodup, hs.running_le, hs.marked, hs.known⟩, ?_, ?_, ?_⟩
          · rw [hnone]
            exact Nat.zero_le 1
          · simp [hnone]
          · rw [hnone]
            exact fun e he => by cases he
      | nothing =>
          obtain rfl := Option.some.inj h
          obtain ⟨hroom, mxc, hmxc, hnew⟩ := hs.room e (hlookups ▸ List.mem_singleton_self e)
          have hget : e.mxc.getD [] = mxc := by rw [hmxc, Option.getD_some]
          unfold VideoPrefetchManager.download
          simp only [hget, if_neg hnew]
          refine Loading.loop ⟨hroom, List.nodup_cons.2 ⟨hnew, hs.nodup⟩, ?_, ?_, fun hzero =>
            (hs.known hzero).cons mxc⟩ hnone
          · simp only [List.length_cons]
            have := hs.running_le
            omega
          · intro other hother
            rcases List.mem_cons.1 hother with rfl | hother
            · exact List.mem_cons_self
            · exact List.mem_cons_of_mem _ (hs.marked other hother)
  | finished i =>
      obtain ⟨mxc, hmxc, rfl⟩ := Option.map_eq_some_iff.1 h
      obtain ⟨hi, hget⟩ := List.getElem?_eq_some_iff.1 hmxc
      have hle : (s.activeDownloads.erase mxc).length ≤ s.activeDownloads.length :=
        List.length_erase_le
      refine Bounded.processQueue ⟨⟨Nat.le_trans hle hs.active_le, hs.nodup.erase mxc, ?_, ?_,
        fun hzero => ?_⟩, hs.lookups_le, hs.processing_iff, fun e he => ?_⟩
      · have hrunning := hs.running_le
        have hone : s.activeDownloads.length - 1 ≤ (s.activeDownloads.erase mxc).length := by
          rw [List.length_erase]
          split <;> omega
        simp only [List.length_eraseIdx_of_lt hi]
        omega
      · -- the mark that goes is that of the download that ends
        intro other hother
        obtain ⟨hne, hmem⟩ := (hs.nodup.mem_erase_iff).1 hother
        have hrest := (List.getElem_cons_eraseIdx_perm hi).mem_iff.2 (hs.marked other hmem)
        rw [hget] at hrest
        exact (List.mem_cons.1 hrest).resolve_left hne
      · have herase : (s.running.eraseIdx i).Perm (s.running.erase mxc) := by
          rw [← hget]
          exact ((List.getElem_cons_eraseIdx_perm hi).trans
            (List.perm_cons_erase (List.getElem_mem hi))).cons_inv
        exact herase.trans ((hs.known hzero).erase mxc)
      · obtain ⟨hroom, other, hother, hnew⟩ := hs.room e he
        exact ⟨Nat.lt_of_le_of_lt hle hroom, other, hother, fun hmem =>
          hnew (List.mem_of_mem_erase hmem)⟩
  | dispose =>
      obtain rfl := Option.some.inj h
      refine ⟨⟨Nat.zero_le _, List.nodup_nil, ?_, List.forall_mem_nil _,
        fun hzero => by cases hzero⟩, hs.lookups_le, hs.processing_iff, fun e he => ?_⟩
      · have hrunning := hs.running_le
        have hactive := hs.active_le
        simp only [VideoPrefetchManager.disposed, maxConcurrentPrefetch, List.length_nil] at *
        omega
      · obtain ⟨-, mxc, hmxc, -⟩ := hs.room e he
        exact ⟨Nat.zero_lt_two, mxc, hmxc, List.not_mem_nil⟩

theorem bounded_fresh : Bounded .fresh where
  active_le := Nat.zero_le _
  nodup := List.nodup_nil
  running_le := Nat.zero_le _
  marked := List.forall_mem_nil _
  known _ := List.Perm.nil
  lookups_le := Nat.zero_le 1
  processing_iff := by simp [VideoPrefetchManager.fresh]
  room e he := by cases he

/-- Every video that was queued is in the queue, is looked up, or is settled, other than by a lookup
that raises. -/
structure Counted (s : VideoPrefetchManager) : Prop where
  seen : s.seen.Perm (s.queue ++ s.lookups ++ s.settled.map Prod.fst)
  fates : ∀ p ∈ s.settled, p.2 ≠ .raised

/-- Every video is counted; and where the loop is at rest there is nothing to load, or no room for
it. -/
structure Accounted (s : VideoPrefetchManager) : Prop extends Counted s where
  idle : s.processing = false → s.queue = [] ∨ maxConcurrentPrefetch ≤ s.activeDownloads.length

theorem Counted.loop (hs : Counted s) : Accounted s.loop := by
  refine ⟨⟨List.perm_iff_count.2 fun e => ?_, fun p hp => ?_⟩, fun hidle => ?_⟩
  · -- what the loop passes over is settled, and the video after it is looked up
    have hpump := List.perm_iff_count.1 (pump_perm s.activeDownloads s.queue) e
    have hseen := List.perm_iff_count.1 hs.seen e
    simp only [VideoPrefetchManager.loop, List.map_append, List.count_append] at hpump hseen ⊢
    omega
  · rcases List.mem_append.1 hp with hp | hp
    · rcases fate_of_mem_pump hp with hfate | hfate <;> simp [hfate]
    · exact hs.fates p hp
  · exact pump_ends (Option.isNone_iff_eq_none.1 (by simpa [VideoPrefetchManager.loop] using hidle))

/-- The loop begins where it was at rest, whatever made the queue longer or a download end. -/
theorem Counted.processQueue (hs : Counted s) : Accounted s.processQueue := by
  unfold VideoPrefetchManager.processQueue
  split
  · rename_i hbusy
    exact ⟨hs, fun hidle => by rw [hbusy] at hidle; cases hidle⟩
  · exact hs.loop

/-- **One step keeps the account**, unless a lookup raises. -/
theorem Accounted.step (hs : Accounted s) (hraises : ∀ i, a ≠ .looked i .raises)
    (h : prefetchStep s a = some t) : Accounted t := by
  cases a with
  | init | setActiveRoom room | clearActiveRoom =>
      obtain rfl := Option.some.inj h
      exact ⟨⟨hs.seen, hs.fates⟩, hs.idle⟩
  | sync rooms =>
      simp only [prefetchStep] at h
      split at h
      · obtain rfl := Option.some.inj h
        unfold VideoPrefetchManager.onSync
        split
        · exact hs
        · exact hs
        · refine Counted.processQueue ⟨List.perm_iff_count.2 fun e => ?_, hs.fates⟩
          have hseen := List.perm_iff_count.1 hs.seen e
          simp only [List.count_append] at hseen ⊢
          omega
      · cases h
  | looked i answer =>
      obtain ⟨e, he, h⟩ := Option.bind_eq_some_iff.1 h
      obtain ⟨hi, hget⟩ := List.getElem?_eq_some_iff.1 he
      -- the video that was looked up is settled
      have hsettled : ∀ fate, s.seen.Perm (s.queue ++ s.lookups.eraseIdx i ++
          ((e, fate) :: s.settled).map Prod.fst) := by
        intro fate
        refine List.perm_iff_count.2 fun f => ?_
        have hseen := List.perm_iff_count.1 hs.seen f
        have herase := List.perm_iff_count.1 (List.getElem_cons_eraseIdx_perm hi) f
        simp only [hget, List.map_cons, List.count_append, List.count_cons] at hseen herase ⊢
        omega
      cases answer with
      | file =>
          obtain rfl := Option.some.inj h
          exact Counted.loop ⟨hsettled .cached, List.forall_mem_cons.2 ⟨by simp, hs.fates⟩⟩
      | nothing =>
          obtain rfl := Option.some.inj h
          exact Counted.loop ⟨hsettled .started, List.forall_mem_cons.2 ⟨by simp, hs.fates⟩⟩
      | raises => exact absurd rfl (hraises i)
  | finished i =>
      obtain ⟨mxc, -, rfl⟩ := Option.map_eq_some_iff.1 h
      exact Counted.processQueue ⟨hs.seen, hs.fates⟩
  | dispose =>
      obtain rfl := Option.some.inj h
      refine ⟨⟨List.perm_iff_count.2 fun e => ?_, fun p hp => ?_⟩, fun _ => .inl rfl⟩
      · have hseen := List.perm_iff_count.1 hs.seen e
        have hmap : (s.queue.map (·, Fate.cleared)).map Prod.fst = s.queue := by
          rw [List.map_map]
          exact List.map_id _
        simp only [VideoPrefetchManager.disposed, List.map_append, hmap, List.nil_append,
          List.count_append] at hseen ⊢
        omega
      · rcases List.mem_append.1 hp with hp | hp
        · obtain ⟨e, -, rfl⟩ := List.mem_map.1 hp
          simp
        · exact hs.fates p hp

/-- **No video is forgotten.**  In every run in which no lookup raises, when nothing is on its way
any more, no lookup and no download, the queue is empty, and something became of every video that
was queued: its download began, it was in the cache or being loaded, it had no address, or the
queue was cleared. -/
theorem prefetch_complete
    (h : Exec prefetchStep (fun _ a => ∀ i, a ≠ .looked i .raises) .fresh as s)
    (hlookups : s.lookups = []) (hrunning : s.running = []) :
    s.queue = [] ∧ s.seen.Perm (s.settled.map Prod.fst) ∧ ∀ p ∈ s.settled, p.2 ≠ .raised := by
  have hbounded : Bounded s := h.invariant bounded_fresh fun _ _ _ hs _ hstep => hs.step hstep
  have hs : Accounted s := h.invariant ⟨⟨List.Perm.nil, List.forall_mem_nil _⟩, fun _ => .inl rfl⟩
    fun _ _ _ hs hraises hstep => hs.step hraises hstep
  have hidle : s.processing = false := by
    rw [← Bool.not_eq_true, hbounded.processing_iff]
    exact fun hne => hne hlookups
  -- a mark without a download would keep the loop from going on
  have hactive : s.activeDownloads = [] := by
    refine List.eq_nil_iff_forall_not_mem.2 fun mxc hmem => ?_
    have hrun := hbounded.marked mxc hmem
    rw [hrunning] at hrun
    cases hrun
  have hqueue : s.queue = [] := by
    refine (hs.idle hidle).resolve_right ?_
    rw [hactive]
    decide
  refine ⟨hqueue, ?_, hs.fates⟩
  have hseen := hs.seen
  rwa [hqueue, hlookups] at hseen

/-- A small video of the room. -/
def smallVideo (mxc : PyStr) : VideoEvent :=
  ⟨"m.room.message", some "m.video", false, true, some 1024, some mxc⟩

/-- Of three videos one is in the cache, and the others are loaded. -/
def loadedRun : List PrefetchAct :=
  [.init, .setActiveRoom "!room",
    .sync [(py "!room", [smallVideo "mxc://a", smallVideo "mxc://b", smallVideo "mxc://c"])],
    .looked 0 .nothing, .looked 0 .file, .looked 0 .nothing, .finished 1, .finished 0]

theorem loaded_complete :
    ∃ s, Exec prefetchStep (fun _ a => ∀ i, a ≠ .looked i .raises) .fresh loadedRun s ∧
      s.seen.length = 3 ∧ s.queue = [] ∧ s.seen.Perm (s.settled.map Prod.fst) ∧
        ∀ p ∈ s.settled, p.2 ≠ .raised := by
  have hanswers : ∀ a ∈ loadedRun, ∀ i, a ≠ .looked i .raises := by
    intro a ha i
    rintro rfl
    simp [loadedRun] at ha
  obtain ⟨s, hrun, hseen, hlookups, hrunning⟩ : ∃ s,
      Exec prefetchStep (fun _ _ => True) .fresh loadedRun s ∧ s.seen.length = 3 ∧
        s.lookups = [] ∧ s.running = [] := exists_exec_of_runs (by decide)
  have hrun : Exec prefetchStep (fun _ a => ∀ i, a ≠ .looked i .raises) .fresh loadedRun s :=
    (hrun.and_mem hanswers).mono fun _ _ h => h.2
  exact ⟨s, hrun, hseen, prefetch_complete hrun hlookups hrunning⟩

end Runs

end Client
end Liza
