/-
# The delivery of the pushes

`HttpPusher` of `servers/synapse/src/synapse/push/httppusher.py` over its whole life: the loop of
`_process` and `_unsafe_process`, its timers, and what starts them (`Pusher.on_new_notifications` of
`push/__init__.py`, `PusherPool` of `push/pusherpool.py`), with the queries and the updates of
`storage/databases/main/event_push_actions.py` and `pusher.py`.  `_process_one`, whose inside is
`ReadGrace`, is one `await` here.

The state is what the database has for one user and one pushkey, and the objects that were made for
the pushkey.  One of them at most is in the pool: when the client sets its pusher again, the one
before is stopped, but goes on with the pass it is in, and with a timer that `on_stop` does not know
of.  A step is what one `await` comes to; everything may raise, and Synapse may be started again at
any point.  The clock does not go back.

`first`, `window`, `ended` and `settled` are kept beside: where an object began, how many rows its
query found, how its last pass ended, and what became of the rows.  A pusher that is not enabled and
the configuration that `__init__` refuses are left out.
-/

import Liza.Lib.Earliest
import Liza.Lib.Run
import Liza.Push.ReadGrace

set_option autoImplicit false

namespace Liza
namespace Push
namespace Delivery

open Lib Synapse ReadGrace

/-! ### The tables -/

/-- A row of `event_push_actions` of the user with `notif = 1`. -/
structure PushRow extends HttpPushAction where
  threadId : PyStr

/-- A read receipt of the user, for a thread or for all of a room. -/
structure ReadMark where
  roomId : RoomId
  threadId : Option PyStr
  streamOrdering : ℤ

/-- `MAX(stream_ordering)` of the receipts for a room and a thread, and 0 without one. -/
def readUpTo (marks : List ReadMark) (room : RoomId) (thread : Option PyStr) : ℤ :=
  ((marks.filter fun m => m.roomId = room ∧ m.threadId = thread).map
    ReadMark.streamOrdering).max?.getD 0

/-- `_RoomReceipt.is_unread`. -/
def PushRow.isUnread (marks : List ReadMark) (r : PushRow) : Bool :=
  readUpTo marks r.roomId none < r.streamOrdering ∧
    readUpTo marks r.roomId (some r.threadId) < r.streamOrdering

/-- The `limit` of `get_unread_push_actions_for_user_in_range_for_http`. -/
def pushLimit : ℕ := 20

/-- The rows of the query, of which no more than `limit` are read. -/
def PushRow.inRange (rows : List PushRow) (min max : ℤ) : List PushRow :=
  earliest (fun r => r.streamOrdering) pushLimit
    (rows.filter fun r => min < r.streamOrdering ∧ r.streamOrdering ≤ max)

/-- Those of them that are unread. -/
def PushRow.unread (marks : List ReadMark) (window : List PushRow) : List PushRow :=
  earliest (fun r => r.streamOrdering) pushLimit (window.filter (PushRow.isUnread marks))

/-! ### The pusher -/

/-- The `await` that `_unsafe_process` is at. -/
inductive Stage where
  /-- the query for the rows -/
  | rows
  /-- the query for the receipts -/
  | receipts (window : List PushRow)
  /-- `_process_one` -/
  | one (row : PushRow) (rest : List PushRow)
  /-- `update_pusher_last_stream_ordering_and_success` -/
  | saving (rest : List PushRow)
  /-- `update_pusher_failing_since` with `None` -/
  | clearing (rest : List PushRow)
  /-- `update_pusher_failing_since` with the time of the failure -/
  | noting (row : PushRow) (rest : List PushRow)
  /-- `update_pusher_last_stream_ordering`, for a row that is given up -/
  | dropping (rest : List PushRow)

/-- The rows that a pass has yet to settle. -/
def Stage.batch : Stage → List PushRow
  | .rows => []
  | .receipts window => window
  | .one row rest | .noting row rest => row :: rest
  | .saving rest | .clearing rest | .dropping rest => rest

/-- What becomes of a row: nothing had to be sent for it, the gateway took it, or it was given
up. -/
inductive Fate where
  | skipped
  | accepted
  | dropped
deriving DecidableEq

/-- What became of a row, and when. -/
structure Settled where
  row : PushRow
  fate : Fate
  time : ℤ

/-- How a pass ends: it is through with the rows, it has set a timer, it has raised, or the pusher
was deleted. -/
inductive PassEnd where
  | through
  | waiting
  | raised
  | deleted
deriving DecidableEq

/-- `HttpPusher`. -/
structure HttpPusher where
  lastStreamOrdering : ℤ
  maxStreamOrdering : ℤ
  failingSince : Option ℤ
  backoffDelay : ℤ
  /-- The timer of `timed_call`, while it is active. -/
  timedCall : Option ℤ
  /-- The active timers that `timed_call` named before. -/
  oldCalls : List ℤ
  /-- It is the one in `PusherPool.pushers`. -/
  pooled : Bool
  /-- `on_started` was not called yet. -/
  starting : Bool
  /-- `starting_max_ordering`, and where the pass is. -/
  processing : Option (ℤ × Stage)
  first : ℤ
  window : ℕ
  ended : PassEnd
  settled : List Settled

namespace HttpPusher

variable (p : HttpPusher)

/-- `__init__`, with the values of the table `pushers`. -/
def new (lastStreamOrdering : ℤ) (failingSince : Option ℤ) (maxStreamOrdering : ℤ) : HttpPusher where
  lastStreamOrdering := lastStreamOrdering
  maxStreamOrdering := maxStreamOrdering
  failingSince := failingSince
  backoffDelay := initialBackoffSec
  timedCall := none
  oldCalls := []
  pooled := true
  starting := true
  processing := none
  first := lastStreamOrdering
  window := 0
  ended := .through
  settled := []

/-- `_unsafe_process` begins, and waits for the rows. -/
def begun : HttpPusher := { p with processing := some (p.maxStreamOrdering, .rows) }

/-- `_start_processing`. -/
def startProcessing : HttpPusher :=
  if p.processing.isSome then p
  else if isSet p.failingSince ∧ p.timedCall.isSome then p
  else p.begun

/-- `_unsafe_process` has ended, and `_process` looks for more. -/
def finished (ended : PassEnd) : HttpPusher :=
  match p.processing with
  | none => p
  | some (startingMaxOrdering, _) =>
      let p := { p with ended := ended }
      if p.maxStreamOrdering = startingMaxOrdering then { p with processing := none } else p.begun

/-- A pass waits at another point. -/
def waitAt (stage : Stage) : HttpPusher :=
  { p with processing := p.processing.map fun e => (e.1, stage) }

/-- The next round of the loop over the rows. -/
def next : List PushRow → HttpPusher
  | [] => p.finished .through
  | row :: rest => p.waitAt (.one row rest)

/-- What becomes of a row is noted. -/
def settle (row : PushRow) (fate : Fate) (now : ℤ) : HttpPusher :=
  { p with
    backoffDelay := initialBackoffSec
    lastStreamOrdering := row.streamOrdering
    settled := ⟨row, fate, now⟩ :: p.settled }

/-- After a failure: the row is given up after a day, and waited with before. -/
def judge (now : ℤ) (row : PushRow) (rest : List PushRow) : HttpPusher :=
  if isSet p.failingSince ∧ p.failingSince.getD 0 < now - giveUpAfterMs then
    (p.settle row .dropped now).waitAt (.dropping rest)
  else
    { p with
      timedCall := some (now + p.backoffDelay * 1000)
      oldCalls := p.timedCall.toList ++ p.oldCalls
      backoffDelay := min (p.backoffDelay * 2) maxBackoffSec }.finished .waiting

/-- `on_stop`. -/
def onStop : HttpPusher := { p with timedCall := none }

/-- `on_new_notifications`. -/
def onNewNotifications (maxToken : ℤ) : HttpPusher :=
  { p with maxStreamOrdering := max maxToken p.maxStreamOrdering }.startProcessing

/-- `on_started`. -/
def onStarted (shouldCheckForNotifs : Bool) : HttpPusher :=
  let p := { p with starting := false }
  if shouldCheckForNotifs then p.startProcessing else p

end HttpPusher

/-! ### The steps -/

/-- How `_process_one` ends: nothing was sent, the gateway took the push, or it did not; or an
exception. -/
inductive Answer where
  | skipped
  | accepted
  | failed
  | raises
deriving DecidableEq

/-- What happens at an object; `ok` is false where the `await` raises. -/
inductive Move where
  /-- `get_if_maybe_push_in_range_for_user` of `_start_pusher` -/
  | started (ok : Bool)
  | notify (maxToken : ℤ)
  /-- the timer of `timed_call` goes off -/
  | timer
  /-- an earlier timer goes off -/
  | oldTimer (j : ℕ)
  | rows (ok : Bool)
  | receipts (ok : Bool)
  | one (answer : Answer)
  | saved (ok : Bool)
  | cleared (ok : Bool)
  | noted (ok : Bool)
  | dropped (ok : Bool)
deriving DecidableEq

/-- What can happen. -/
inductive Act where
  | tick (ms : ℕ)
  /-- an event with a push for the user is persisted -/
  | persist (row : PushRow)
  /-- the events up to there are persisted -/
  | advance (token : ℤ)
  | read (mark : ReadMark)
  /-- a row is deleted, once it was summarised or read -/
  | rotate (i : ℕ)
  /-- `add_or_update_pusher`, with the token of its beginning -/
  | set (lastStreamOrdering : ℤ)
  /-- `delete_pusher_by_app_id_pushkey_user_id` -/
  | delete
  /-- `_start_pusher`, up to its query -/
  | start
  /-- `maybe_stop_pusher` -/
  | stop
  /-- Synapse is started again -/
  | restart
  | move (i : ℕ) (a : Move)

/-- A row of `pushers`. -/
structure PusherConfig where
  lastStreamOrdering : ℤ
  failingSince : Option ℤ
deriving DecidableEq

/-- What the database has for the user, with the objects of one pushkey. -/
structure Server where
  now : ℤ
  /-- `get_room_max_stream_ordering`: every event up to there is persisted. -/
  token : ℤ
  rows : List PushRow
  marks : List ReadMark
  stored : Option PusherConfig
  pushers : List HttpPusher

/-- A new server. -/
def Server.init : Server := ⟨0, 0, [], [], none, []⟩

/-- The object is stopped if it is in the pool. -/
def HttpPusher.stopped (p : HttpPusher) : HttpPusher :=
  if p.pooled then { p.onStop with pooled := false } else p

/-- The `await` that the pass of the object is at, and its `starting_max_ordering`. -/
def HttpPusher.moveAt (s : Server) (p : HttpPusher) (startingMaxOrdering : ℤ) :
    Stage → Move → Option (HttpPusher × Option PusherConfig)
  | .rows, .rows ok =>
      if ok then
        let window := PushRow.inRange s.rows p.lastStreamOrdering startingMaxOrdering
        some ({ p with window := window.length }.waitAt (.receipts window), s.stored)
      else some (p.finished .raised, s.stored)
  | .receipts window, .receipts ok =>
      if ok then some (p.next (PushRow.unread s.marks window), s.stored)
      else some (p.finished .raised, s.stored)
  | .one row rest, .one answer =>
      match answer with
      | .skipped => some ((p.settle row .skipped s.now).waitAt (.saving rest), s.stored)
      | .accepted => some ((p.settle row .accepted s.now).waitAt (.saving rest), s.stored)
      | .failed =>
          if isSet p.failingSince then some (p.judge s.now row rest, s.stored)
          else some ({ p with failingSince := some s.now }.waitAt (.noting row rest), s.stored)
      | .raises => some (p.finished .raised, s.stored)
  | .saving rest, .saved ok =>
      if ok then
        match s.stored with
        | none => some (p.onStop.finished .deleted, none)
        | some row =>
            let row := { row with lastStreamOrdering := p.lastStreamOrdering }
            if isSet p.failingSince then
              some ({ p with failingSince := none }.waitAt (.clearing rest), some row)
            else some (p.next rest, some row)
      else some (p.finished .raised, s.stored)
  | .clearing rest, .cleared ok =>
      if ok then
        some (p.next rest, s.stored.map fun row => { row with failingSince := none })
      else some (p.finished .raised, s.stored)
  | .noting row rest, .noted ok =>
      if ok then
        some (p.judge s.now row rest,
          s.stored.map fun config => { config with failingSince := p.failingSince })
      else some (p.finished .raised, s.stored)
  | .dropping rest, .dropped ok =>
      if ok then
        -- `simple_update_one` raises without a row
        s.stored.map fun row =>
          ({ p with failingSince := none }.waitAt (.clearing rest),
            some { row with lastStreamOrdering := p.lastStreamOrdering })
      else some (p.finished .raised, s.stored)
  | _, _ => none

/-- A step of an object, and what it leaves in `pushers`. -/
def HttpPusher.move (s : Server) (p : HttpPusher) :
    Move → Option (HttpPusher × Option PusherConfig)
  | .started ok =>
      if p.starting = false then none
      else if ok then
        let haveNotifs := p.lastStreamOrdering = 0 ∨
          ∃ r ∈ s.rows, p.lastStreamOrdering < r.streamOrdering
        some (p.onStarted (decide haveNotifs), s.stored)
      else some ({ p with starting := false, ended := .raised }, s.stored)
  | .notify maxToken =>
      if p.pooled ∧ maxToken ≤ s.token then some (p.onNewNotifications maxToken, s.stored) else none
  | .timer => do
      let due ← p.timedCall
      guard (due ≤ s.now)
      some ({ p with timedCall := none }.startProcessing, s.stored)
  | .oldTimer j => do
      let due ← p.oldCalls[j]?
      guard (due ≤ s.now)
      some ({ p with oldCalls := p.oldCalls.eraseIdx j }.startProcessing, s.stored)
  | a => p.processing.bind fun e => p.moveAt s e.1 e.2 a

/-- One step. -/
def step (s : Server) : Act → Option Server
  | .tick ms => some { s with now := s.now + ms }
  | .persist row =>
      if s.token < row.streamOrdering ∧ ∀ r ∈ s.rows, r.streamOrdering ≠ row.streamOrdering then
        some { s with rows := row :: s.rows }
      else none
  | .advance token => if s.token ≤ token then some { s with token := token } else none
  | .read mark => some { s with marks := mark :: s.marks }
  | .rotate i => some { s with rows := s.rows.eraseIdx i }
  | .set lastStreamOrdering =>
      if lastStreamOrdering ≤ s.token then
        -- the upsert leaves `failing_since` as it is
        some { s with
          stored := some ⟨lastStreamOrdering, s.stored.bind PusherConfig.failingSince⟩ }
      else none
  | .delete => some { s with stored := none }
  | .start =>
      s.stored.map fun row =>
        { s with
          pushers := s.pushers.map HttpPusher.stopped ++
            [HttpPusher.new row.lastStreamOrdering row.failingSince s.token] }
  | .stop => some { s with pushers := s.pushers.map HttpPusher.stopped }
  | .restart => some { s with pushers := [] }
  | .move i a => do
      let p ← s.pushers[i]?
      let e ← p.move s a
      some { s with stored := e.2, pushers := s.pushers.set i e.1 }

/-! ### What is read stays read -/

variable {s t : Server} {p : HttpPusher} {r : PushRow} {marks : List ReadMark}
  {rest window : List PushRow} {start : ℤ} {stage : Stage}

theorem readUpTo_lt_iff {room : RoomId} {thread : Option PyStr} {o : ℤ} (ho : 0 < o) :
    readUpTo marks room thread < o ↔
      ∀ m ∈ marks, m.roomId = room → m.threadId = thread → m.streamOrdering < o := by
  unfold readUpTo
  constructor
  · intro h m hm hroom hthread
    have hmem : m.streamOrdering ∈ (marks.filter fun m => m.roomId = room ∧ m.threadId = thread).map
        ReadMark.streamOrdering :=
      List.mem_map_of_mem (List.mem_filter.2 ⟨hm, decide_eq_true ⟨hroom, hthread⟩⟩)
    cases hmax : ((marks.filter fun m => m.roomId = room ∧ m.threadId = thread).map
        ReadMark.streamOrdering).max? with
    | none =>
        rw [List.max?_eq_none_iff.1 hmax] at hmem
        cases hmem
    | some o' =>
        rw [hmax] at h
        exact ((List.max?_le_iff hmax).1 le_rfl _ hmem).trans_lt h
  · intro h
    cases hmax : ((marks.filter fun m => m.roomId = room ∧ m.threadId = thread).map
        ReadMark.streamOrdering).max? with
    | none => exact ho
    | some o' =>
        obtain ⟨m, hm, rfl⟩ := List.mem_map.1 (List.max?_mem hmax)
        obtain ⟨hm, hof⟩ := List.mem_filter.1 hm
        obtain ⟨hroom, hthread⟩ := of_decide_eq_true hof
        exact h m hm hroom hthread

/-- A receipt more makes nothing unread. -/
theorem isUnread_mono {marks' : List ReadMark} (hsub : marks ⊆ marks') (hpos : 0 < r.streamOrdering)
    (h : r.isUnread marks = false) : r.isUnread marks' = false := by
  unfold PushRow.isUnread at h ⊢
  rw [decide_eq_false_iff_not, readUpTo_lt_iff hpos, readUpTo_lt_iff hpos] at h ⊢
  exact fun h' => h ⟨fun m hm => h'.1 m (hsub hm), fun m hm => h'.2 m (hsub hm)⟩

/-! ### The order of the pushes -/

theorem initialBackoffSec_le : initialBackoffSec ≤ maxBackoffSec := by decide

/-- What the tables keep: no ordering is there twice, and the pusher is not ahead of the token. -/
structure Tables (s : Server) : Prop where
  token : 0 ≤ s.token
  keys : (s.rows.map fun r => r.streamOrdering).Nodup
  pos : ∀ r ∈ s.rows, 0 < r.streamOrdering
  stored : ∀ row ∈ s.stored, row.lastStreamOrdering ≤ s.token

/-- The row was settled by the object, or is read. -/
def Handled (s : Server) (p : HttpPusher) (r : PushRow) : Prop :=
  (∃ e ∈ p.settled, e.row = r) ∨ r.isUnread s.marks = false

/-- What an object has done: the rows were settled in order, and none was passed over.  Its timer
goes off within the hour. -/
structure Sound (s : Server) (p : HttpPusher) : Prop where
  backoff_le : p.backoffDelay ≤ maxBackoffSec
  due_le : ∀ due ∈ p.timedCall, due ≤ s.now + maxBackoffSec * 1000
  first_le : p.first ≤ p.lastStreamOrdering
  last_le : p.lastStreamOrdering ≤ s.token
  max_le : p.maxStreamOrdering ≤ s.token
  sorted : p.settled.Pairwise fun e e' => e'.row.streamOrdering < e.row.streamOrdering
  range : ∀ e ∈ p.settled,
    p.first < e.row.streamOrdering ∧ e.row.streamOrdering ≤ p.lastStreamOrdering
  passed : ∀ r ∈ s.rows, p.first < r.streamOrdering → r.streamOrdering ≤ p.lastStreamOrdering →
    Handled s p r

/-- How many rows the query of a pass has found; before it is made they may be too many. -/
def Stage.found (window : ℕ) : Stage → ℕ
  | .rows => pushLimit
  | _ => window

/-- What a pass has before it: the rows up to the last one of its batch are in the batch or read,
and all of them if the window was not full. -/
structure Pass (s : Server) (p : HttpPusher) (start : ℤ) (batch : List PushRow) (found : ℕ) :
    Prop where
  start_le : start ≤ p.maxStreamOrdering
  sorted : batch.Pairwise fun r r' => r.streamOrdering < r'.streamOrdering
  range : ∀ r ∈ batch, p.lastStreamOrdering < r.streamOrdering ∧ r.streamOrdering ≤ start
  length_le : batch.length ≤ pushLimit
  gap : ∀ r ∈ s.rows, p.lastStreamOrdering < r.streamOrdering →
    (∃ r' ∈ batch, r.streamOrdering ≤ r'.streamOrdering) ∨
      found < pushLimit ∧ r.streamOrdering ≤ start →
    r ∈ batch ∨ r.isUnread s.marks = false

/-- An object is up to date: nothing that it was told of is unread. -/
def UpToDate (s : Server) (p : HttpPusher) : Prop :=
  ∀ r ∈ s.rows, p.lastStreamOrdering < r.streamOrdering →
    r.streamOrdering ≤ p.maxStreamOrdering → r.isUnread s.marks = false

/-- Why an object of the pool may be at rest. -/
def Resting (s : Server) (p : HttpPusher) : Prop :=
  p.pooled = true → p.starting = false →
    p.timedCall.isSome = true ∨ UpToDate s p ∨ p.ended = .raised ∨ p.ended = .deleted ∨
      pushLimit ≤ p.window

/-- What an object keeps. -/
structure Placed (s : Server) (p : HttpPusher) : Prop where
  sound : Sound s p
  pass : ∀ start stage, p.processing = some (start, stage) →
    Pass s p start stage.batch (stage.found p.window)
  rest : p.processing = none → Resting s p

/-! ### The parts of a pass -/

theorem placed_begun (hs : Sound s p) : Placed s p.begun where
  sound := { hs with }
  pass := by
    intro start stage h
    obtain ⟨rfl, rfl⟩ := Prod.mk.inj (Option.some.inj h)
    refine ⟨le_rfl, List.Pairwise.nil, fun r hr => (by cases hr), Nat.zero_le _,
      fun r _ _ hcases => ?_⟩
    -- nothing is known of the window yet
    rcases hcases with ⟨r', hr', -⟩ | ⟨hwindow, -⟩
    · cases hr'
    · exact absurd hwindow (lt_irrefl _)
  rest := by
    intro h
    cases h

/-- Where `_start_processing` does not begin, there is a pass or a timer. -/
theorem placed_startProcessing (hs : Sound s p)
    (hpass : ∀ start stage, p.processing = some (start, stage) →
      Pass s p start stage.batch (stage.found p.window)) :
    Placed s p.startProcessing := by
  unfold HttpPusher.startProcessing
  split
  · rename_i hproc
    exact ⟨hs, hpass, fun h => by rw [h] at hproc; cases hproc⟩
  · split
    · rename_i htimer
      exact ⟨hs, hpass, fun _ _ _ => .inl htimer.2⟩
    · exact placed_begun hs

theorem placed_finished {ended : PassEnd} (hs : Sound s p)
    (hp : p.processing = some (start, stage))
    (hrest : p.maxStreamOrdering = start → Resting s { p with ended := ended, processing := none }) :
    Placed s (p.finished ended) := by
  unfold HttpPusher.finished
  rw [hp]
  dsimp only
  split
  · rename_i hmax
    exact ⟨{ hs with }, fun _ _ h => (by cases h), fun _ => hrest hmax⟩
  · exact placed_begun { hs with }

theorem placed_raised (hs : Sound s p) (hp : p.processing = some (start, stage)) :
    Placed s (p.finished .raised) :=
  placed_finished hs hp fun _ _ _ => .inr (.inr (.inl rfl))

theorem placed_waitAt {stage' : Stage} (hs : Sound s p) (hp : p.processing = some (start, stage))
    (hpass : Pass s p start stage'.batch (stage'.found p.window)) : Placed s (p.waitAt stage') where
  sound := { hs with }
  pass := by
    intro start' stage'' h
    rw [HttpPusher.waitAt, hp] at h
    obtain ⟨rfl, rfl⟩ := Prod.mk.inj (Option.some.inj h)
    exact { hpass with }
  rest := by
    intro h
    rw [HttpPusher.waitAt, hp] at h
    cases h

theorem placed_next (hs : Sound s p) (hp : p.processing = some (start, stage))
    (hpass : Pass s p start rest p.window) : Placed s (p.next rest) := by
  cases rest with
  | nil =>
      refine placed_finished hs hp fun hmax _ _ => ?_
      by_cases hwindow : p.window < pushLimit
      · refine .inr (.inl fun r hr hlast hle => ?_)
        exact (hpass.gap r hr hlast (.inr ⟨hwindow, hle.trans hmax.le⟩)).resolve_left
          List.not_mem_nil
      · exact .inr (.inr (.inr (.inr (Nat.le_of_not_lt hwindow))))
  | cons row rest => exact placed_waitAt hs hp hpass

/-- The first row of the batch is settled. -/
theorem sound_settle {fate : Fate} {now : ℤ} {found : ℕ} (hs : Sound s p)
    (hpass : Pass s p start (r :: rest) found) : Sound s (p.settle r fate now) := by
  obtain ⟨hlast, hstart⟩ := hpass.range r List.mem_cons_self
  refine ⟨initialBackoffSec_le, hs.due_le, hs.first_le.trans hlast.le,
    hstart.trans (hpass.start_le.trans hs.max_le), hs.max_le,
    List.pairwise_cons.2 ⟨fun e he => ((hs.range e he).2).trans_lt hlast, hs.sorted⟩, ?_, ?_⟩
  · rintro e (_ | ⟨_, he⟩)
    · exact ⟨hs.first_le.trans_lt hlast, le_rfl⟩
    · exact ⟨(hs.range e he).1, (hs.range e he).2.trans hlast.le⟩
  · intro r' hr' hfirst hle
    by_cases hold : r'.streamOrdering ≤ p.lastStreamOrdering
    · rcases hs.passed r' hr' hfirst hold with ⟨e, he, hrow⟩ | hread
      · exact .inl ⟨e, List.mem_cons_of_mem _ he, hrow⟩
      · exact .inr hread
    · -- between the last one and this one there are only rows that are read
      rcases hpass.gap r' hr' (lt_of_not_ge hold) (.inl ⟨r, List.mem_cons_self, hle⟩) with
        hmem | hread
      · rcases List.mem_cons.1 hmem with rfl | hmem
        · exact .inl ⟨_, List.mem_cons_self, rfl⟩
        · exact absurd hle (not_le.2 ((List.pairwise_cons.1 hpass.sorted).1 r' hmem))
      · exact .inr hread

theorem pass_settle {fate : Fate} {now : ℤ} {found : ℕ}
    (hpass : Pass s p start (r :: rest) found) :
    Pass s (p.settle r fate now) start rest found := by
  obtain ⟨hbefore, hsorted⟩ := List.pairwise_cons.1 hpass.sorted
  obtain ⟨hlast, -⟩ := hpass.range r List.mem_cons_self
  refine ⟨hpass.start_le, hsorted,
    fun r' hr' => ⟨hbefore r' hr', (hpass.range r' (List.mem_cons_of_mem _ hr')).2⟩,
    (Nat.le_succ _).trans hpass.length_le, fun r' hr' hlt hcases => ?_⟩
  have hlt : r.streamOrdering < r'.streamOrdering := hlt
  have hcases : (∃ r'' ∈ r :: rest, r'.streamOrdering ≤ r''.streamOrdering) ∨
      found < pushLimit ∧ r'.streamOrdering ≤ start :=
    hcases.imp_left fun ⟨r'', hr'', hle⟩ => ⟨r'', List.mem_cons_of_mem _ hr'', hle⟩
  refine (hpass.gap r' hr' (hlast.trans hlt) hcases).imp_left fun hmem => ?_
  exact (List.mem_cons.1 hmem).resolve_left fun h => (h ▸ hlt).false

theorem placed_judge (hs : Sound s p) (hp : p.processing = some (start, stage))
    (hpass : Pass s p start (r :: rest) p.window) : Placed s (p.judge s.now r rest) := by
  unfold HttpPusher.judge
  split
  · exact placed_waitAt (sound_settle hs hpass) hp (pass_settle hpass)
  · refine placed_finished { hs with backoff_le := min_le_right _ _, due_le := fun due hdue => ?_ }
      hp fun _ _ _ => .inl rfl
    cases hdue
    have := hs.backoff_le
    omega

/-- The rows that the query finds. -/
theorem pass_window (ht : Tables s) (hstart : start ≤ p.maxStreamOrdering)
    (hwindow : window = PushRow.inRange s.rows p.lastStreamOrdering start) :
    Pass s { p with window := window.length } start window window.length := by
  subst hwindow
  have hkeys : ((s.rows.filter fun r => p.lastStreamOrdering < r.streamOrdering ∧
      r.streamOrdering ≤ start).map fun r => r.streamOrdering).Nodup :=
    ht.keys.sublist (List.filter_sublist.map _)
  refine ⟨hstart, pairwise_earliest hkeys, fun r hr => ?_, ?_, fun r hr hlast hcases => .inl ?_⟩
  · exact of_decide_eq_true (List.mem_filter.1 (mem_of_mem_earliest hr)).2
  · rw [PushRow.inRange, length_earliest]
    exact Nat.min_le_left _ _
  · rcases hcases with ⟨r', hr', hle⟩ | ⟨hshort, hle⟩
    · have hr'le : r'.streamOrdering ≤ start :=
        (of_decide_eq_true (List.mem_filter.1 (mem_of_mem_earliest hr')).2 :
          p.lastStreamOrdering < _ ∧ _).2
      exact mem_earliest_of_le hkeys hr'
        (List.mem_filter.2 ⟨hr, decide_eq_true ⟨hlast, hle.trans hr'le⟩⟩) hle
    · exact mem_earliest_of_lt hshort (List.mem_filter.2 ⟨hr, decide_eq_true ⟨hlast, hle⟩⟩)

/-- Those of them that are unread. -/
theorem pass_unread {found : ℕ} (hpass : Pass s p start window found) :
    Pass s p start (PushRow.unread s.marks window) found := by
  have hkeys : ((window.filter (PushRow.isUnread s.marks)).map fun r => r.streamOrdering).Nodup :=
    (List.pairwise_map.2 (hpass.sorted.imp ne_of_lt)).sublist (List.filter_sublist.map _)
  have hmem {r : PushRow} (hr : r ∈ PushRow.unread s.marks window) : r ∈ window :=
    List.mem_of_mem_filter (mem_of_mem_earliest hr)
  refine ⟨hpass.start_le, pairwise_earliest hkeys, fun r hr => hpass.range r (hmem hr), ?_,
    fun r hr hlast hcases => ?_⟩
  · rw [PushRow.unread, length_earliest]
    exact Nat.min_le_left _ _
  · cases hread : r.isUnread s.marks with
    | false => exact .inr rfl
    | true =>
        have hcases : (∃ r' ∈ window, r.streamOrdering ≤ r'.streamOrdering) ∨
            found < pushLimit ∧ r.streamOrdering ≤ start :=
          hcases.imp_left fun ⟨r', hr', hle⟩ => ⟨r', hmem hr', hle⟩
        rcases hpass.gap r hr hlast hcases with hwindow | hread'
        · exact .inl (mem_earliest_of_length_le ((List.length_filter_le _ _).trans hpass.length_le)
            (List.mem_filter.2 ⟨hwindow, hread⟩))
        · rw [hread] at hread'
          cases hread'

/-! ### The steps keep it -/

variable {q : HttpPusher} {stored : Option PusherConfig} {a : Move} {b : Act}

theorem placed_moveAt (ht : Tables s) (hp : Placed s p) (hproc : p.processing = some (start, stage))
    (h : p.moveAt s start stage a = some (q, stored)) : Placed s q := by
  have hs := hp.sound
  have hpass := hp.pass start stage hproc
  unfold HttpPusher.moveAt at h
  split at h
  · -- the rows
    split at h <;> cases h
    · exact placed_waitAt { hs with } hproc (pass_window ht hpass.start_le rfl)
    · exact placed_raised hs hproc
  · -- the receipts
    split at h <;> cases h
    · exact placed_next hs hproc (pass_unread hpass)
    · exact placed_raised hs hproc
  · -- a push
    split at h
    · cases h
      exact placed_waitAt (sound_settle hs hpass) hproc (pass_settle hpass)
    · cases h
      exact placed_waitAt (sound_settle hs hpass) hproc (pass_settle hpass)
    · split at h <;> cases h
      · exact placed_judge hs hproc hpass
      · exact placed_waitAt { hs with } hproc { hpass with }
    · cases h
      exact placed_raised hs hproc
  · -- a push is saved
    split at h
    · split at h
      · cases h
        exact placed_finished { hs with due_le := fun _ h => by cases h } hproc
          fun _ _ _ => .inr (.inr (.inr (.inl rfl)))
      · dsimp only at h
        split at h <;> cases h
        · exact placed_waitAt { hs with } hproc { hpass with }
        · exact placed_next hs hproc hpass
    · cases h
      exact placed_raised hs hproc
  · split at h <;> cases h
    · exact placed_next hs hproc hpass
    · exact placed_raised hs hproc
  · split at h <;> cases h
    · exact placed_judge hs hproc hpass
    · exact placed_raised hs hproc
  · -- a row is given up
    split at h
    · obtain ⟨row, -, h⟩ := Option.map_eq_some_iff.1 h
      cases h
      exact placed_waitAt { hs with } hproc { hpass with }
    · cases h
      exact placed_raised hs hproc
  · cases h

theorem placed_move (ht : Tables s) (hp : Placed s p) (h : p.move s a = some (q, stored)) :
    Placed s q := by
  have hs := hp.sound
  unfold HttpPusher.move at h
  split at h
  · -- `_start_pusher` goes on
    split at h
    · cases h
    · split at h <;> cases h
      · unfold HttpPusher.onStarted
        dsimp only
        split
        · exact placed_startProcessing { hs with } fun _ _ h => { hp.pass _ _ h with }
        · rename_i hnone
          rw [decide_eq_true_iff, not_or] at hnone
          refine ⟨{ hs with }, fun _ _ h => { hp.pass _ _ h with }, fun _ _ _ => ?_⟩
          exact .inr (.inl fun r hr hlast _ => absurd ⟨r, hr, hlast⟩ hnone.2)
      · exact ⟨{ hs with }, fun _ _ h => { hp.pass _ _ h with },
          fun _ _ _ => .inr (.inr (.inl rfl))⟩
  · -- more is there
    split at h <;> cases h
    rename_i htoken
    refine placed_startProcessing { hs with max_le := max_le htoken.2 hs.max_le } fun _ _ h => ?_
    have hpass := hp.pass _ _ h
    exact { hpass with start_le := hpass.start_le.trans (le_max_right _ _) }
  · obtain ⟨due, -, h⟩ := Option.bind_eq_some_iff.1 h
    obtain ⟨-, -, h⟩ := Option.bind_eq_some_iff.1 h
    cases h
    exact placed_startProcessing { hs with due_le := fun _ h => by cases h } fun _ _ h =>
      { hp.pass _ _ h with }
  · obtain ⟨due, -, h⟩ := Option.bind_eq_some_iff.1 h
    obtain ⟨-, -, h⟩ := Option.bind_eq_some_iff.1 h
    cases h
    exact placed_startProcessing { hs with } fun _ _ h => { hp.pass _ _ h with }
  · obtain ⟨⟨start, stage⟩, hproc, h⟩ := Option.bind_eq_some_iff.1 h
    exact placed_moveAt ht hp hproc h

/-- What may happen to the tables beside a pusher: time passes, rows come above the token, and go;
the token rises, and receipts come. -/
structure Grows (s t : Server) : Prop where
  now : s.now ≤ t.now
  rows : ∀ r ∈ t.rows, r ∈ s.rows ∨ s.token < r.streamOrdering
  token : s.token ≤ t.token
  marks : s.marks ⊆ t.marks

theorem Grows.unread (hst : Grows s t) (ht : Tables s) (hr : r ∈ s.rows)
    (hread : r.isUnread s.marks = false) : r.isUnread t.marks = false :=
  isUnread_mono hst.marks (ht.pos r hr) hread

/-- **What happens beside an object leaves it what it keeps.** -/
theorem Placed.grows (hst : Grows s t) (ht : Tables s) (hp : Placed s p) : Placed t p := by
  have hs := hp.sound
  refine ⟨⟨hs.backoff_le, fun due h => (hs.due_le due h).trans (Int.add_le_add_right hst.now _),
    hs.first_le, hs.last_le.trans hst.token, hs.max_le.trans hst.token, hs.sorted, hs.range,
    fun r hr hfirst hle => ?_⟩, fun start stage h => ?_, fun h hpooled hstarted => ?_⟩
  · rcases hst.rows r hr with hold | hnew
    · exact (hs.passed r hold hfirst hle).imp_right (hst.unread ht hold)
    · exact absurd (hle.trans hs.last_le) (not_le.2 hnew)
  · have hpass := hp.pass start stage h
    refine { hpass with gap := fun r hr hlast hcases => ?_ }
    rcases hst.rows r hr with hold | hnew
    · exact (hpass.gap r hold hlast hcases).imp_right (hst.unread ht hold)
    · -- the pass began before the row came
      have hstart : start < r.streamOrdering := (hpass.start_le.trans hs.max_le).trans_lt hnew
      rcases hcases with ⟨r', hr', hle⟩ | ⟨-, hle⟩
      · exact absurd (hle.trans (hpass.range r' hr').2) (not_le.2 hstart)
      · exact absurd hle (not_le.2 hstart)
  · refine (hp.rest h hpooled hstarted).imp_right (Or.imp_left fun hdate r hr hlast hle => ?_)
    rcases hst.rows r hr with hold | hnew
    · exact hst.unread ht hold (hdate r hold hlast hle)
    · exact absurd (hle.trans hs.max_le) (not_le.2 hnew)

theorem placed_stopped (hp : Placed s p) : Placed s p.stopped := by
  unfold HttpPusher.stopped
  split
  · exact ⟨{ hp.sound with due_le := fun _ h => by cases h }, fun _ _ h => { hp.pass _ _ h with },
      fun _ h => by cases h⟩
  · exact hp

theorem placed_new {last token : ℤ} {failingSince : Option ℤ} (hlast : last ≤ s.token)
    (htoken : token ≤ s.token) : Placed s (HttpPusher.new last failingSince token) where
  sound :=
    { backoff_le := initialBackoffSec_le
      due_le := fun _ h => by cases h
      first_le := le_rfl
      last_le := hlast
      max_le := htoken
      sorted := List.Pairwise.nil
      range := fun e he => by cases he
      passed := fun r _ hfirst hle => absurd hle (not_le.2 hfirst) }
  pass := fun _ _ h => by cases h
  rest := fun _ _ h => by cases h

/-- What a server keeps. -/
structure Ordered (s : Server) : Prop where
  tables : Tables s
  placed : ∀ p ∈ s.pushers, Placed s p

/-- A step beside the objects, which they all keep. -/
theorem Ordered.grows (hs : Ordered s) (hst : Grows s t) (ht : Tables t)
    (hpushers : ∀ p ∈ t.pushers, p ∈ s.pushers) : Ordered t :=
  ⟨ht, fun p hp => (hs.placed p (hpushers p hp)).grows hst hs.tables⟩

/-- What a step of an object writes to `pushers`: nothing, where the object is, or a failure. -/
inductive Written (s : Server) (p : HttpPusher) : Option PusherConfig → Prop
  | nothing : Written s p s.stored
  | ordering (row : PusherConfig) (hrow : s.stored = some row) :
      Written s p (some { row with lastStreamOrdering := p.lastStreamOrdering })
  | failing (failingSince : Option ℤ) :
      Written s p (s.stored.map fun row => { row with failingSince := failingSince })

theorem written_moveAt (h : p.moveAt s start stage a = some (q, stored)) : Written s p stored := by
  unfold HttpPusher.moveAt at h
  split at h
  · split at h <;> cases h <;> exact .nothing
  · split at h <;> cases h <;> exact .nothing
  · split at h
    · cases h
      exact .nothing
    · cases h
      exact .nothing
    · split at h <;> cases h <;> exact .nothing
    · cases h
      exact .nothing
  · split at h
    · split at h
      · rename_i hnone
        cases h
        exact hnone ▸ .nothing
      · rename_i row hrow
        dsimp only at h
        split at h <;> cases h <;> exact .ordering row hrow
    · cases h
      exact .nothing
  · split at h <;> cases h
    · exact .failing none
    · exact .nothing
  · split at h <;> cases h
    · exact .failing p.failingSince
    · exact .nothing
  · split at h
    · obtain ⟨row, hrow, h⟩ := Option.map_eq_some_iff.1 h
      cases h
      exact .ordering row hrow
    · cases h
      exact .nothing
  · cases h

theorem written_move (h : p.move s a = some (q, stored)) : Written s p stored := by
  unfold HttpPusher.move at h
  split at h
  · split at h
    · cases h
    · split at h <;> cases h <;> exact .nothing
  · split at h <;> cases h
    exact .nothing
  · obtain ⟨due, -, h⟩ := Option.bind_eq_some_iff.1 h
    obtain ⟨-, -, h⟩ := Option.bind_eq_some_iff.1 h
    cases h
    exact .nothing
  · obtain ⟨due, -, h⟩ := Option.bind_eq_some_iff.1 h
    obtain ⟨-, -, h⟩ := Option.bind_eq_some_iff.1 h
    cases h
    exact .nothing
  · obtain ⟨⟨start, stage⟩, -, h⟩ := Option.bind_eq_some_iff.1 h
    exact written_moveAt h

/-- The pusher in the table is not ahead of the token. -/
theorem Written.le_token (h : Written s p stored) (hlast : p.lastStreamOrdering ≤ s.token)
    (hs : ∀ row ∈ s.stored, row.lastStreamOrdering ≤ s.token) :
    ∀ row ∈ stored, row.lastStreamOrdering ≤ s.token := by
  cases h with
  | nothing => exact hs
  | ordering row hrow =>
      intro row' hrow'
      cases hrow'
      exact hlast
  | failing failingSince =>
      intro row hrow
      obtain ⟨config, hconfig, rfl⟩ := Option.map_eq_some_iff.1 hrow
      exact hs config hconfig

theorem Written.isSome_eq (h : Written s p stored) : stored.isSome = s.stored.isSome := by
  cases h with
  | nothing => rfl
  | ordering row hrow => rw [hrow]; rfl
  | failing failingSince => exact Option.isSome_map

theorem Ordered.step (hs : Ordered s) (h : step s b = some t) : Ordered t := by
  have ht := hs.tables
  have hself : Grows s s := ⟨le_rfl, fun _ hr => .inl hr, le_rfl, List.Subset.refl _⟩
  cases b with
  | tick ms =>
      cases h
      exact hs.grows { hself with now := Int.le_add_of_nonneg_right (Int.natCast_nonneg ms) }
        { ht with } fun _ hp => hp
  | persist row =>
      simp only [Delivery.step] at h
      split at h <;> cases h
      rename_i hrow
      refine hs.grows { hself with rows := fun r hr => ?_ } { ht with keys := ?_, pos := ?_ }
        fun _ hp => hp
      · rcases List.mem_cons.1 hr with rfl | hr
        · exact .inr hrow.1
        · exact .inl hr
      · refine List.nodup_cons.2 ⟨fun hmem => ?_, ht.keys⟩
        obtain ⟨r, hr, heq⟩ := List.mem_map.1 hmem
        exact hrow.2 r hr heq
      · rintro r (_ | ⟨_, hr⟩)
        · exact ht.token.trans_lt hrow.1
        · exact ht.pos r hr
  | advance token =>
      simp only [Delivery.step] at h
      split at h <;> cases h
      rename_i htoken
      exact hs.grows { hself with token := htoken }
        { ht with
          token := ht.token.trans htoken
          stored := fun row hrow => (ht.stored row hrow).trans htoken } fun _ hp => hp
  | read mark =>
      cases h
      exact hs.grows { hself with marks := List.subset_cons_self _ _ } { ht with } fun _ hp => hp
  | rotate i =>
      cases h
      refine hs.grows { hself with rows := fun r hr => .inl (List.mem_of_mem_eraseIdx hr) }
        { ht with
          keys := ht.keys.sublist ((List.eraseIdx_sublist _ _).map _)
          pos := fun r hr => ht.pos r (List.mem_of_mem_eraseIdx hr) } fun _ hp => hp
  | set last =>
      simp only [Delivery.step] at h
      split at h <;> cases h
      rename_i hlast
      refine hs.grows { hself with } { ht with stored := fun row hrow => ?_ } fun _ hp => hp
      cases hrow
      exact hlast
  | delete =>
      cases h
      exact hs.grows { hself with } { ht with stored := fun row hrow => by cases hrow }
        fun _ hp => hp
  | start =>
      obtain ⟨row, hrow, rfl⟩ := Option.map_eq_some_iff.1 h
      refine ⟨{ ht with }, fun p hp => ?_⟩
      have hp : Placed s p := by
        rcases List.mem_append.1 hp with hp | hp
        · obtain ⟨q, hq, rfl⟩ := List.mem_map.1 hp
          exact placed_stopped (hs.placed q hq)
        · obtain rfl := List.mem_singleton.1 hp
          exact placed_new (ht.stored row hrow) le_rfl
      exact hp.grows { hself with } ht
  | stop =>
      cases h
      refine ⟨{ ht with }, fun p hp => ?_⟩
      obtain ⟨q, hq, rfl⟩ := List.mem_map.1 hp
      exact (placed_stopped (hs.placed q hq)).grows { hself with } ht
  | restart =>
      cases h
      exact hs.grows { hself with } { ht with } fun p hp => by cases hp
  | move i a =>
      obtain ⟨p, hp, h⟩ := Option.bind_eq_some_iff.1 h
      obtain ⟨⟨q, stored⟩, hmove, h⟩ := Option.bind_eq_some_iff.1 h
      cases h
      have hplaced := hs.placed p (List.mem_of_getElem? hp)
      refine ⟨{ ht with stored := (written_move hmove).le_token hplaced.sound.last_le ht.stored },
        fun p' hp' => ?_⟩
      have hp' : Placed s p' := by
        rcases List.mem_or_eq_of_mem_set hp' with hp' | rfl
        · exact hs.placed p' hp'
        · exact placed_move ht hplaced hmove
      exact hp'.grows { hself with } ht

section Runs

variable {as : List Act}

theorem ordered_of_run (h : Exec step (fun _ _ => True) .init as s) : Ordered s :=
  h.invariant
    ⟨⟨le_rfl, List.nodup_nil, fun r hr => (by cases hr), fun row hrow => (by cases hrow)⟩,
      fun p hp => (by cases hp)⟩
    fun _ _ _ hs _ hstep => hs.step hstep

/-- **The pushes go out in order, and none is passed over.**  In every run, with queries, updates
and pushes that raise, receipts and rotations in between, pushers that are set again and restarts:
each object settles rows in the order of the stream, so none twice; and every row between where it
began and where it is was settled by it or is read. -/
theorem delivered_in_order (h : Exec step (fun _ _ => True) .init as s) (hp : p ∈ s.pushers) :
    p.settled.Pairwise (fun e e' => e'.row.streamOrdering < e.row.streamOrdering) ∧
      (∀ e ∈ p.settled, p.first < e.row.streamOrdering ∧
        e.row.streamOrdering ≤ p.lastStreamOrdering) ∧
      ∀ r ∈ s.rows, p.first < r.streamOrdering → r.streamOrdering ≤ p.lastStreamOrdering →
        (∃ e ∈ p.settled, e.row = r) ∨ r.isUnread s.marks = false := by
  have hs := ((ordered_of_run h).placed p hp).sound
  exact ⟨hs.sorted, hs.range, hs.passed⟩

/-- A row with a push, of that event. -/
def pushOf (streamOrdering : ℤ) : PushRow :=
  { eventId := "$event"
    roomId := "!room"
    streamOrdering := streamOrdering
    actions := [.str (py "notify")]
    threadId := "main" }

/-- A pusher that was set and found nothing yet. -/
def startedRun : List Act :=
  [.tick 1, .set 0, .start, .move 0 (.started true), .move 0 (.rows true), .move 0 (.receipts true)]

/-- Three pushes come, not in order; the one in the middle is read while its turn comes, and the
pusher goes through them. -/
def threePushes : List Act :=
  startedRun ++
  [.persist (pushOf 5), .persist (pushOf 3), .persist (pushOf 4), .advance 5, .move 0 (.notify 5),
    .move 0 (.rows true), .move 0 (.receipts true), .move 0 (.one .accepted), .move 0 (.saved true),
    .read ⟨"!room", none, 4⟩, .move 0 (.one .skipped), .move 0 (.saved true),
    .move 0 (.one .accepted), .move 0 (.saved true)]

theorem three_pushes_in_order :
    ∃ s, Exec step (fun _ _ => True) .init threePushes s ∧ ∃ p ∈ s.pushers,
      p.settled.map (fun e => (e.row.streamOrdering, e.fate)) =
          [(5, .accepted), (4, .skipped), (3, .accepted)] ∧
        p.settled.Pairwise fun e e' => e'.row.streamOrdering < e.row.streamOrdering := by
  obtain ⟨s, hrun, p, hp, hsettled⟩ : ∃ s, Exec step (fun _ _ => True) .init threePushes s ∧
      ∃ p ∈ s.pushers, p.settled.map (fun e => (e.row.streamOrdering, e.fate)) =
        [(5, .accepted), (4, .skipped), (3, .accepted)] := exists_exec_of_runs (by decide +kernel)
  exact ⟨s, hrun, p, hp, hsettled, (delivered_in_order hrun hp).1⟩

end Runs

/-! ### What is given up -/

/-- The row that was processed last is not saved yet. -/
def HttpPusher.saving (p : HttpPusher) : Bool :=
  match p.processing with
  | some (_, .saving _) => true
  | _ => false

/-- What a step does to what became of the rows and to `failing_since`: nothing, or no failure is
there any more, or there is one from now on; a row was processed; or it is given up. -/
inductive Change (s : Server) (p q : HttpPusher) : Prop
  | same (hsettled : q.settled = p.settled) (hfailing : q.failingSince = p.failingSince)
      (hsaving : q.saving = false → p.saving = false)
  | cleared (hsettled : q.settled = p.settled) (hfailing : isSet q.failingSince = false)
  | noted (hsettled : q.settled = p.settled) (hfailing : q.failingSince = some s.now)
  | processed (row : PushRow) (fate : Fate) (hfate : fate ≠ .dropped)
      (hsettled : q.settled = ⟨row, fate, s.now⟩ :: p.settled) (hsaving : q.saving = true)
  | dropped (row : PushRow) (hsettled : q.settled = ⟨row, .dropped, s.now⟩ :: p.settled)
      (hfailing : q.failingSince = p.failingSince) (hsaving : p.saving = false)
      (hset : isSet p.failingSince = true)
      (hlong : p.failingSince.getD 0 < s.now - giveUpAfterMs)

section Parts

variable (p)

@[simp]
theorem finished_settled (ended : PassEnd) : (p.finished ended).settled = p.settled := by
  unfold HttpPusher.finished HttpPusher.begun
  split
  · rfl
  · dsimp only
    split <;> rfl

@[simp]
theorem finished_failingSince (ended : PassEnd) :
    (p.finished ended).failingSince = p.failingSince := by
  unfold HttpPusher.finished HttpPusher.begun
  split
  · rfl
  · dsimp only
    split <;> rfl

@[simp]
theorem next_settled (rest : List PushRow) : (p.next rest).settled = p.settled := by
  cases rest with
  | nil => exact finished_settled p _
  | cons row rest => rfl

@[simp]
theorem next_failingSince (rest : List PushRow) : (p.next rest).failingSince = p.failingSince := by
  cases rest with
  | nil => exact finished_failingSince p _
  | cons row rest => rfl

@[simp]
theorem startProcessing_settled : p.startProcessing.settled = p.settled := by
  unfold HttpPusher.startProcessing HttpPusher.begun
  split
  · rfl
  · split <;> rfl

@[simp]
theorem startProcessing_failingSince : p.startProcessing.failingSince = p.failingSince := by
  unfold HttpPusher.startProcessing HttpPusher.begun
  split
  · rfl
  · split <;> rfl

end Parts

theorem saving_of_processing (hproc : p.processing = some (start, stage))
    (hstage : ∀ rest, stage ≠ .saving rest) : p.saving = false := by
  unfold HttpPusher.saving
  rw [hproc]
  cases stage with
  | saving rest => exact absurd rfl (hstage rest)
  | _ => rfl

theorem saving_waitAt {rest : List PushRow} (hproc : p.processing = some (start, stage)) :
    (p.waitAt (.saving rest)).saving = true := by
  unfold HttpPusher.saving HttpPusher.waitAt
  rw [hproc]
  rfl

theorem change_finished {ended : PassEnd} (hsaving : p.saving = false) :
    Change s p (p.finished ended) :=
  .same (finished_settled _ _) (finished_failingSince _ _) fun _ => hsaving

theorem change_startProcessing {p₀ : HttpPusher} (hsettled : p.settled = p₀.settled)
    (hfailing : p.failingSince = p₀.failingSince) (hprocessing : p.processing = p₀.processing) :
    Change s p₀ p.startProcessing := by
  refine .same ((startProcessing_settled p).trans hsettled)
    ((startProcessing_failingSince p).trans hfailing) ?_
  unfold HttpPusher.saving
  rw [← hprocessing]
  cases hproc : p.processing with
  | none => exact fun _ => rfl
  | some e =>
      intro h
      rwa [HttpPusher.startProcessing, if_pos (by rw [hproc]; rfl), hproc] at h

/-- A failure, after which the row is given up or waited with. -/
theorem change_judge (row : PushRow) (rest : List PushRow) (hsaving : p.saving = false) :
    Change s p (p.judge s.now row rest) := by
  unfold HttpPusher.judge
  split
  · rename_i hlong
    exact .dropped row rfl rfl hsaving hlong.1 hlong.2
  · exact .same (finished_settled _ _) (finished_failingSince _ _) fun _ => hsaving

theorem change_moveAt (hproc : p.processing = some (start, stage)) (hstored : s.stored.isSome = true)
    (hsaved : a ≠ .saved false) (h : p.moveAt s start stage a = some (q, stored)) :
    Change s p q := by
  unfold HttpPusher.moveAt at h
  split at h
  · have hsaving := saving_of_processing hproc fun _ => by simp
    split at h <;> cases h
    · exact .same rfl rfl fun _ => hsaving
    · exact change_finished hsaving
  · have hsaving := saving_of_processing hproc fun _ => by simp
    split at h <;> cases h
    · exact .same (next_settled _ _) (next_failingSince _ _) fun _ => hsaving
    · exact change_finished hsaving
  · have hsaving := saving_of_processing hproc fun _ => by simp
    split at h
    · cases h
      exact .processed _ .skipped (by simp) rfl (saving_waitAt hproc)
    · cases h
      exact .processed _ .accepted (by simp) rfl (saving_waitAt hproc)
    · split at h <;> cases h
      · exact change_judge _ _ hsaving
      · exact .noted rfl rfl
    · cases h
      exact change_finished hsaving
  · -- the row that was processed is saved, and no failure is there any more
    rename_i ok
    cases ok with
    | false => exact absurd rfl hsaved
    | true =>
        obtain ⟨row, hrow⟩ := Option.isSome_iff_exists.1 hstored
        rw [if_pos rfl, hrow] at h
        dsimp only at h
        split at h <;> cases h
        · exact .cleared rfl rfl
        · rename_i hset
          refine .cleared (next_settled _ _) ?_
          rw [next_failingSince]
          exact Bool.eq_false_iff.2 hset
  · have hsaving := saving_of_processing hproc fun _ => by simp
    split at h <;> cases h
    · exact .same (next_settled _ _) (next_failingSince _ _) fun _ => hsaving
    · exact change_finished hsaving
  · have hsaving := saving_of_processing hproc fun _ => by simp
    split at h <;> cases h
    · exact change_judge _ _ hsaving
    · exact change_finished hsaving
  · have hsaving := saving_of_processing hproc fun _ => by simp
    split at h
    · obtain ⟨row, -, h⟩ := Option.map_eq_some_iff.1 h
      cases h
      exact .cleared rfl rfl
    · cases h
      exact change_finished hsaving
  · cases h

theorem change_move (hstored : s.stored.isSome = true) (hsaved : a ≠ .saved false)
    (h : p.move s a = some (q, stored)) : Change s p q := by
  unfold HttpPusher.move at h
  split at h
  · split at h
    · cases h
    · split at h <;> cases h
      · unfold HttpPusher.onStarted
        dsimp only
        split
        · exact change_startProcessing rfl rfl rfl
        · exact .same rfl rfl fun h => h
      · exact .same rfl rfl fun h => h
  · split at h <;> cases h
    exact change_startProcessing rfl rfl rfl
  · obtain ⟨due, -, h⟩ := Option.bind_eq_some_iff.1 h
    obtain ⟨-, -, h⟩ := Option.bind_eq_some_iff.1 h
    cases h
    exact change_startProcessing rfl rfl rfl
  · obtain ⟨due, -, h⟩ := Option.bind_eq_some_iff.1 h
    obtain ⟨-, -, h⟩ := Option.bind_eq_some_iff.1 h
    cases h
    exact change_startProcessing rfl rfl rfl
  · obtain ⟨⟨start, stage⟩, hproc, h⟩ := Option.bind_eq_some_iff.1 h
    exact change_moveAt hproc hstored hsaved h

/-- **A row is given up only after a day.**  The rows that an object processed were processed before
the failure that it counts from; so where it gives a row up, it has processed none for a day. -/
structure Patient (now : ℤ) (p : HttpPusher) : Prop where
  past : ∀ e ∈ p.settled, e.time ≤ now
  spent : p.saving = false → isSet p.failingSince = true → ∀ e ∈ p.settled, e.fate ≠ .dropped →
    e.time ≤ p.failingSince.getD 0
  dropped : p.settled.Pairwise fun e e' => e.fate = .dropped → e'.fate ≠ .dropped →
    e'.time < e.time - giveUpAfterMs

theorem Patient.change (hp : Patient s.now p) (h : Change s p q) : Patient s.now q := by
  cases h with
  | same hsettled hfailing hsaving =>
      refine ⟨?_, fun hq => ?_, ?_⟩
      · rw [hsettled]
        exact hp.past
      · rw [hsettled, hfailing]
        exact hp.spent (hsaving hq)
      · rw [hsettled]
        exact hp.dropped
  | cleared hsettled hfailing =>
      refine ⟨?_, fun _ hset => ?_, ?_⟩
      · rw [hsettled]
        exact hp.past
      · rw [hfailing] at hset
        cases hset
      · rw [hsettled]
        exact hp.dropped
  | noted hsettled hfailing =>
      refine ⟨?_, fun _ _ => ?_, ?_⟩
      · rw [hsettled]
        exact hp.past
      · rw [hsettled, hfailing]
        exact fun e he _ => hp.past e he
      · rw [hsettled]
        exact hp.dropped
  | processed row fate hfate hsettled hsaving =>
      refine ⟨?_, fun hq => ?_, ?_⟩
      · rw [hsettled]
        exact List.forall_mem_cons.2 ⟨le_rfl, hp.past⟩
      · rw [hsaving] at hq
        cases hq
      · rw [hsettled]
        exact List.pairwise_cons.2 ⟨fun _ _ hdropped => absurd hdropped hfate, hp.dropped⟩
  | dropped row hsettled hfailing hsaving hset hlong =>
      have hspent := hp.spent hsaving hset
      refine ⟨?_, fun _ _ => ?_, ?_⟩
      · rw [hsettled]
        exact List.forall_mem_cons.2 ⟨le_rfl, hp.past⟩
      · rw [hsettled, hfailing]
        exact List.forall_mem_cons.2 ⟨fun hne => absurd rfl hne, hspent⟩
      · rw [hsettled]
        exact List.pairwise_cons.2
          ⟨fun e he _ hne => (hspent e he hne).trans_lt hlong, hp.dropped⟩

theorem Patient.stopped {now : ℤ} (hp : Patient now p) : Patient now p.stopped := by
  unfold HttpPusher.stopped
  split
  · exact { hp with }
  · exact hp

/-- What a server keeps while the pusher is not deleted and every update after a push is made. -/
structure Lasting (s : Server) : Prop where
  stored : s.pushers ≠ [] → s.stored.isSome = true
  patient : ∀ p ∈ s.pushers, Patient s.now p

theorem Lasting.step (hs : Lasting s) (hdelete : b ≠ .delete)
    (hsaved : ∀ i, b ≠ .move i (.saved false)) (h : step s b = some t) : Lasting t := by
  cases b with
  | tick ms =>
      cases h
      refine ⟨hs.stored, fun p hp => ?_⟩
      have hpatient := hs.patient p hp
      exact { hpatient with
        past := fun e he => (hpatient.past e he).trans
          (Int.le_add_of_nonneg_right (Int.natCast_nonneg ms)) }
  | persist row =>
      simp only [Delivery.step] at h
      split at h <;> cases h
      exact { hs with }
  | advance token =>
      simp only [Delivery.step] at h
      split at h <;> cases h
      exact { hs with }
  | read mark =>
      cases h
      exact { hs with }
  | rotate i =>
      cases h
      exact { hs with }
  | set last =>
      simp only [Delivery.step] at h
      split at h <;> cases h
      exact ⟨fun _ => rfl, hs.patient⟩
  | delete => exact absurd rfl hdelete
  | start =>
      obtain ⟨row, hrow, rfl⟩ := Option.map_eq_some_iff.1 h
      refine ⟨fun _ => Option.isSome_of_eq_some hrow, fun p hp => ?_⟩
      rcases List.mem_append.1 hp with hp | hp
      · obtain ⟨q, hq, rfl⟩ := List.mem_map.1 hp
        exact (hs.patient q hq).stopped
      · obtain rfl := List.mem_singleton.1 hp
        exact ⟨fun e he => (by cases he), fun _ _ e he => (by cases he), List.Pairwise.nil⟩
  | stop =>
      cases h
      refine ⟨fun hne => hs.stored fun hnil => hne (by rw [hnil]; rfl), fun p hp => ?_⟩
      obtain ⟨q, hq, rfl⟩ := List.mem_map.1 hp
      exact (hs.patient q hq).stopped
  | restart =>
      cases h
      exact ⟨fun hne => absurd rfl hne, fun p hp => (by cases hp)⟩
  | move i a =>
      obtain ⟨p, hp, h⟩ := Option.bind_eq_some_iff.1 h
      obtain ⟨⟨q, stored⟩, hmove, h⟩ := Option.bind_eq_some_iff.1 h
      cases h
      have hmem : p ∈ s.pushers := List.mem_of_getElem? hp
      have hstored := hs.stored (List.ne_nil_of_mem hmem)
      refine ⟨fun _ => (written_move hmove).isSome_eq.trans hstored, fun p' hp' => ?_⟩
      rcases List.mem_or_eq_of_mem_set hp' with hp' | rfl
      · exact hs.patient p' hp'
      · exact (hs.patient p hmem).change
          (change_move hstored (fun ha => hsaved i (congrArg _ ha)) hmove)

section Runs

variable {as : List Act}

/-- **A push is given up only after a day of failures.**  In every run in which the pusher is not
deleted and each update after a push is made: where an object gives a row up, more than a day has
gone by since it last processed one. -/
theorem given_up_after_a_day
    (h : Exec step (fun _ b => b ≠ .delete ∧ ∀ i, b ≠ .move i (.saved false)) .init as s)
    (hp : p ∈ s.pushers) :
    p.settled.Pairwise fun e e' => e.fate = .dropped → e'.fate ≠ .dropped →
      e'.time < e.time - giveUpAfterMs := by
  have hs : Lasting s := h.invariant ⟨fun hne => absurd rfl hne, fun p hp => (by cases hp)⟩
    fun _ _ _ hs hb hstep => hs.step hb.1 hb.2 hstep
  exact (hs.patient p hp).dropped

/-- One push is taken, and the next one fails for more than a day. -/
def givenUpRun : List Act :=
  startedRun ++
  [.persist (pushOf 3), .persist (pushOf 5), .advance 5, .move 0 (.notify 5), .move 0 (.rows true),
    .move 0 (.receipts true), .move 0 (.one .accepted), .move 0 (.saved true),
    .move 0 (.one .failed), .move 0 (.noted true), .tick 86400001, .move 0 .timer,
    .move 0 (.rows true), .move 0 (.receipts true), .move 0 (.one .failed)]

theorem given_up_next_day :
    ∃ s, Exec step (fun _ b => b ≠ .delete ∧ ∀ i, b ≠ .move i (.saved false)) .init givenUpRun s ∧
      ∃ p ∈ s.pushers, p.settled.map (fun e => (e.fate, e.time)) =
          [(.dropped, 86400002), (.accepted, 1)] ∧
        p.settled.Pairwise fun e e' => e.fate = .dropped → e'.fate ≠ .dropped →
          e'.time < e.time - giveUpAfterMs := by
  have hlabels : ∀ b ∈ givenUpRun, b ≠ .delete ∧ ∀ i, b ≠ .move i (.saved false) := by
    intro b hb
    constructor
    · rintro rfl
      simp [givenUpRun, startedRun] at hb
    · rintro i rfl
      simp [givenUpRun, startedRun] at hb
  obtain ⟨s, hrun, p, hp, hsettled⟩ : ∃ s, Exec step (fun _ _ => True) .init givenUpRun s ∧
      ∃ p ∈ s.pushers, p.settled.map (fun e => (e.fate, e.time)) =
        [(.dropped, 86400002), (.accepted, 1)] := exists_exec_of_runs (by decide +kernel)
  have hrun := (hrun.and_mem hlabels).mono fun _ _ h => h.2
  exact ⟨s, hrun, p, hp, hsettled, given_up_after_a_day hrun hp⟩

end Runs

end Delivery
end Push
end Liza
