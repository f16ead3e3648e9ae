/-
# The read-grace of an HTTP pusher

`servers/synapse/src/synapse/push`: `read_grace_logic.py`, and the batch of
`HttpPusher._unsafe_process` with `_process_one` (`httppusher.py`), up to the call of
`dispatch_push_event`, which stands here as one await with the gateway's answer.  With it
goes the query of `get_last_unthreaded_receipt_for_user_txn`
(`storage/databases/main/receipts.py`).

A batch is a program over the clock and the pusher; everything it awaits is answered by
`Env`, which says for each await by its number how long it took, whether it raised, and
what came back.  A sleep takes its own duration and what the environment adds to it.
Three ghosts are logged beside: the grace sleeps, the grace checks with the time the
batch has by then spent on everything else, and the pushes skipped as read.
-/

import Liza.Lib.Prog
import Liza.Synapse.Rooms
import Mathlib.Algebra.Ring.Int.Defs

set_option autoImplicit false

namespace Liza
namespace Push
namespace ReadGrace

open Lib Synapse

/-! ### `read_grace_logic.py` -/

/-- `read_grace_deadline_ms`. -/
def readGraceDeadlineMs (originServerTs graceMs : ℤ) : ℤ := originServerTs + graceMs

/-- `is_read_within_grace`. -/
def isReadWithinGrace : Option ℤ → ℤ → Bool
  | none, _ => false
  | some receiptEventStreamOrdering, actionStreamOrdering =>
      actionStreamOrdering ≤ receiptEventStreamOrdering

/-! ### The receipts -/

/-- A row of `receipts_linearized`. -/
structure Receipt where
  receiptType : PyStr
  userId : UserId
  roomId : RoomId
  threadId : Option PyStr
  eventId : EventId
  eventStreamOrdering : Option ℤ
deriving DecidableEq

/-- The `WHERE` of the query for the types `m.read` and `m.read.private`. -/
def Receipt.selected (user : UserId) (room : RoomId) (r : Receipt) : Bool :=
  (r.receiptType = py "m.read" ∨ r.receiptType = py "m.read.private") ∧ r.userId = user ∧
    r.roomId = room ∧ r.threadId = none

/-- The row `a` stands before `b` under `ORDER BY event_stream_ordering DESC`.  Where the
`NULL`s stand depends on the database: PostgreSQL has them first, SQLite last. -/
def Receipt.before (nullsFirst : Bool) (a b : Receipt) : Bool :=
  match a.eventStreamOrdering, b.eventStreamOrdering with
  | some x, some y => y < x
  | some _, none => !nullsFirst
  | none, some _ => nullsFirst
  | none, none => false

/-- `ORDER BY … LIMIT 1`. -/
def firstRow (nullsFirst : Bool) : List Receipt → Option Receipt
  | [] => none
  | r :: rows =>
      match firstRow nullsFirst rows with
      | none => some r
      | some r' => some (if r'.before nullsFirst r then r' else r)

/-- `get_last_unthreaded_receipt_for_user_txn`. -/
def getLastUnthreadedReceiptForUser (nullsFirst : Bool) (table : List Receipt) (user : UserId)
    (room : RoomId) : Option (EventId × Option ℤ) :=
  (firstRow nullsFirst (table.filter (Receipt.selected user room))).map fun r =>
    (r.eventId, r.eventStreamOrdering)

/-! ### The batch -/

/-- What the pusher reads of an event. -/
structure Event where
  roomId : RoomId
  originServerTs : ℤ
deriving DecidableEq

/-- `HttpPushAction`. -/
structure HttpPushAction where
  eventId : EventId
  roomId : RoomId
  streamOrdering : ℤ
  actions : List Json

/-- The options of the section `push`, the pusher's user and key, and the database. -/
structure Config where
  pushJitterDelayMs : Option ℤ
  pushReadGraceMs : Option ℤ
  userId : UserId
  pushkey : PyStr
  nullsFirst : Bool

/-- An option that is set, and not to zero. -/
def isSet (x : Option ℤ) : Bool := x.any (· ≠ 0)

/-- The milliseconds of `push_read_grace_ms`; none where the grace is off. -/
def Config.graceMs (cfg : Config) : ℤ := cfg.pushReadGraceMs.getD 0

/-- What the `k`-th await meets. -/
structure Env where
  /-- The time it takes, beyond the duration of a sleep. -/
  elapse : ℕ → ℤ
  raises : ℕ → Bool
  /-- `get_unread_push_actions_for_user_in_range_for_http`. -/
  unprocessed : ℕ → List HttpPushAction
  /-- `get_badge_count`. -/
  badge : ℕ → ℕ
  /-- `get_event`. -/
  event : ℕ → EventId → Option Event
  /-- The number drawn for `random.randint`, before it is brought into range. -/
  draw : ℕ → ℕ
  /-- The table `receipts_linearized`. -/
  receipts : ℕ → List Receipt
  /-- What `dispatch_push_event` returns: `False`, or what the gateway has rejected. -/
  rejected : ℕ → Json
  /-- `update_pusher_last_stream_ordering_and_success`. -/
  pusherStillExists : ℕ → Bool

/-- A grace check: the timestamp of the event, and the time spent since the start of the
batch on anything but grace sleeps. -/
structure Check where
  originServerTs : ℤ
  other : ℤ
deriving DecidableEq

/-- A push skipped as read: the room, the stream ordering of the event, and the receipts
at that moment. -/
structure Skip where
  roomId : RoomId
  streamOrdering : ℤ
  receipts : List Receipt
deriving DecidableEq

/-- What is logged of a batch. -/
structure Log where
  start : ℤ
  graceSleeps : List ℤ
  checks : List Check
  skips : List Skip
  dispatched : List (EventId × ℕ)
deriving DecidableEq

/-- The pusher, the clock in milliseconds, and the number of awaits so far. -/
structure World where
  now : ℤ
  awaits : ℕ
  lastStreamOrdering : ℤ
  failingSince : Option ℤ
  backoffDelay : ℤ
  /-- When the timer goes off. -/
  timedCall : Option ℤ
  log : Log
deriving DecidableEq

/-- The time spent since the start on anything but grace sleeps. -/
def World.other (w : World) : ℤ := w.now - w.log.start - w.log.graceSleeps.sum

/-- `INITIAL_BACKOFF_SEC`, `MAX_BACKOFF_SEC` and `GIVE_UP_AFTER_MS`. -/
def initialBackoffSec : ℤ := 1
def maxBackoffSec : ℤ := 60 * 60
def giveUpAfterMs : ℤ := 24 * 60 * 60 * 1000

/-- One await: time passes, and it may raise; its number is returned. -/
def await (env : Env) : Prog World ℕ := do
  let w ← get
  modify fun w => { w with now := w.now + env.elapse w.awaits, awaits := w.awaits + 1 }
  if env.raises w.awaits then throw () else return w.awaits

/-- `push_tools.get_badge_count`. -/
def getBadgeCount (env : Env) : Prog World ℕ := do
  let k ← await env
  return env.badge k

/-- The sleep of `push_jitter_delay_ms`. -/
def jitterSleep (cfg : Config) (env : Env) (event : Event) : Prog World Unit :=
  match cfg.pushJitterDelayMs.filter (· ≠ 0) with
  | none => return
  | some jitterMs =>
      -- `random.randint` raises on an empty range
      if jitterMs < 1 then throw ()
      else do
        let w ← get
        let delayMs := 1 + (env.draw w.awaits : ℤ) % jitterMs
        let diffMs := event.originServerTs + delayMs - w.now
        if 0 < diffMs then do
          modify fun w => { w with now := w.now + diffMs }
          discard (await env)
        else return

/-- The grace check is logged. -/
def World.check (originServerTs : ℤ) (w : World) : World :=
  { w with log.checks := w.log.checks ++ [⟨originServerTs, w.other⟩] }

/-- The check is logged, and a grace sleep of that many milliseconds. -/
def World.sleep (originServerTs diffMs : ℤ) (w : World) : World :=
  { w with
    now := w.now + diffMs
    log.checks := w.log.checks ++ [⟨originServerTs, w.other⟩]
    log.graceSleeps := w.log.graceSleeps ++ [diffMs] }

/-- The sleep of the read-grace. -/
def graceSleep (cfg : Config) (env : Env) (event : Event) : Prog World Unit := do
  let w ← get
  let graceDiffMs := readGraceDeadlineMs event.originServerTs cfg.graceMs - w.now
  if 0 < graceDiffMs then do
    modify (World.sleep event.originServerTs graceDiffMs)
    discard (await env)
  else modify (World.check event.originServerTs)

/-- The pushes of a batch so far and one more that is skipped. -/
def World.skip (s : Skip) (w : World) : World := { w with log.skips := w.log.skips ++ [s] }

/-- The recheck of the receipt after the sleep: is the push skipped? -/
def readWithinGrace (cfg : Config) (env : Env) (action : HttpPushAction) (event : Event) :
    Prog World Bool := do
  let k ← await env
  let receipt := getLastUnthreadedReceiptForUser cfg.nullsFirst (env.receipts k) cfg.userId
    event.roomId
  if isReadWithinGrace (receipt.bind Prod.snd) action.streamOrdering then do
    modify (World.skip ⟨event.roomId, action.streamOrdering, env.receipts k⟩)
    return true
  else return false

/-- `remove_pusher`, where the rejected key is the pusher's own. -/
def removeOwn (cfg : Config) (env : Env) (pk : Json) : Prog World Unit :=
  if pk = .str cfg.pushkey then discard (await env) else return

/-- The loop over the rejected keys. -/
def removeRejected (cfg : Config) (env : Env) : List Json → Prog World Unit
  | [] => return
  | pk :: rejected => do
      removeOwn cfg env pk
      removeRejected cfg env rejected

/-- `dispatch_push_event`, and what `_process_one` makes of its answer. -/
def dispatchPushEvent (cfg : Config) (env : Env) (action : HttpPushAction) (badge : ℕ) :
    Prog World Bool := do
  modify fun w => { w with log.dispatched := w.log.dispatched ++ [(action.eventId, badge)] }
  let k ← await env
  match env.rejected k with
  | .bool false => return false
  | .arr rejected => do
      removeRejected cfg env rejected
      return true
  | _ => return true

/-- `_process_one`. -/
def processOne (cfg : Config) (env : Env) (action : HttpPushAction) : Prog World Bool :=
  if Json.str (py "notify") ∉ action.actions then return true
  else do
    let badge ← getBadgeCount env
    let k ← await env
    match env.event k action.eventId with
    | none => return true
    | some event => do
        jitterSleep cfg env event
        if isSet cfg.pushReadGraceMs then do
          graceSleep cfg env event
          let read ← readWithinGrace cfg env action event
          if read then return true
          else do
            -- the badge may have changed during the sleep
            let badge ← getBadgeCount env
            dispatchPushEvent cfg env action badge
        else dispatchPushEvent cfg env action badge

/-- `update_pusher_failing_since`. -/
def setFailingSince (env : Env) (failingSince : Option ℤ) : Prog World Unit := do
  modify fun w => { w with failingSince := failingSince }
  discard (await env)

/-- `failing_since` is taken back after a success. -/
def clearFailing (env : Env) : Prog World Unit := do
  let w ← get
  if isSet w.failingSince then setFailingSince env none else return

/-- `failing_since` is set at the first failure. -/
def noteFailing (env : Env) : Prog World Unit := do
  let w ← get
  if isSet w.failingSince then return else setFailingSince env (some w.now)

/-- `_unsafe_process` after an event that was processed: does the batch go on? -/
def afterProcessed (env : Env) (action : HttpPushAction) : Prog World Bool := do
  modify fun w => { w with
    backoffDelay := initialBackoffSec, lastStreamOrdering := action.streamOrdering }
  let k ← await env
  if !env.pusherStillExists k then do
    -- `on_stop`
    modify fun w => { w with timedCall := none }
    return false
  else do
    clearFailing env
    return true

/-- `_unsafe_process` after an event that was not: does the batch go on? -/
def afterFailed (env : Env) (action : HttpPushAction) : Prog World Bool := do
  noteFailing env
  let w ← get
  if isSet w.failingSince ∧ w.failingSince.getD 0 < w.now - giveUpAfterMs then do
    modify fun w => { w with
      backoffDelay := initialBackoffSec, lastStreamOrdering := action.streamOrdering }
    discard (await env)
    setFailingSince env none
    return true
  else do
    modify fun w => { w with
      timedCall := some (w.now + w.backoffDelay * 1000)
      backoffDelay := min (w.backoffDelay * 2) maxBackoffSec }
    return false

/-- `_unsafe_process` after an event: does the batch go on? -/
def afterOne (env : Env) (action : HttpPushAction) (processed : Bool) : Prog World Bool :=
  if processed then afterProcessed env action else afterFailed env action

/-- The loop over the push actions. -/
def processAll (cfg : Config) (env : Env) : List HttpPushAction → Prog World Unit
  | [] => return
  | action :: unprocessed => do
      let processed ← processOne cfg env action
      let goesOn ← afterOne env action processed
      if goesOn then processAll cfg env unprocessed
      else return

/-- `_unsafe_process`. -/
def unsafeProcess (cfg : Config) (env : Env) : Prog World Unit := do
  let k ← await env
  processAll cfg env (env.unprocessed k)

/-- The log of a batch of a pusher in the state `w`, which it enters now. -/
def batchLog (cfg : Config) (env : Env) (w : World) : Log :=
  ((unsafeProcess cfg env).exec { w with log := ⟨w.now, [], [], [], []⟩ }).log

end ReadGrace
end Push
end Liza
