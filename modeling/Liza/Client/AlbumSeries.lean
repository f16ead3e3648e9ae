/-
# Sending the files of an album

`clients/flutter/lib/utils/album_send_series.dart`: `AlbumSendSeries.run`.  The files are prepared
and uploaded one after the other.  A file whose upload failed on the network is kept for another
round (`pendingRetry`); when two of them failed in a row, or the files that are kept are too large
together, the breaker is open: no new file begins before the connection is back.

`run` is the tree of its calls.  What it calls answers as it likes: `prepare` fails or returns a
file, an `upload` is done or fails for good or on the network, `isCancelled` and
`waitForReconnect` answer either way.  A call stands with the variables of `run` at that moment
(`SeriesCall`), for the statements to read.  Loops are over what is left of them: the delays, the
files, the rounds.
-/

import Liza.Lib.Assoc
import Liza.Lib.Task
import Mathlib.Algebra.Ring.Nat

set_option autoImplicit false

namespace Liza
namespace Client

open Lib

/-- `SeriesItemOutcome`. -/
inductive SeriesItemOutcome where
  | sent
  | failedUpload
  | failedPrepare
  | notStarted
  | cancelled
deriving DecidableEq

/-- `UploadErrorKind`. -/
inductive UploadErrorKind where
  | terminal
  | transient
deriving DecidableEq

/-- How an attempt to upload ends; an error counts by `classifyUploadError`. -/
inductive UploadAnswer where
  | done
  | failed (kind : UploadErrorKind)
deriving DecidableEq

/-- The callbacks. -/
inductive SeriesNotice where
  | onPrepareFailed (i : ℕ)
  | onUploadFailed (i : ℕ) (kind : UploadErrorKind)
  | onSent (i : ℕ)
  | onWaiting (indices : List ℕ)
  | onCancelled (i : ℕ)

variable {P : Type}

/-- What `run` calls. -/
inductive SeriesOp (P : Type) where
  | isCancelled (i : ℕ)
  | prepare (i : ℕ)
  | upload (i : ℕ) (prepared : P) (attempt : ℕ)
  | delay (d : ℕ)
  | waitForReconnect
  | notify (notice : SeriesNotice)

/-- The answers; `none` where `prepare` throws. -/
def SeriesOp.Res : SeriesOp P → Type
  | .isCancelled _ => Bool
  | .prepare _ => Option P
  | .upload .. => UploadAnswer
  | .delay _ => Unit
  | .waitForReconnect => Bool
  | .notify _ => Unit

/-- The variables of `run`. -/
structure SeriesVars (P : Type) where
  outcomes : List (Option SeriesItemOutcome)
  pendingRetry : Assoc ℕ P
  streak : ℕ
  rounds : ℕ
  next : ℕ

/-- A call, with the variables at that moment. -/
structure SeriesCall (P : Type) where
  op : SeriesOp P
  vars : SeriesVars P

/-- The answers to a call. -/
def SeriesCall.Res (c : SeriesCall P) : Type := c.op.Res

/-- A part of `run`. -/
abbrev SeriesTask (P : Type) (α : Type) := Task (SeriesCall P) SeriesCall.Res α

namespace SeriesVars

variable (v : SeriesVars P)

/-- `isCancelled(i)`. -/
def isCancelled (i : ℕ) : SeriesTask P Bool := Task.call (⟨.isCancelled i, v⟩ : SeriesCall P)

/-- `prepare(i)`. -/
def prepare (i : ℕ) : SeriesTask P (Option P) := Task.call (⟨.prepare i, v⟩ : SeriesCall P)

/-- `upload(i, prepared, attempt)`. -/
def upload (i : ℕ) (prepared : P) (attempt : ℕ) : SeriesTask P UploadAnswer :=
  Task.call (⟨.upload i prepared attempt, v⟩ : SeriesCall P)

/-- `_delay(d)`. -/
def delay (d : ℕ) : SeriesTask P Unit := Task.call (⟨.delay d, v⟩ : SeriesCall P)

/-- `waitForReconnect()`. -/
def waitForReconnect : SeriesTask P Bool := Task.call (⟨.waitForReconnect, v⟩ : SeriesCall P)

/-- One of the callbacks. -/
def notify (notice : SeriesNotice) : SeriesTask P Unit :=
  Task.call (⟨.notify notice, v⟩ : SeriesCall P)

end SeriesVars

/-- `outcomes[i] = o`. -/
def SeriesVars.setOutcome (v : SeriesVars P) (i : ℕ) (o : SeriesItemOutcome) : SeriesVars P :=
  { v with outcomes := v.outcomes.set i (some o) }

/-- `pendingRetry.remove(i)`. -/
def SeriesVars.unpend (v : SeriesVars P) (i : ℕ) : SeriesVars P :=
  { v with pendingRetry := v.pendingRetry.erase i }

/-- `pendingRetry[i] = prepared`. -/
def SeriesVars.pend (v : SeriesVars P) (i : ℕ) (prepared : P) : SeriesVars P :=
  { v with pendingRetry := v.pendingRetry.set i prepared }

/-- The parameters of a series that are no calls. -/
structure AlbumSendSeries (P : Type) where
  count : ℕ
  sizeOf : P → ℕ
  retryDelays : List ℕ := [2, 5]
  breakerStreak : ℕ := 2
  breakerHeldBytes : ℕ := 256 * 1024 * 1024
  maxWaitRounds : ℕ := 5

namespace AlbumSendSeries

variable (S : AlbumSendSeries P)

/-- `maxAttempts`. -/
def maxAttempts : ℕ := S.retryDelays.length + 1

/-- `heldBytes`. -/
def heldBytes (v : SeriesVars P) : ℕ := (v.pendingRetry.map fun e => S.sizeOf e.2).sum

/-- `breakerOpen`. -/
def breakerOpen (v : SeriesVars P) : Prop :=
  S.breakerStreak ≤ v.streak ∨ S.breakerHeldBytes ≤ S.heldBytes v

instance (v : SeriesVars P) : Decidable (S.breakerOpen v) := inferInstanceAs (Decidable (_ ∨ _))

/-- One attempt of `sendWithRetries`; `again` is what follows a failure on the network. -/
def sendAttempt (i : ℕ) (prepared : P) (v : SeriesVars P) (attempt : ℕ)
    (again : SeriesTask P (Option Bool × SeriesVars P)) :
    SeriesTask P (Option Bool × SeriesVars P) := do
  if (← v.isCancelled i) then
    let v := (v.setOutcome i .cancelled).unpend i
    v.notify (.onCancelled i)
    return (none, v)
  else
    match (← v.upload i prepared attempt) with
    | .done =>
        let v := (v.setOutcome i .sent).unpend i
        v.notify (.onSent i)
        return (some true, v)
    | .failed kind =>
        if (← v.isCancelled i) then
          let v := (v.setOutcome i .cancelled).unpend i
          v.notify (.onCancelled i)
          return (none, v)
        else
          match kind with
          | .terminal =>
              let v := (v.setOutcome i .failedUpload).unpend i
              v.notify (.onUploadFailed i .terminal)
              return (none, v)
          | .transient => again

/-- `sendWithRetries`, with the delays that are left; at the last attempt, the one with the number
`maxAttempts`, there is none. -/
def sendWithRetries (i : ℕ) (prepared : P) (v : SeriesVars P) :
    List ℕ → ℕ → SeriesTask P (Option Bool × SeriesVars P)
  | [], attempt =>
      sendAttempt i prepared v attempt do
        let v := (v.setOutcome i .failedUpload).pend i prepared
        v.notify (.onUploadFailed i .transient)
        return (some false, v)
  | d :: rest, attempt =>
      sendAttempt i prepared v attempt do
        v.delay d
        sendWithRetries i prepared v rest (attempt + 1)

/-- What `processNext` makes of the streak: only a file that was not cancelled says something about
the connection. -/
def countStreak (i : ℕ) (ok : Option Bool) (v : SeriesVars P) : SeriesVars P :=
  if ok = some false then { v with streak := v.streak + 1 }
  else if v.outcomes[i]? ≠ some (some .cancelled) then { v with streak := 0 }
  else v

/-- `processNext`. -/
def processNext (i : ℕ) (v : SeriesVars P) : SeriesTask P (SeriesVars P) := do
  if (← v.isCancelled i) then
    let v := v.setOutcome i .cancelled
    v.notify (.onCancelled i)
    return v
  else
    match (← v.prepare i) with
    | none =>
        if (← v.isCancelled i) then
          let v := v.setOutcome i .cancelled
          v.notify (.onCancelled i)
          return v
        else
          let v := v.setOutcome i .failedPrepare
          v.notify (.onPrepareFailed i)
          return v
    | some prepared =>
        let r ← sendWithRetries i prepared v S.retryDelays 1
        return countStreak i r.1 r.2

/-- The files that begin before the breaker opens; at most `n` are left. -/
def processQueue : ℕ → SeriesVars P → SeriesTask P (SeriesVars P)
  | 0, v => return v
  | n + 1, v =>
      if v.next < S.count ∧ ¬S.breakerOpen v then do
        let v ← S.processNext v.next { v with next := v.next + 1 }
        processQueue n v
      else return v

/-- The files among `is` that are not cancelled. -/
def notCancelled (v : SeriesVars P) : List ℕ → SeriesTask P (List ℕ)
  | [] => return []
  | i :: is => do
      let cancelled ← v.isCancelled i
      let rest ← notCancelled v is
      return if cancelled then rest else i :: rest

/-- The files `is` of `pendingRetry` are sent again, one after the other. -/
def resend : List ℕ → SeriesVars P → SeriesTask P (SeriesVars P)
  | [], v => return v
  | i :: is, v =>
      match v.pendingRetry.get? i with
      | none => .raised
      | some prepared => do
          let r ← sendWithRetries i prepared v S.retryDelays 1
          resend is (if r.1 = some false then { r.2 with streak := r.2.streak + 1 } else r.2)

/-- The files that have not begun. -/
def queue (v : SeriesVars P) : List ℕ := List.range' v.next (S.count - v.next)

/-- The first part of the main loop: what is waiting, the files that failed and those that have not
begun. -/
def sendQueue (v : SeriesVars P) : SeriesTask P (List ℕ × SeriesVars P) := do
  let v ← S.processQueue (S.count - v.next) v
  let rest ← notCancelled v (S.queue v)
  return (v.pendingRetry.map Prod.fst ++ rest, v)

/-- The main loop, where `n` rounds of waiting are left. -/
def mainLoop : ℕ → SeriesVars P → SeriesTask P (SeriesVars P)
  | 0, v => do
      -- nothing is waiting, or `rounds >= maxWaitRounds`
      let r ← S.sendQueue v
      return r.2
  | n + 1, v => do
      let r ← S.sendQueue v
      if r.1 = [] then return r.2
      else
        let v := { r.2 with rounds := r.2.rounds + 1 }
        v.notify (.onWaiting r.1)
        if (← v.waitForReconnect) then
          let v ← S.resend (v.pendingRetry.map Prod.fst).mergeSort { v with streak := 0 }
          mainLoop n v
        else return v

/-- The files that the series gave up. -/
def giveUp : List ℕ → SeriesVars P → SeriesTask P (SeriesVars P)
  | [], v => return v
  | i :: is, v => do
      if (← v.isCancelled i) then
        let v := v.setOutcome i .cancelled
        v.notify (.onCancelled i)
        giveUp is v
      else giveUp is (v.setOutcome i .notStarted)

/-- The variables at the start. -/
def initialVars : SeriesVars P := ⟨List.replicate S.count none, [], 0, 0, 0⟩

/-- `run`. -/
def run : SeriesTask P (List SeriesItemOutcome) := do
  let v ← S.mainLoop S.maxWaitRounds S.initialVars
  let v ← giveUp (S.queue v) v
  match v.outcomes.mapM id with
  | some outcomes => return outcomes
  | none => .raised

end AlbumSendSeries

end Client
end Liza
