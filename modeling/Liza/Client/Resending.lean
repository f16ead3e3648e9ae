/-
# Sending a failed message again

`clients/flutter/lib/utils`: `FailedMediaResender` (`resend_failed_media.dart`),
`FailedSendRetryService` (`failed_send_retry_service.dart`), and of `UploadProgressTracker`
(`upload_progress_tracker.dart`) the error kinds and the ids owned by a series.  A failed message
can be sent again by a tap, by the album's button (`resendSequentially`) and by the retry service
after a reconnect; the series of `SendFileDialog._send` resends its own files and keeps the others
away from them.

Everything runs on one event loop, so a step is what runs between two awaits, and the steps are
taken in any order.  An event object is what its holder sees of a message (`Look`), and may be out
of date: each look has its own answers.  A service that was replaced by `initMatrix` no longer
listens, but its `_retryNow` may still wait for its list.  `generateUniqueTransactionId` gives no
id twice.

What is started is logged (`starts`), with whether a series that is going on owned the id then.
-/

import Liza.Client.AlbumSeries
import Liza.Lib.Run

set_option autoImplicit false

namespace Liza
namespace Client
namespace Resending

/-- A transaction id; it is the event id of a message that was not sent. -/
abbrev Txid := String

/-- An event object, as its holder sees it. -/
structure Look where
  eventId : Txid
  /-- `status.isError`. -/
  isError : Bool
  isUnresendableMissingMedia : Bool
deriving DecidableEq

/-- `SyncStatus`. -/
inductive SyncStatus where
  | waitingForResponse
  | processing
  | cleaningUp
  | finished
  | error
deriving DecidableEq

/-- `SyncStatusUpdate`. -/
structure SyncStatusUpdate where
  status : SyncStatus
  /-- The exception is a `SyncConnectionException`. -/
  connectionException : Bool
deriving DecidableEq

/-- `ResendOutcome`. -/
inductive ResendOutcome where
  | started
  | notFailed
  | missingMedia
  | alreadyInFlight
  | ownedBySeries
deriving DecidableEq

/-- Who asked for a resend: a tap, the `q`-th `resendSequentially`, or the `k`-th service. -/
inductive Origin where
  | tap
  | sequence (q : ℕ)
  | auto (k : ℕ)
deriving DecidableEq

/-- A resend: one that runs, or one whose `resendAndWait` has returned. -/
structure Resend where
  id : Txid
  origin : Origin
deriving DecidableEq

/-- A resend that was started. -/
structure Start where
  id : Txid
  origin : Origin
  owned : Bool
deriving DecidableEq

/-- `FailedSendRetryService`. -/
structure Service where
  /-- `_sub` is not cancelled. -/
  subscribed : Bool
  hadConnectionError : Bool
  /-- `_debounceTimer` is running. -/
  debounceTimer : Bool
  autoRetriedTxids : List Txid
  retrying : List Txid
  /-- The number of `_retryNow` that wait for `_failedMediaEvents`. -/
  passes : ℕ
deriving DecidableEq

/-- What a `SendFileDialog._send` has done with its ids. -/
inductive SeriesPhase where
  | generated
  | claimed
  | released
deriving DecidableEq

/-- A `SendFileDialog._send`. -/
structure Series where
  txids : List Txid
  phase : SeriesPhase
deriving DecidableEq

/-- A `resendSequentially`: the events that are left, and whether it waits for one. -/
structure Sequence where
  rest : List Txid
  waiting : Bool
deriving DecidableEq

/-- The resender, the tracker, and all that use them. -/
structure State where
  inFlight : List Txid
  errorKinds : Txid → Option UploadErrorKind
  ownedBySeries : List Txid
  services : List Service
  series : List Series
  sequences : List Sequence
  /-- The resends whose `sendAgain` has not returned. -/
  running : List Resend
  /-- The `resendAndWait` that have returned, before their caller goes on. -/
  returned : List Resend
  starts : List Start

/-- What happens. -/
inductive Act where
  /-- A sync status reaches the `k`-th service. -/
  | status (k : ℕ) (update : SyncStatusUpdate)
  /-- Its debounce timer fires. -/
  | timer (k : ℕ) (isForeground : Bool)
  /-- One of its `_retryNow` gets the list of failed events. -/
  | listed (k : ℕ) (events : List Look)
  /-- The list fails. -/
  | listFailed (k : ℕ)
  /-- A tap on a message. -/
  | tap (event : Look)
  /-- `resendSequentially` begins. -/
  | resendSequentially (ids : List Txid)
  /-- The `q`-th of them comes to its next event. -/
  | next (q : ℕ) (event : Look)
  /-- The `sendAgain` of the `i`-th running resend ends. -/
  | ended (i : ℕ)
  /-- The caller of the `i`-th returned `resendAndWait` goes on. -/
  | goOn (i : ℕ)
  /-- A `SendFileDialog._send` has generated its ids. -/
  | generate (txids : List Txid)
  /-- The `j`-th of them claims its ids. -/
  | claim (j : ℕ)
  /-- It releases them. -/
  | release (j : ℕ)
  /-- `UploadProgressTracker.register`. -/
  | register (id : Txid)
  /-- `UploadProgressTracker.reportErrorKind`. -/
  | reportErrorKind (id : Txid) (kind : UploadErrorKind)
  /-- `initMatrix`: the services there are get disposed, and a new one starts. -/
  | initMatrix

/-- A series that is going on owns the id. -/
def State.owns (s : State) (id : Txid) : Bool :=
  s.series.any fun series => series.phase = .claimed ∧ id ∈ series.txids

/-! ### `FailedMediaResender` -/

/-- `_claim`. -/
def claim (s : State) (event : Look) : ResendOutcome × State :=
  if event.isError = false then (.notFailed, s)
  else if event.isUnresendableMissingMedia then (.missingMedia, s)
  else if event.eventId ∈ s.ownedBySeries then (.ownedBySeries, s)
  else if event.eventId ∈ s.inFlight then (.alreadyInFlight, s)
  else
    (.started, { s with
      inFlight := event.eventId :: s.inFlight
      errorKinds := Function.update s.errorKinds event.eventId none })

/-- `_run`, up to its `sendAgain`. -/
def run (s : State) (id : Txid) (origin : Origin) : State :=
  { s with
    running := s.running ++ [⟨id, origin⟩]
    starts := s.starts ++ [⟨id, origin, s.owns id⟩] }

/-- `resend`. -/
def resend (s : State) (event : Look) : State :=
  match claim s event with
  | (.started, s) => run s event.eventId .tap
  | (_, s) => s

/-- `resendAndWait`, up to its first await. -/
def resendAndWait (s : State) (event : Look) (origin : Origin) : State :=
  match claim s event with
  | (.started, s) => run s event.eventId origin
  | (_, s) => { s with returned := s.returned ++ [⟨event.eventId, origin⟩] }

/-! ### `FailedSendRetryService` -/

/-- `_onStatus`. -/
def onStatus (v : Service) (update : SyncStatusUpdate) : Service :=
  if update.status = .error ∧ update.connectionException = true then
    { v with hadConnectionError := true }
  else if update.status ≠ .finished then v
  else if v.hadConnectionError = false then v
  else { v with hadConnectionError := false, debounceTimer := true }

/-- `canAutoResend`. -/
def canAutoResend (s : State) (event : Look) : Bool :=
  if event.isError = false then false
  else if event.isUnresendableMissingMedia then false
  else if event.eventId ∈ s.ownedBySeries then false
  else if event.eventId ∈ s.inFlight then false
  else s.errorKinds event.eventId ≠ some .terminal

/-- The `k`-th service is changed. -/
def State.setService (s : State) (k : ℕ) (v : Service) : State :=
  { s with services := s.services.set k v }

/-- The body of the loop of `_retryNow`. -/
def retryOne (k : ℕ) (s : State) (event : Look) : State :=
  match s.services[k]? with
  | none => s
  | some v =>
      let txid := event.eventId
      if txid ∈ v.autoRetriedTxids then s
      else if txid ∈ v.retrying then s
      else if canAutoResend s event = false then s
      else
        resendAndWait
          (s.setService k { v with
            autoRetriedTxids := txid :: v.autoRetriedTxids, retrying := txid :: v.retrying })
          event (.auto k)

/-- `_retryNow`, once it has the list. -/
def retryNow (s : State) (k : ℕ) (events : List Look) : State := events.foldl (retryOne k) s

/-- `dispose`. -/
def dispose (v : Service) : Service := { v with subscribed := false, debounceTimer := false }

/-- A service that was just started. -/
def newService : Service := ⟨true, false, false, [], [], 0⟩

/-! ### The steps -/

/-- The caller of a `resendAndWait` goes on: the service takes the id out of `_retrying`
(`whenComplete`), the sequence comes to its next event. -/
def goOn (s : State) (r : Resend) : State :=
  match r.origin with
  | .tap => s
  | .sequence q =>
      { s with sequences := s.sequences.modify q fun seq => { seq with waiting := false } }
  | .auto k =>
      { s with services := s.services.modify k fun v =>
          { v with retrying := v.retrying.filter fun id => id ≠ r.id } }

/-- The `sendAgain` of a resend has ended: the `finally` of `_run`, and `resendAndWait` returns. -/
def ended (s : State) (r : Resend) : State :=
  { s with
    inFlight := s.inFlight.filter fun id => id ≠ r.id
    running := s.running.erase r
    returned := s.returned ++ [r] }

/-- One step. -/
def step (s : State) : Act → Option State
  | .status k update =>
      s.services[k]?.bind fun v =>
        if v.subscribed then some (s.setService k (onStatus v update)) else none
  | .timer k isForeground =>
      s.services[k]?.bind fun v =>
        if v.debounceTimer then
          some (s.setService k { v with
            debounceTimer := false, passes := v.passes + if isForeground then 1 else 0 })
        else none
  | .listed k events =>
      s.services[k]?.bind fun v =>
        if 0 < v.passes then
          some (retryNow (s.setService k { v with passes := v.passes - 1 }) k events)
        else none
  | .listFailed k =>
      s.services[k]?.bind fun v =>
        if 0 < v.passes then some (s.setService k { v with passes := v.passes - 1 }) else none
  | .tap event => some (resend s event)
  | .resendSequentially ids => some { s with sequences := s.sequences ++ [⟨ids, false⟩] }
  | .next q event =>
      match s.sequences[q]? with
      | some ⟨id :: rest, false⟩ =>
          if event.eventId = id then
            some (resendAndWait { s with sequences := s.sequences.set q ⟨rest, true⟩ } event
              (.sequence q))
          else none
      | _ => none
  | .ended i => s.running[i]?.map (ended s)
  | .goOn i => s.returned[i]?.map fun r => goOn { s with returned := s.returned.eraseIdx i } r
  | .generate txids =>
      if txids.Nodup ∧ ∀ id ∈ txids, ∀ series ∈ s.series, id ∉ series.txids then
        some { s with series := s.series ++ [⟨txids, .generated⟩] }
      else none
  | .claim j =>
      match s.series[j]? with
      | some ⟨txids, .generated⟩ =>
          some { s with
            ownedBySeries := txids ++ s.ownedBySeries
            series := s.series.set j ⟨txids, .claimed⟩ }
      | _ => none
  | .release j =>
      match s.series[j]? with
      | some ⟨_, .released⟩ => none
      | some ⟨txids, _⟩ =>
          some { s with
            ownedBySeries := s.ownedBySeries.filter fun id => id ∉ txids
            series := s.series.set j ⟨txids, .released⟩ }
      | none => none
  | .register id => some { s with errorKinds := Function.update s.errorKinds id none }
  | .reportErrorKind id kind =>
      some { s with errorKinds := Function.update s.errorKinds id (some kind) }
  | .initMatrix => some { s with services := s.services.map dispose ++ [newService] }

/-- The app has just started. -/
def start : State := ⟨[], fun _ => none, [], [], [], [], [], [], []⟩

end Resending
end Client
end Liza
