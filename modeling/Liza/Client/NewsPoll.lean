/-
# Votes in polls of the news bot

`clients/flutter/lib/utils/news_poll.dart`: `NewsPollService`.  A vote goes to the device of the bot
and is shown at once; the bot's ack confirms it.  What was confirmed is kept in the account data of
the user, which other devices read.

Around the service stand the homeserver's account data (`server`), the requests that write it
(`writes`) and the changes that the next syncs bring back (`echoes`).  `client.accountData`, here
`accountData`, changes with a sync only.  Another device may write the account data, too.

Of the numbers the bot gives to votes (`seq`) the service keeps the one it applied last.  Beside the
state stand the numbers that the answers belong to: those shown (`answersSeq`) and those stored
(`StoredVotes.seqs`); and, in order, what was to be stored (`persisted`, over what was stored at
first, `initial`).
-/

import Liza.Client.NewsAudience
import Liza.Lib.Assoc
import Liza.Lib.Run

set_option autoImplicit false

namespace Liza
namespace Client

open Lib

/-! ### Reading contents -/

/-- `tryGet<String>`. -/
def tryGetString (content : Dict) (key : PyStr) : Option PyStr :=
  match Dict.get? content key with
  | some (.str s) => some s
  | _ => none

/-- `tryGet<int>`. -/
def tryGetInt (content : Dict) (key : PyStr) : Option ℤ :=
  match Dict.get? content key with
  | some (.int n) => some n
  | _ => none

/-- `tryGet<bool>`. -/
def tryGetBool (content : Dict) (key : PyStr) : Option Bool :=
  match Dict.get? content key with
  | some (.bool b) => some b
  | _ => none

/-- `tryGetMap<String, Object?>`. -/
def tryGetMap (content : Dict) (key : PyStr) : Option Dict :=
  match Dict.get? content key with
  | some (.obj d) => some d
  | _ => none

/-- `tryGetList<String>`: no list where an element is not a string. -/
def tryGetStrings (content : Dict) (key : PyStr) : Option (List PyStr) :=
  match Dict.get? content key with
  | some (.arr l) => l.mapM Sygnal.asStr
  | _ => none

/-! ### The state of a vote -/

/-- `NewsPollVoteStatus`. -/
inductive NewsPollVoteStatus where
  | idle
  | sending
  | voted
  | failed
deriving DecidableEq

/-- `NewsPollVoteState`. -/
structure NewsPollVoteState where
  answers : List PyStr
  pending : Option (List PyStr)
  status : NewsPollVoteStatus
  closed : Bool
  error : Option PyStr
deriving DecidableEq

/-- `shown`. -/
def NewsPollVoteState.shown (v : NewsPollVoteState) : List PyStr := v.pending.getD v.answers

/-- The status of answers that are confirmed. -/
def statusOf (answers : List PyStr) : NewsPollVoteStatus := if answers = [] then .idle else .voted

/-- `_fromAccountData`. -/
def fromAccountData (content : Dict) (pollId : PyStr) : NewsPollVoteState :=
  match tryGetMap content pollId with
  | none => ⟨[], none, .idle, false, none⟩
  | some stored =>
      let answers := (tryGetStrings stored "answers").getD []
      ⟨answers, none, statusOf answers, (tryGetBool stored "closed").getD false, none⟩

/-- `_InFlightVote`. -/
structure InFlightVote where
  answers : List PyStr
  seq : ℤ
  reqId : PyStr
  attempts : ℕ
deriving DecidableEq

/-- `maxAttempts`. -/
def maxAttempts : ℕ := 3

/-- The account data, with the number each poll's answers belong to. -/
structure StoredVotes where
  content : Dict
  seqs : PyStr → ℤ

/-- What `_persist` is called with. -/
structure PersistedVote where
  pollId : PyStr
  answers : List PyStr
  closed : Bool
deriving DecidableEq

/-- The service, and the account data around it. -/
structure PollService where
  /-- `_states`. -/
  states : Assoc PyStr NewsPollVoteState
  /-- `_votes`. -/
  votes : Assoc PyStr InFlightVote
  /-- `_appliedSeq`. -/
  appliedSeq : Assoc PyStr ℤ
  /-- `_lastSeq`. -/
  lastSeq : ℤ
  /-- `_mineRequested`. -/
  mineRequested : List PyStr
  /-- `client.accountData`. -/
  accountData : StoredVotes
  server : StoredVotes
  writes : List StoredVotes
  echoes : List StoredVotes
  answersSeq : PyStr → ℤ
  initial : Dict
  persisted : List PersistedVote

/-! ### Storing a vote -/

/-- `newsPollKeepClosed`. -/
def newsPollKeepClosed : ℕ := 50

/-- `e.value is Map && e.value['closed'] == true`. -/
def storedClosed : Json → Bool
  | .obj d => Dict.get? d "closed" = some (.bool true)
  | _ => false

/-- The polls that are stored as closed, in their order. -/
def closedKeys (votes : Dict) : List PyStr := (votes.filter fun e => storedClosed e.2).map Prod.fst

/-- `pruneStoredVotes`. -/
def pruneStoredVotes (votes : Dict) : Dict :=
  if (closedKeys votes).length ≤ newsPollKeepClosed then votes
  else
    let dropKeys := (closedKeys votes).take ((closedKeys votes).length - newsPollKeepClosed)
    votes.filter fun e => e.1 ∉ dropKeys

/-- The value that is stored for a poll. -/
def storedVote (answers : List PyStr) (closed : Bool) : Json :=
  .obj [("answers", .arr (answers.map .str)), ("closed", .bool closed)]

mutual

/-- `DeepCollectionEquality().equals`: the order of the keys does not count. -/
def deepEquals : Json → Json → Bool
  | .obj a, .obj b => a.length == b.length && deepEqualsDict a b
  | .arr a, .arr b => deepEqualsList a b
  | v, w => Json.beq v w

/-- The same of lists. -/
def deepEqualsList : List Json → List Json → Bool
  | [], [] => true
  | v :: a, w :: b => deepEquals v w && deepEqualsList a b
  | _, _ => false

/-- Every item of the one map is in the other. -/
def deepEqualsDict : List (PyStr × Json) → List (PyStr × Json) → Bool
  | [], _ => true
  | (k, v) :: a, b =>
      (match Dict.get? b k with
        | some w => deepEquals v w
        | none => false) && deepEqualsDict a b

end

/-- What `_persist` makes of the account data: `none` where nothing changes. -/
def persistContent (current : Dict) (vote : PersistedVote) : Option Dict :=
  let pruned := pruneStoredVotes (current.set vote.pollId (storedVote vote.answers vote.closed))
  if deepEquals (.obj pruned) (.obj current) then none else some pruned

namespace PollService

/-- `_persist`, with the number of the answers. -/
def persist (s : PollService) (vote : PersistedVote) (seq : ℤ) : PollService :=
  let s := { s with persisted := s.persisted ++ [vote] }
  match persistContent s.accountData.content vote with
  | none => s
  | some pruned =>
      let seqs := fun p => if p = vote.pollId then seq else s.accountData.seqs p
      { s with writes := s.writes ++ [⟨pruned, seqs⟩] }

/-! ### The service -/

/-- `stateOf`, the state of a poll. -/
def stateOf (s : PollService) (pollId : PyStr) : NewsPollVoteState :=
  (s.states.get? pollId).getD (fromAccountData s.accountData.content pollId)

/-- `stateOf`, which makes the state where there is none. -/
def touch (s : PollService) (pollId : PyStr) : PollService :=
  match s.states.get? pollId with
  | some _ => s
  | none =>
      { s with
        states := s.states.set pollId (fromAccountData s.accountData.content pollId)
        answersSeq := fun p => if p = pollId then s.accountData.seqs pollId else s.answersSeq p }

/-- `state.value = value`. -/
def setState (s : PollService) (pollId : PyStr) (value : NewsPollVoteState) : PollService :=
  { s with states := s.states.set pollId value }

/-- The poll is shown on the screen. -/
def ensureLoaded (s : PollService) (pollId : PyStr) (closed : Bool) : PollService :=
  if pollId ∈ s.mineRequested then s
  else
    let s := { s with mineRequested := pollId :: s.mineRequested }.touch pollId
    if closed ∧ ¬(s.stateOf pollId).closed then
      s.setState pollId { s.stateOf pollId with closed := true }
    else s

/-- `_nextSeq`, at a moment of the clock. -/
def nextSeq (s : PollService) (now : ℤ) : ℤ := if s.lastSeq < now then now else s.lastSeq + 1

/-- `vote`. -/
def vote (s : PollService) (pollId : PyStr) (answers : List PyStr) (now : ℤ) (reqId : PyStr) :
    PollService :=
  let s := s.touch pollId
  let inFlight : InFlightVote := ⟨answers, s.nextSeq now, reqId, 1⟩
  { s with votes := s.votes.set pollId inFlight, lastSeq := s.nextSeq now }.setState pollId
    { s.stateOf pollId with pending := some answers, status := .sending, error := none }

/-- The timer of the vote in flight: another attempt, or the end of them. -/
def timeout (s : PollService) (pollId : PyStr) : Option PollService :=
  match s.votes.get? pollId with
  | none => none
  | some v =>
      if v.attempts < maxAttempts then
        some { s with votes := s.votes.set pollId { v with attempts := v.attempts + 1 } }
      else
        let s := { s with votes := s.votes.erase pollId }.touch pollId
        let state := s.stateOf pollId
        some (s.setState pollId
          { state with
            pending := none
            status := if state.answers = [] then .failed else .voted
            error := some "timeout" })

/-- `_onAck`. -/
def onAck (s : PollService) (pollId reqId : PyStr) (content : Dict) : PollService :=
  let inFlight := s.votes.get? pollId
  let seq := (tryGetInt content "seq").getD 0
  -- the ack of another request does not count while a vote is in flight
  if inFlight.any fun v => v.reqId ≠ reqId then s
  else if inFlight = none ∧ seq < (s.appliedSeq.get? pollId).getD 0 then s
  else
    let s := { s with
      appliedSeq := s.appliedSeq.set pollId seq
      votes := s.votes.erase pollId }.touch pollId
    let answers := (tryGetStrings content "answers").getD []
    let closed := (tryGetBool content "closed").getD false
    let error := tryGetString content "error"
    let s := { s with answersSeq := fun p => if p = pollId then seq else s.answersSeq p }.setState
      pollId
        { answers := answers
          pending := none
          status := if error.isSome ∧ inFlight.isSome then .failed else statusOf answers
          closed := closed || (s.stateOf pollId).closed
          error := if inFlight.isSome then error else none }
    if error = none ∨ error = some (py "closed") then s.persist ⟨pollId, answers, closed⟩ seq else s

/-- `_onToDevice`, of an ack. -/
def onToDevice (s : PollService) (senderId : PyStr) (content : Dict) : PollService :=
  match tryGetString content "req_id", tryGetString content "poll_id" with
  | some reqId, some pollId =>
      if senderId ∈ newsBotMxids then s.onAck pollId reqId content else s
  | _, _ => s

/-- A poll that `_applyAccountData` takes from the content. -/
def takesStored (s : PollService) (content : Dict) (pollId : PyStr) : Option Dict :=
  if (s.votes.get? pollId).isSome then none else tryGetMap content pollId

/-- What `_applyAccountData` makes of a state. -/
def withStored (state : NewsPollVoteState) (stored : Dict) : NewsPollVoteState :=
  let answers := (tryGetStrings stored "answers").getD []
  { state with
    answers := answers
    status := statusOf answers
    closed := (tryGetBool stored "closed").getD false || state.closed }

/-- `_applyAccountData`. -/
def applyAccountData (s : PollService) (stored : StoredVotes) : PollService :=
  { s with
    states := s.states.map fun e =>
      match s.takesStored stored.content e.1 with
      | none => e
      | some d => (e.1, withStored e.2 d)
    answersSeq := fun p =>
      if (s.states.get? p).isSome ∧ (s.takesStored stored.content p).isSome then stored.seqs p
      else s.answersSeq p }

/-- A sync brings a change of the account data. -/
def sync (s : PollService) (stored : StoredVotes) (rest : List StoredVotes) : PollService :=
  { s with accountData := stored, echoes := rest }.applyAccountData stored

/-- The number that the answers on the screen belong to. -/
def shownSeq (s : PollService) (pollId : PyStr) : ℤ :=
  match s.votes.get? pollId with
  | some v => v.seq
  | none => s.answersSeq pollId

end PollService

/-- What happens next. -/
inductive PollAction where
  | ensureLoaded (pollId : PyStr) (closed : Bool)
  | vote (pollId : PyStr) (answers : List PyStr) (now : ℤ) (reqId : PyStr)
  | timeout (pollId : PyStr)
  /-- A to-device event with the type of an ack, from any sender. -/
  | ack (senderId : PyStr) (content : Dict)
  /-- The next sync with a change. -/
  | sync
  /-- A write reaches the server; the requests may overtake each other. -/
  | written (i : ℕ)
  | failed (i : ℕ)
  /-- Another device writes the account data. -/
  | other (stored : StoredVotes)

/-- One step; `none` where it cannot happen. -/
def pollStep (s : PollService) : PollAction → Option PollService
  | .ensureLoaded pollId closed => some (s.ensureLoaded pollId closed)
  | .vote pollId answers now reqId => some (s.vote pollId answers now reqId)
  | .timeout pollId => s.timeout pollId
  | .ack senderId content => some (s.onToDevice senderId content)
  | .sync =>
      match s.echoes with
      | [] => none
      | stored :: rest => some (s.sync stored rest)
  | .written i =>
      match s.writes[i]? with
      | none => none
      | some stored =>
          some { s with
            server := stored, writes := s.writes.eraseIdx i, echoes := s.echoes ++ [stored] }
  | .failed i => if i < s.writes.length then some { s with writes := s.writes.eraseIdx i } else none
  | .other stored => some { s with server := stored, echoes := s.echoes ++ [stored] }

/-- The service starts with a copy of the account data that the first sync brings up to date. -/
def PollService.start (accountData server : StoredVotes) : PollService where
  states := []
  votes := []
  appliedSeq := []
  lastSeq := 0
  mineRequested := []
  accountData := accountData
  server := server
  writes := []
  echoes := [server]
  answersSeq := accountData.seqs
  initial := server.content
  persisted := []

end Client
end Liza
