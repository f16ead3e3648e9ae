/-
# The quarantine of media whose messages were redacted

`servers/synapse/modules/media_lifecycle`: on a redaction the module reads the event that was
redacted, takes the mxc uri out of it and asks the media repository to quarantine it.

`on_new_event` runs after the redaction has been persisted, and `get_event` prunes what was
redacted: of a message nothing is left that the module looks at.  It looks only at a message whose
redaction has not taken effect.  Then its request raises, because the client of Synapse does not know
an argument of the call, and so does the recording of what was done, because the module API has no
such clock.  So nothing is ever requested or recorded (`step_keeps`), and `quarantine_exact` says in
which runs this does not matter.

Whether a redaction takes effect is decided as in `_maybe_redact_event_row`.  A delivery of a
redaction runs to its end, and may be repeated.
-/

import Liza.Lib.Run
import Liza.Lib.Json
import Liza.Lib.PyOps
import Liza.Synapse.Rooms

set_option autoImplicit false

namespace Liza
namespace MediaLifecycle

open Lib Synapse

/-! ### The store -/

/-- A redaction that was persisted; `recheck` says that its sender has no right to redact the events
of others, so that the redaction has to be checked when it is applied. -/
structure Redaction where
  event : Event
  recheck : Bool

/-- A row of `media_lifecycle_processed`, without its time. -/
structure Processed where
  redactedEventId : EventId
  mxcUri : PyStr
  roomId : RoomId
  deleteStatus : PyStr
deriving DecidableEq

/-- The events and the redactions that are stored, the rooms whose version keeps relations in what
is redacted, the table of the module, and the uris whose quarantine was requested. -/
structure World where
  events : List Event
  redactions : List Redaction
  keepsRelations : RoomId → Bool
  processed : List Processed
  requests : List PyStr

/-- The domain of a user. -/
def domainOfUser (user : UserId) : Option PyStr := (split1 (codePoint ':') user).2

/-- `_maybe_redact_event_row`, for one redaction: it is applied to the event. -/
def Redaction.applies (r : Redaction) (e : Event) : Bool :=
  r.event.redacts = some e.eventId ∧ e.type ≠ py "m.room.create" ∧
    (r.recheck = true → r.event.roomId = e.roomId ∧
      domainOfUser r.event.sender = domainOfUser e.sender)

/-- The event was redacted. -/
def World.redacted (w : World) (e : Event) : Bool := w.redactions.any fun r => r.applies e

/-- The fields of a relation that are kept. -/
def keptRelation (relation : Dict) : Dict :=
  [py "rel_type", py "event_id"].filterMap fun field =>
    (relation.get? field).map fun v => (field, v)

/-- The content of a message after `prune_event`. -/
def prunedContent (keepsRelations : Bool) (content : Dict) : Dict :=
  match keepsRelations, content.get "m.relates_to" with
  | true, .obj relation =>
      if keptRelation relation = [] then [] else [("m.relates_to", .obj (keptRelation relation))]
  | _, _ => []

/-- `get_event(event_id, allow_none=True, check_room_id=room_id)`.  The content of an event that is
no message is not read, so that it does not matter what is pruned there. -/
def World.getEvent (w : World) (eventId : EventId) (roomId : RoomId) : Option Event :=
  match w.events.find? fun e => e.eventId = eventId with
  | none => none
  | some e =>
      if e.roomId ≠ roomId then none
      else if w.redacted e then
        some { e with content := prunedContent (w.keepsRelations e.roomId) e.content }
      else some e

/-! ### The module -/

/-- `SUPPORTED_MSGTYPES`. -/
def supportedMsgtypes : List PyStr := ["m.image", "m.video", "m.audio", "m.file"]

/-- `msgtype in SUPPORTED_MSGTYPES`; a list or a dictionary is not hashable, and nothing more is
done then either. -/
def isSupported : Json → Bool
  | .str msgtype => msgtype ∈ supportedMsgtypes
  | _ => false

/-- What the media repository answers. -/
inductive Answer where
  | networkError
  | http (code : ℕ)
deriving DecidableEq

/-- The status of an answer. -/
def Answer.status : Answer → PyStr
  | .networkError => "error_network"
  | .http code =>
      if 200 ≤ code ∧ code < 300 then "quarantined"
      else if code = 404 then "already_absent"
      else py "error_http_" ++ py (toString code)

/-- The answer counts as success. -/
def Answer.success : Answer → Bool
  | .networkError => false
  | .http code => (200 ≤ code ∧ code < 300) ∨ code = 404

/-- The uri has a server and a media id. -/
def isComplete (mxc : PyStr) : Bool :=
  match split1 (codePoint '/') (mxc.drop 6) with
  | (serverName, mediaId) => serverName ≠ [] ∧ mediaId.getD [] ≠ []

/-- The parameters of `SimpleHttpClient.request`. -/
def requestParameters : List PyStr := ["method", "uri", "data", "headers"]

/-- `http.request("POST", url, ..)` with some keyword arguments: one that is no parameter raises
before anything is sent. -/
def World.request (w : World) (mxc : PyStr) (keywords : List PyStr) (answer : Answer) :
    World × Py Empty Answer :=
  if keywords.all (· ∈ requestParameters) then
    ({ w with requests := mxc :: w.requests }, .ok answer)
  else (w, Py.throw .typeError)

/-- `_quarantine_via_mmr`, with what is answered to a request. -/
def World.quarantineViaMmr (w : World) (mxc : PyStr) (answer : Answer) : World × PyStr :=
  if isComplete mxc then
    match w.request mxc ["headers", "json_body"] answer with
    | (w, .ok answer) => (w, answer.status)
    | (w, .error _) => (w, "error_network")
  else (w, "skip_invalid_mxc")

/-- `_already_processed`. -/
def World.alreadyProcessed (w : World) (eventId : EventId) : Bool :=
  w.processed.any fun row => row.redactedEventId = eventId

/-- `self._api.current_milliseconds_msec()`, which `ModuleApi` does not have. -/
def currentMillisecondsMsec : Py Empty ℤ := Py.throw .attributeError

/-- `_mark_processed`. -/
def World.markProcessed (w : World) (row : Processed) : Py Empty World := do
  let _ ← currentMillisecondsMsec
  if w.alreadyProcessed row.redactedEventId then pure w
  else pure { w with processed := row :: w.processed }

/-- The callback ends with `_mark_processed`; an exception of it is only logged by Synapse. -/
def World.endsWith (w : World) (row : Processed) : World :=
  match w.markProcessed row with
  | .ok w => w
  | .error _ => w

/-- `mxc` where it is a uri. -/
def mxcOf : Json → Option PyStr
  | .str mxc => if (py "mxc://").isPrefixOf mxc then some mxc else none
  | _ => none

/-- `_on_new_event`, with what is answered to its request. -/
def onNewEvent (dryRun : Bool) (event : Event) (answer : Answer) (w : World) : World :=
  if event.type ≠ py "m.room.redaction" then w
  else
    match event.redacts with
    | none => w
    | some eventId =>
        if eventId = [] then w
        else
          match w.getEvent eventId event.roomId with
          | none => w
          | some original =>
              if original.type = py "m.room.encrypted" then w
              else if original.type ≠ py "m.room.message" then w
              else if ¬isSupported (original.content.get "msgtype") then w
              else
                match mxcOf (original.content.get "url") with
                | none => w
                | some mxc =>
                    if w.alreadyProcessed eventId then w
                    else if dryRun then
                      w.endsWith ⟨eventId, mxc, event.roomId, "dry_run"⟩
                    else
                      let r := w.quarantineViaMmr mxc answer
                      r.1.endsWith ⟨eventId, mxc, event.roomId, r.2⟩

/-! ### Runs -/

/-- A redaction is persisted, or one that was is delivered, for the first time or again. -/
inductive Act where
  | persist (r : Redaction)
  | deliver (i : ℕ) (answer : Answer)

/-- One step, with the dry run off. -/
def step (w : World) : Act → Option World
  | .persist r => some { w with redactions := w.redactions ++ [r] }
  | .deliver i answer => w.redactions[i]?.map fun r => onNewEvent false r.event answer w

/-- The uri to which a plain message with media refers. -/
def mediaOf (e : Event) : Option PyStr :=
  if e.type = py "m.room.message" ∧ isSupported (e.content.get "msgtype") = true then
    (mxcOf (e.content.get "url")).filter isComplete
  else none

/-- Some message that was not redacted refers to the uri. -/
def World.InUse (w : World) (mxc : PyStr) : Prop :=
  ∃ e ∈ w.events, mediaOf e = some mxc ∧ w.redacted e = false

/-- What a delivery should do: it requests the quarantine only of what is not in use; where it has
redacted the last message with some media and the answer is success, the quarantine has been
requested; and it records the redaction only if its request has succeeded. -/
structure Proper (r : Redaction) (answer : Answer) (w t : World) : Prop where
  only : ∀ mxc, t.requests = mxc :: w.requests → ¬w.InUse mxc
  made : ∀ e ∈ w.events, ∀ mxc, r.applies e = true → mediaOf e = some mxc → ¬w.InUse mxc →
    answer.success = true → mxc ∈ t.requests
  retried : ∀ eventId, t.alreadyProcessed eventId = true → w.alreadyProcessed eventId = true ∨
    answer.success = true ∧ ∃ mxc, t.requests = mxc :: w.requests

/-- A delivery that does not matter: the redaction has not redacted the last message with some
media, or the answer would not be success. -/
def Harmless (r : Redaction) (answer : Answer) (w : World) : Prop :=
  ∀ e ∈ w.events, ∀ mxc, r.applies e = true → mediaOf e = some mxc → ¬w.InUse mxc →
    answer.success = false

/-- What holds of a step that is a delivery. -/
def OnDelivery (P : Redaction → Answer → World → World → Prop) (w : World) : Act → World → Prop
  | .persist _, _ => True
  | .deliver i answer, t => ∀ r, w.redactions[i]? = some r → P r answer w t

/-! ### What a delivery does -/

section Delivery

variable {w t : World} {r : Redaction} {answer : Answer}

/-- Nothing that the module looks at is left of a message that was redacted. -/
theorem get_msgtype_prunedContent (keepsRelations : Bool) (content : Dict) :
    isSupported (Dict.get (prunedContent keepsRelations content) "msgtype") = false := by
  unfold prunedContent
  split
  · split
    · rfl
    · rfl
  · rfl

/-- So it goes on only with a message whose redaction has not taken effect. -/
theorem not_redacted_of_getEvent {eventId : EventId} {roomId : RoomId} {original : Event}
    (h : w.getEvent eventId roomId = some original)
    (hsupported : isSupported (original.content.get "msgtype") = true) :
    original ∈ w.events ∧ w.redacted original = false := by
  unfold World.getEvent at h
  split at h
  · cases h
  rename_i e hfind
  split at h
  · cases h
  split at h
  · obtain rfl := Option.some.inj h
    have hpruned := get_msgtype_prunedContent (w.keepsRelations e.roomId) e.content
    exact absurd (hpruned.symm.trans hsupported) Bool.false_ne_true
  · rename_i hredacted
    obtain rfl := Option.some.inj h
    exact ⟨List.mem_of_find?_eq_some hfind, by simpa using hredacted⟩

/-- Nothing is sent: `request` has no parameter `json_body`. -/
theorem quarantineViaMmr_fst (w : World) (mxc : PyStr) (answer : Answer) :
    (w.quarantineViaMmr mxc answer).1 = w := by
  unfold World.quarantineViaMmr
  split
  · rfl
  · rfl

/-- Nothing is recorded. -/
theorem endsWith_eq (w : World) (row : Processed) : w.endsWith row = w := rfl

/-- **A delivery changes nothing**, with the dry run or without it. -/
theorem onNewEvent_eq (dryRun : Bool) (event : Event) (answer : Answer) (w : World) :
    onNewEvent dryRun event answer w = w := by
  unfold onNewEvent
  split
  · rfl
  split
  · rfl
  split
  · rfl
  split
  · rfl
  split
  · rfl
  split
  · rfl
  split
  · rfl
  split
  · rfl
  split
  · rfl
  split
  · exact endsWith_eq _ _
  · exact (endsWith_eq _ _).trans (quarantineViaMmr_fst _ _ _)

/-- **No step requests or records anything.** -/
theorem step_keeps {a : Act} (h : step w a = some t) :
    t.requests = w.requests ∧ t.processed = w.processed := by
  cases a with
  | persist r =>
      obtain rfl := Option.some.inj h
      exact ⟨rfl, rfl⟩
  | deliver i answer =>
      obtain ⟨r, -, rfl⟩ := Option.map_eq_some_iff.1 h
      rw [onNewEvent_eq]
      exact ⟨rfl, rfl⟩

/-- **A delivery is proper exactly if it is harmless**, as long as nothing was requested. -/
theorem proper_iff_harmless (hw : w.requests = []) :
    Proper r answer w (onNewEvent false r.event answer w) ↔ Harmless r answer w := by
  rw [onNewEvent_eq]
  constructor
  · intro h e he mxc happlies hmedia huse
    by_contra hsuccess
    have hmade := h.made e he mxc happlies hmedia huse (by simpa using hsuccess)
    rw [hw] at hmade
    cases hmade
  · intro h
    refine ⟨fun mxc hmore => absurd hmore.symm (List.cons_ne_self _ _), ?_, fun _ hdone => .inl hdone⟩
    intro e he mxc happlies hmedia huse hsuccess
    rw [h e he mxc happlies hmedia huse] at hsuccess
    cases hsuccess

end Delivery

/-- **Media is quarantined exactly when its last message is gone** in the runs in which this asks
for nothing: for every set of events and every sequence of redactions and deliveries, with any
answers, all deliveries are proper if and only if all of them are harmless. -/
theorem quarantine_exact (events : List Event) (keepsRelations : RoomId → Bool) (acts : List Act) :
    Along step (fun w a t => OnDelivery Proper w a t) ⟨events, [], keepsRelations, [], []⟩ acts ↔
      Along step (fun w a t => OnDelivery (fun r answer w _ => Harmless r answer w) w a t)
        ⟨events, [], keepsRelations, [], []⟩ acts := by
  refine along_congr (I := fun w => w.requests = []) (fun w a t hw ht => ?_)
    (fun w a t hw ht _ => (step_keeps ht).1.trans hw) rfl acts
  cases a with
  | persist r => exact Iff.rfl
  | deliver i answer =>
      obtain ⟨r, hr, rfl⟩ := Option.map_eq_some_iff.1 ht
      refine forall_congr' fun r' => imp_congr_right fun hr' => ?_
      obtain rfl := Option.some.inj (hr.symm.trans hr')
      exact proper_iff_harmless hw

/-- A message with a picture. -/
def picture : Event :=
  ⟨"$1", "m.room.message", "!r:h", "@u:h", none,
    [("msgtype", .str "m.image"), ("url", .str "mxc://h/1")], none⟩

/-- Its redaction by its sender. -/
def removal : Redaction := ⟨⟨"$2", "m.room.redaction", "!r:h", "@u:h", none, [], some "$1"⟩, true⟩

/-- **The media of the last message is not quarantined**: the only message is redacted, the
redaction is delivered, and nothing is requested. -/
theorem last_message_not_quarantined : ¬Along step (fun w a t => OnDelivery Proper w a t)
    ⟨[picture], [], fun _ => false, [], []⟩ [.persist removal, .deliver 0 (.http 200)] := by
  intro h
  obtain ⟨-, h⟩ := h _ rfl
  obtain ⟨h, -⟩ := h _ rfl
  have hmade := (h removal rfl).made picture List.mem_cons_self "mxc://h/1" (by decide) (by decide)
    ?_ rfl
  · exact absurd hmade (by decide)
  · rintro ⟨e, he, -, hredacted⟩
    obtain rfl := List.mem_singleton.1 he
    exact absurd hredacted (by decide)

end MediaLifecycle
end Liza
