/-
# The registration ids of a legacy dispatch

With the legacy API of FCM one request is for all devices of a notification, and an answer sorts
their registration ids one by one (`servers/sygnal/sygnal/gcmpushkin.py`).  What is rejected in the
end is what some answer has declared dead (`legacy_rejects_iff`): an id is rejected no more often
than it was there, and is not sent again.

The body is the same dictionary for all tries, and a try only writes the address it needs: `to` for
one id, `registration_ids` for several.  A retry that is left with one id of several therefore still
carries the `registration_ids` of an earlier try (`stale_addresses_iff`).
-/

import Liza.Sygnal.GcmTries
import Mathlib.Data.List.Perm.Subperm
import Mathlib.Data.List.Nodup

set_option autoImplicit false

namespace Liza
namespace Sygnal

open Lib

variable {server : ℕ → Dict → Option FcmAnswer} {pushkeys failed newPushkeys : List PyStr}
  {pushkey : PyStr} {i : ℕ} {s : Sending}

/-- The result for a registration id has one of the codes of `BAD_PUSHKEY_FAILURE_CODES`. -/
def BadResult (pushkeys : List PyStr) (results : List Json) (pushkey : PyStr) : Prop :=
  ∃ (j : ℕ) (result error : Json), results[j]? = some result ∧ pushkeys[j]? = some pushkey ∧
    errorOf result = some (some error) ∧ isCode badPushkeyFailureCodes error = true

/-- The answer declares a registration id of the request dead. -/
def Dead (answer : FcmAnswer) (pushkeys : List PyStr) (pushkey : PyStr) : Prop :=
  answer.code = 404 ∧ pushkey ∈ pushkeys ∨
    200 ≤ answer.code ∧ answer.code < 300 ∧
      ∃ results, resultsOf answer = some results ∧ BadResult pushkeys results pushkey

/-- The reply to a try declares a registration id dead. -/
def DeclaredDead (server : ℕ → Dict → Option FcmAnswer) (e : ℕ × Sending) (pushkey : PyStr) : Prop :=
  ∃ answer ∈ server e.1 (e.2.request .legacy), Dead answer e.2.pushkeys pushkey

/-! ### One round of results -/

/-- The result for the first id, and those for the others. -/
theorem badResult_cons {result : Json} {results : List Json} :
    BadResult pushkeys (result :: results) pushkey ↔
      (pushkeys.head? = some pushkey ∧ ∃ error, errorOf result = some (some error) ∧
        isCode badPushkeyFailureCodes error = true) ∨ BadResult pushkeys.tail results pushkey := by
  constructor
  · rintro ⟨j, r, error, hr, hkey, herror, hcode⟩
    cases j with
    | zero =>
        obtain rfl := Option.some.inj hr
        exact .inl ⟨by rw [List.head?_eq_getElem?]; exact hkey, error, herror, hcode⟩
    | succ j =>
        refine .inr ⟨j, r, error, hr, ?_, herror, hcode⟩
        rw [List.getElem?_tail]
        exact hkey
  · rintro (⟨hkey, error, herror, hcode⟩ | ⟨j, r, error, hr, hkey, herror, hcode⟩)
    · exact ⟨0, result, error, rfl, by rw [← List.head?_eq_getElem?]; exact hkey, herror, hcode⟩
    · refine ⟨j + 1, r, error, hr, ?_, herror, hcode⟩
      rw [← List.getElem?_tail]
      exact hkey

/-- **A round of results sorts the ids in their order**, and those that fail have such a code. -/
theorem of_sortResults {results : List Json}
    (h : sortResults pushkeys results = some (failed, newPushkeys)) :
    (failed ++ newPushkeys).Subperm pushkeys ∧ newPushkeys.Sublist pushkeys ∧
      ∀ pushkey, pushkey ∈ failed ↔ BadResult pushkeys results pushkey := by
  induction results generalizing pushkeys failed newPushkeys with
  | nil =>
      obtain ⟨rfl, rfl⟩ := Prod.mk.inj (Option.some.inj h)
      refine ⟨List.nil_subperm, List.nil_sublist _, fun pushkey => ?_⟩
      simp [BadResult]
  | cons result results ih =>
      obtain ⟨error, herror, h⟩ := Option.bind_eq_some_iff.1 h
      cases error with
      | none =>
          obtain ⟨hperm, hsub, hmem⟩ := ih h
          refine ⟨hperm.trans (List.tail_sublist _).subperm, hsub.trans (List.tail_sublist _), ?_⟩
          intro pushkey
          rw [hmem, badResult_cons, herror]
          simp
      | some error =>
          obtain ⟨key, hkey, hrest⟩ := Option.bind_eq_some_iff.1 h
          obtain ⟨⟨failed', new'⟩, hrest, hsorted⟩ := Option.bind_eq_some_iff.1 hrest
          obtain ⟨hperm, hsub, hmem⟩ := ih hrest
          obtain ⟨rest, rfl⟩ : ∃ rest, pushkeys = key :: rest := by
            cases pushkeys with
            | nil => cases hkey
            | cons k rest =>
                obtain rfl := Option.some.inj hkey
                exact ⟨rest, rfl⟩
          simp only [List.tail_cons] at hperm hsub hmem
          have hbad : ∀ pushkey, BadResult (key :: rest) (result :: results) pushkey ↔
              (key = pushkey ∧ isCode badPushkeyFailureCodes error = true) ∨ pushkey ∈ failed' := by
            intro pushkey
            rw [badResult_cons, herror, hmem]
            simp
          dsimp only at hsorted
          split at hsorted
          · rename_i hcode
            obtain ⟨rfl, rfl⟩ := Prod.mk.inj (Option.some.inj hsorted)
            refine ⟨(List.subperm_cons key).2 hperm, hsub.cons _, fun pushkey => ?_⟩
            simp [hbad, hcode, eq_comm]
          · rename_i hcode
            split at hsorted
            · obtain ⟨rfl, rfl⟩ := Prod.mk.inj (Option.some.inj hsorted)
              refine ⟨hperm.cons_right key, hsub.cons _, fun pushkey => ?_⟩
              simp [hbad, hcode]
            · obtain ⟨rfl, rfl⟩ := Prod.mk.inj (Option.some.inj hsorted)
              refine ⟨?_, hsub.cons_cons _, fun pushkey => ?_⟩
              · exact List.perm_middle.subperm.trans ((List.subperm_cons key).2 hperm)
              · simp [hbad, hcode]

/-! ### One try -/

/-- What one try comes to with the legacy API. -/
inductive SentLegacy (server : ℕ → Dict → Option FcmAnswer) (i : ℕ) (s : Sending) :
    Try Sending (Option (List PyStr)) → Prop where
  | pauses (hdead : ∀ pushkey, ¬DeclaredDead server (i, s) pushkey) :
      SentLegacy server i s (.again { s with body := s.request .legacy })
  | sorted {failed newPushkeys : List PyStr} (hnew : newPushkeys ≠ [])
      (hperm : (failed ++ newPushkeys).Subperm s.pushkeys)
      (hsub : newPushkeys.Sublist s.pushkeys)
      (hdead : ∀ pushkey, pushkey ∈ failed ↔ DeclaredDead server (i, s) pushkey) :
      SentLegacy server i s (.again ⟨s.request .legacy, newPushkeys, s.failed ++ failed⟩)
  | ends {failed : List PyStr} (hperm : failed.Subperm s.pushkeys)
      (hdead : ∀ pushkey, pushkey ∈ failed ↔ DeclaredDead server (i, s) pushkey) :
      SentLegacy server i s (.stop (some (s.failed ++ failed)))
  | raised : SentLegacy server i s (.stop none)

/-- What the handling of a reply comes to, as far as the ids go. -/
theorem of_requestDispatch (h : requestDispatch .legacy (server i (s.request .legacy)) s.pushkeys =
      .sorted failed newPushkeys) :
    (failed ++ newPushkeys).Subperm s.pushkeys ∧ newPushkeys.Sublist s.pushkeys ∧
      ∀ pushkey, pushkey ∈ failed ↔ DeclaredDead server (i, s) pushkey := by
  cases hreply : server i (s.request .legacy) with
  | none =>
      rw [hreply] at h
      cases h
  | some answer =>
      have hdeclared : ∀ pushkey, DeclaredDead server (i, s) pushkey ↔
          Dead answer s.pushkeys pushkey := by
        intro pushkey
        simp [DeclaredDead, hreply]
      simp only [hreply, requestDispatch, handleLegacyResponse] at h
      split at h
      · unfold withRetryAfter at h
        split at h <;> cases h
      · rename_i h5
        split at h
        · rename_i h404
          obtain ⟨rfl, rfl⟩ := Handled.sorted.inj h
          refine ⟨by rw [List.append_nil], List.nil_sublist _, fun pushkey => ?_⟩
          rw [hdeclared]
          unfold Dead
          simp [h404]
        · rename_i h404
          split at h
          · rename_i h2
            split at h
            · rename_i hsorted
              obtain ⟨rfl, rfl⟩ := Handled.sorted.inj h
              obtain ⟨results, hresults, hsort⟩ := Option.bind_eq_some_iff.1 hsorted
              obtain ⟨hperm, hsub, hmem⟩ := of_sortResults hsort
              refine ⟨hperm, hsub, fun pushkey => ?_⟩
              rw [hdeclared, hmem]
              unfold Dead
              simp [h404, h2, hresults]
            · cases h
          · cases h

/-- A reply that is followed by a pause declares nothing dead. -/
theorem not_declaredDead_of_retryDelay {delay : ℤ}
    (h : retryDelay i (requestDispatch .legacy (server i (s.request .legacy)) s.pushkeys) =
      some delay) (pushkey : PyStr) : ¬DeclaredDead server (i, s) pushkey := by
  rintro ⟨answer, hanswer, hdead⟩
  rw [Option.mem_def] at hanswer
  simp only [hanswer, requestDispatch, handleLegacyResponse] at h
  have h5 : ¬(500 ≤ answer.code ∧ answer.code < 600) := by
    rcases hdead with ⟨hcode, -⟩ | ⟨-, hcode, -⟩ <;> omega
  rw [if_neg h5] at h
  split at h
  · cases h
  · split at h
    · split at h <;> cases h
    · cases h

/-- **One try with the legacy API.** -/
theorem sentLegacy (server : ℕ → Dict → Option FcmAnswer) (i : ℕ) (s : Sending) :
    SentLegacy server i s (sendOnce .legacy server i s) := by
  unfold sendOnce
  dsimp only
  split
  · rename_i newFailed h
    obtain ⟨hperm, -, hdead⟩ := of_requestDispatch h
    rw [List.append_nil] at hperm
    exact .ends hperm hdead
  · rename_i newFailed newPushkeys hnew h
    obtain ⟨hperm, hsub, hdead⟩ := of_requestDispatch h
    exact .sorted (fun hnil => hnew hnil) hperm hsub hdead
  · split
    · exact .raised
    · rename_i delay h
      split
      · exact .raised
      · exact .pauses (not_declaredDead_of_retryDelay h)

/-! ### All tries -/

/-- What is returned after the loop. -/
def outcome : Try Sending (Option (List PyStr)) → Option (List PyStr)
  | .again s => some s.failed
  | .stop result => result

/-- The ids of a try, and what was rejected before it, are among those of the first. -/
def Accounted (pushkeys : List PyStr) (s : Sending) : Prop :=
  (s.failed ++ s.pushkeys).Subperm pushkeys ∧ s.pushkeys.Sublist pushkeys

/-- The tries of a dispatch. -/
def triesOf (cfg : GcmConfig) (fcm : Fcm) (n : Notification) (device : Device) (body : Dict) :
    List (ℕ × Sending) :=
  states (sendOnce cfg.apiVersion fcm.server) maxTries 0 ⟨body, pushkeysOf cfg n device, []⟩

section

variable {cfg : GcmConfig} {base body : Dict} {fcm : Fcm} {n : Notification} {device : Device}

/-- The addresses of the body before a try of a dispatch for `first`: with one id there is nothing
but `to`, and with several there are the `registration_ids` of some try, among them those of this
one, and `to` only when this one is for one id. -/
structure Addressed (first : List PyStr) (s : Sending) : Prop where
  nonempty : s.pushkeys ≠ []
  sub : s.pushkeys.Sublist first
  single : first.length = 1 → s.body.get? "registration_ids" = none
  several : first.length ≠ 1 → ∃ ids : List PyStr, 2 ≤ ids.length ∧ s.pushkeys.Sublist ids ∧
    s.body.get? "registration_ids" = some (.arr (ids.map .str))
  notTo : first.length ≠ 1 → s.pushkeys.length ≠ 1 → s.body.get? "to" = none

/-- The keys of the two addresses differ. -/
theorem to_ne_registrationIds : py "to" ≠ py "registration_ids" := by decide

/-- The request of a try is addressed as the body before the next. -/
theorem Addressed.request {first : List PyStr} (h : Addressed first s) :
    (first.length = 1 → (s.request .legacy).get? "registration_ids" = none) ∧
      (first.length ≠ 1 → ∃ ids : List PyStr, 2 ≤ ids.length ∧ s.pushkeys.Sublist ids ∧
        (s.request .legacy).get? "registration_ids" = some (.arr (ids.map .str))) ∧
      (first.length ≠ 1 → ((s.request .legacy).get? "to" ≠ none ↔ s.pushkeys.length = 1)) := by
  obtain ⟨hne, hsub, hsingle, hseveral, hto⟩ := h
  unfold Sending.request address
  dsimp only
  split
  · rename_i key hkeys
    refine ⟨fun hfirst => ?_, fun hfirst => ?_, fun _ => ?_⟩
    · rw [Dict.get?_set_of_ne _ _ to_ne_registrationIds.symm]
      exact hsingle hfirst
    · rw [Dict.get?_set_of_ne _ _ to_ne_registrationIds.symm]
      exact hseveral hfirst
    · simp [hkeys]
  · rename_i hkeys
    have hlength : s.pushkeys.length ≠ 1 := by
      intro hone
      obtain ⟨key, hkey⟩ := List.length_eq_one_iff.1 hone
      exact hkeys key hkey
    have hpos : 0 < s.pushkeys.length := List.length_pos_of_ne_nil hne
    have hle := hsub.length_le
    refine ⟨fun hfirst => by omega, fun hfirst => ?_, fun hfirst => ?_⟩
    · exact ⟨s.pushkeys, by omega, List.Sublist.refl _, Dict.get?_set_self _ _ _⟩
    · rw [Dict.get?_set_of_ne _ _ to_ne_registrationIds]
      simp [hto hfirst hlength, hlength]

/-- What the tries share, and the ids that are left for the next one. -/
theorem next_of_again {i : ℕ} {s t : Sending} (hne : s.pushkeys ≠ [])
    (hagain : sendOnce .legacy server i s = .again t) :
    t.body = s.request .legacy ∧ t.pushkeys ≠ [] ∧ t.pushkeys.Sublist s.pushkeys := by
  have hsent := sentLegacy server i s
  rw [hagain] at hsent
  cases hsent with
  | pauses hdead => exact ⟨rfl, hne, List.Sublist.refl _⟩
  | sorted hnew hperm hsub hdead => exact ⟨rfl, hnew, hsub⟩

theorem addressed_step {first : List PyStr} (i : ℕ) (s t : Sending) (h : Addressed first s)
    (hagain : sendOnce .legacy server i s = .again t) : Addressed first t := by
  obtain ⟨hsingle, hseveral, hto⟩ := h.request
  -- the ids that are left are ids of this try
  obtain ⟨hbody, hne, hsub⟩ := next_of_again h.nonempty hagain
  refine ⟨hne, hsub.trans h.sub, ?_, fun hfirst => ?_, fun hfirst hlength => ?_⟩
  · rw [hbody]
    exact hsingle
  · obtain ⟨ids, hids, hkeys, hget⟩ := hseveral hfirst
    exact ⟨ids, hids, hsub.trans hkeys, by rw [hbody, hget]⟩
  · rw [hbody]
    by_contra hsome
    have hone := (hto hfirst).1 hsome
    have hle := hsub.length_le
    have hpos := List.length_pos_of_ne_nil hne
    omega

theorem request_single (hone : s.pushkeys.length = 1) :
    (s.request .legacy).get? "registration_ids" = s.body.get? "registration_ids" := by
  obtain ⟨key, hkey⟩ := List.length_eq_one_iff.1 hone
  rw [Sending.request, hkey, address, Dict.get?_set_of_ne _ _ to_ne_registrationIds.symm]

theorem request_several (hne : s.pushkeys ≠ []) (hmany : s.pushkeys.length ≠ 1) :
    2 ≤ s.pushkeys.length ∧
      (s.request .legacy).get? "registration_ids" = some (.arr (s.pushkeys.map .str)) := by
  obtain ⟨first, second, rest, hkeys⟩ : ∃ first second rest,
      s.pushkeys = first :: second :: rest := by
    match hs : s.pushkeys with
    | [] => exact absurd hs hne
    | [_] => exact absurd (by rw [hs]; rfl) hmany
    | first :: second :: rest => exact ⟨first, second, rest, rfl⟩
  refine ⟨by rw [hkeys, List.length_cons, List.length_cons]; omega, ?_⟩
  rw [Sending.request, hkeys]
  exact Dict.get?_set_self _ _ _

/-- **Where the ids of a request for one id come from**: from the body before the first try, which was
for one id too, or from the last try that was for several. -/
theorem registered_before {n : ℕ} (hne : s.pushkeys ≠ []) {e : ℕ × Sending}
    (he : e ∈ states (sendOnce .legacy server) n i s) (hone : e.2.pushkeys.length = 1) :
    e.2.pushkeys.Sublist s.pushkeys ∧
    (s.pushkeys.length = 1 ∧
        (e.2.request .legacy).get? "registration_ids" = s.body.get? "registration_ids" ∨
      ∃ e' ∈ states (sendOnce .legacy server) n i s, e'.1 < e.1 ∧ 2 ≤ e'.2.pushkeys.length ∧
        e.2.pushkeys.Sublist e'.2.pushkeys ∧
        (e.2.request .legacy).get? "registration_ids" =
          some (.arr (e'.2.pushkeys.map .str))) := by
  induction n generalizing i s with
  | zero => cases he
  | succ n ih =>
      cases h : sendOnce .legacy server i s with
      | stop b =>
          rw [states_succ_of_stop n h] at he
          obtain rfl := List.mem_singleton.1 he
          exact ⟨List.Sublist.refl _, .inl ⟨hone, request_single hone⟩⟩
      | again t =>
          rw [states_succ_of_again n h] at he ⊢
          rcases List.mem_cons.1 he with rfl | he
          · exact ⟨List.Sublist.refl _, .inl ⟨hone, request_single hone⟩⟩
          obtain ⟨hbody, hnonempty, hsub⟩ := next_of_again hne h
          obtain ⟨hkeys, ⟨-, hids⟩ | ⟨e', he', hearlier⟩⟩ := ih hnonempty he
          · refine ⟨hkeys.trans hsub, ?_⟩
            rw [hids, hbody]
            by_cases hs : s.pushkeys.length = 1
            · exact .inl ⟨hs, request_single hs⟩
            · obtain ⟨htwo, hrequest⟩ := request_several hne hs
              exact .inr ⟨(i, s), List.mem_cons_self, Nat.lt_of_succ_le (le_of_mem_states he), htwo,
                hkeys.trans hsub, hrequest⟩
          · exact ⟨hkeys.trans hsub, .inr ⟨e', List.mem_cons_of_mem _ he', hearlier⟩⟩

/-- The request of a legacy dispatch. -/
theorem exists_requestLegacy (hlegacy : cfg.apiVersion = .legacy)
    (hbody : Requests cfg base fcm n device body) :
    ∃ data, body = requestLegacy base data (pushkeysOf cfg n device) := by
  obtain ⟨h, -⟩ := hbody
  unfold dispatch at h
  dsimp only at h
  split at h
  · cases h
  · split at h
    · cases h
    · cases h
    · cases h
    · rename_i data _ _
      rw [hlegacy] at h
      exact ⟨data, (Outcome.request.inj (Except.ok.inj h)).symm⟩

theorem addressed_start {first : List PyStr} (data : Dict) (hfirst : first ≠ [])
    (hto : base.get? "to" = none) (hids : base.get? "registration_ids" = none) :
    Addressed first ⟨requestLegacy base data first, first, []⟩ := by
  have hbase : ∀ key, key ≠ py "data" → key ≠ py "priority" →
      ((base.set "data" (.obj data)).set "priority" (.str "high")).get? key = base.get? key := by
    intro key hdata hpriority
    rw [Dict.get?_set_of_ne _ _ hpriority, Dict.get?_set_of_ne _ _ hdata]
  have hpos := List.length_pos_of_ne_nil hfirst
  refine ⟨hfirst, List.Sublist.refl _, fun hone => ?_, fun hne => ?_, fun hne _ => ?_⟩
  · obtain ⟨key, rfl⟩ := List.length_eq_one_iff.1 hone
    rw [requestLegacy, Dict.get?_set_of_ne _ _ to_ne_registrationIds.symm,
      hbase _ (by decide) (by decide)]
    exact hids
  · refine ⟨first, by omega, List.Sublist.refl _, ?_⟩
    unfold requestLegacy
    split
    · exact absurd rfl hne
    · exact Dict.get?_set_self _ _ _
  · unfold requestLegacy
    split
    · exact absurd rfl hne
    · rw [Dict.get?_set_of_ne _ _ to_ne_registrationIds, hbase _ (by decide) (by decide)]
      exact hto

/-- **A try is addressed twice exactly when it is left with one id of several.**  It is then `to`
that id, and its `registration_ids` are those of an earlier try: ids that FCM has answered for. -/
theorem stale_addresses_iff (hlegacy : cfg.apiVersion = .legacy)
    (hto : base.get? "to" = none) (hids : base.get? "registration_ids" = none)
    (hbody : Requests cfg base fcm n device body) {e : ℕ × Sending}
    (he : e ∈ triesOf cfg fcm n device body) :
    ((e.2.request .legacy).get? "to" ≠ none ∧
        ∃ e' ∈ triesOf cfg fcm n device body, e'.1 < e.1 ∧ 2 ≤ e'.2.pushkeys.length ∧
          e.2.pushkeys.Sublist e'.2.pushkeys ∧
          (e.2.request .legacy).get? "registration_ids" =
            some (.arr (e'.2.pushkeys.map .str))) ↔
      e.2.pushkeys.length = 1 ∧ (pushkeysOf cfg n device).length ≠ 1 := by
  obtain ⟨data, rfl⟩ := exists_requestLegacy hlegacy hbody
  have hfirst : pushkeysOf cfg n device ≠ [] := by
    intro hnil
    have := hbody.1
    rw [dispatch, hnil] at this
    cases this
  unfold triesOf at he ⊢
  rw [hlegacy] at he ⊢
  have haddressed := invariant_of_mem_states addressed_step
    (addressed_start data hfirst hto hids) he
  obtain ⟨hsingle, -, htwice⟩ := haddressed.request
  constructor
  · rintro ⟨hsome, e', -, -, -, -, hget⟩
    have hne : (pushkeysOf cfg n device).length ≠ 1 := by
      intro hone
      rw [hsingle hone] at hget
      cases hget
    exact ⟨(htwice hne).1 hsome, hne⟩
  · rintro ⟨hone, hne⟩
    obtain ⟨-, ⟨hs, -⟩ | hearlier⟩ := registered_before hfirst he hone
    · exact absurd hs hne
    · exact ⟨(htwice hne).2 hone, hearlier⟩

end

/-- Two devices of one user. -/
def twoDevices : List Device :=
  [⟨py "ru.liza.android", py "old", .int 0, none, ⟨none⟩⟩,
    ⟨py "ru.liza.android", py "new", .int 0, none, ⟨none⟩⟩]

/-- A message for the two devices. -/
def legacyPush : Notification := { fcmPush with devices := twoDevices }

/-- A pushkin for the legacy API. -/
def legacyConfig : GcmConfig := ⟨.legacy, [], true, fun _ => true⟩

/-- FCM does not know the first id, has no time for the second, and takes the message then. -/
def busyFcm : Fcm where
  authorised := true
  server k _ :=
    if k = 0 then
      some ⟨200, [], some (.obj [(py "results", .arr
        [.obj [(py "error", .str (py "NotRegistered"))],
          .obj [(py "error", .str (py "Unavailable"))]])])⟩
    else some ⟨200, [], some (.obj [(py "results", .arr [.obj []])])⟩

/-- The device that a dispatch is asked for. -/
def oldDevice : Device := ⟨py "ru.liza.android", py "old", .int 0, none, ⟨none⟩⟩

/-- The body of the first request. -/
def legacyBody : Dict :=
  requestLegacy [] ((Option.join (buildData legacyPush oldDevice .legacy true).toOption).getD [])
    [py "old", py "new"]

/-- The second try is for the second id, and is addressed to the first one again. -/
theorem old_is_addressed_again :
    ∃ e ∈ triesOf legacyConfig busyFcm legacyPush oldDevice legacyBody,
      e.2.pushkeys = [py "new"] ∧ (e.2.request .legacy).get? "to" ≠ none ∧
        ∃ e' ∈ triesOf legacyConfig busyFcm legacyPush oldDevice legacyBody, e'.1 < e.1 ∧
          2 ≤ e'.2.pushkeys.length ∧ e.2.pushkeys.Sublist e'.2.pushkeys ∧
          (e.2.request .legacy).get? "registration_ids" =
            some (.arr (e'.2.pushkeys.map .str)) := by
  have hbody : Requests legacyConfig [] busyFcm legacyPush oldDevice legacyBody := ⟨rfl, rfl⟩
  have hmem : (1, ⟨legacyBody, [py "new"], [py "old"]⟩) ∈
      triesOf legacyConfig busyFcm legacyPush oldDevice legacyBody :=
    List.mem_cons_of_mem _ List.mem_cons_self
  exact ⟨_, hmem, rfl, (stale_addresses_iff rfl rfl rfl hbody hmem).2 ⟨rfl, by decide⟩⟩

end Sygnal
end Liza
