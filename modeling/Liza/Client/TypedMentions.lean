/-
# Mentions that are typed by hand

`clients/flutter/lib/utils/typed_mention_resolver.dart`.  Before a message is sent, `resolve` looks
for `@token` at the start of the text or behind white space, and puts the pill of a member of the
room in its place if the token names exactly one.  A message is resolved again when it is edited.

The text is cut into segments: mentions, and single characters.  What `resolve` changes is always
one mention, with a token that names one candidate.  But a mention may also stand inside a pill: the
name of a member may have white space and an `@token` in it, and a pill may be `@token` with
something behind it.  Such pills are damaged when they stand in a text, and a text with one is not
resolved for good.  The texts are safe exactly if the pills of all candidates are settled
(`undamaged_iff`).
-/

import Liza.Client.Handles
import Mathlib.Data.List.TakeWhile

set_option autoImplicit false

namespace Liza
namespace Client
namespace TypedMentions

open Lib

/-- `@`. -/
def atSign : CodePoint := codePoint '@'

/-- `:`. -/
def colon : CodePoint := codePoint ':'

/-- `\s`. -/
def isSpace (c : CodePoint) : Bool :=
  (0x9 ≤ c.val && c.val ≤ 0xD) || c.val = 0x20 || c.val = 0xA0 || c.val = 0x1680 ||
    (0x2000 ≤ c.val && c.val ≤ 0x200A) || c.val = 0x2028 || c.val = 0x2029 || c.val = 0x202F ||
    c.val = 0x205F || c.val = 0x3000 || c.val = 0xFEFF

/-- What Unicode says of characters, as far as it is used here. -/
structure Alphabet where
  /-- `\p{L}`. -/
  isLetter : CodePoint → Bool
  /-- `\p{N}`. -/
  isNumber : CodePoint → Bool
  /-- `String.toLowerCase`. -/
  toLowerCase : PyStr → PyStr
  /-- The signs that a mention begins with, or that make a user id of it. -/
  isLetter_sign : ∀ c ∈ [atSign, colon], isLetter c = false ∧ isNumber c = false
  isLetter_space : ∀ c, isSpace c = true → isLetter c = false ∧ isNumber c = false

/-- `[\p{L}\p{N}._-]`. -/
def Alphabet.isToken (A : Alphabet) (c : CodePoint) : Bool :=
  A.isLetter c || A.isNumber c || c ∈ py "._-"

/-- `MentionCandidate`. -/
structure MentionCandidate where
  pill : PyStr
  tokens : List PyStr
deriving DecidableEq

/-! ### The text -/

/-- A part of a text: a character, or an `@` with the token behind it and the character that
follows. -/
inductive Segment where
  | char (c : CodePoint)
  | mention (token : PyStr) (next : Option CodePoint)
deriving DecidableEq

/-- What stands in the text. -/
def Segment.source : Segment → PyStr
  | .char c => [c]
  | .mention token _ => atSign :: token

section Resolve

variable (A : Alphabet)

/-- The matches of `_mentionRegex`, and the characters between them.  The first argument counts the
characters that belong to a token already; `first` holds at the start of the text and behind white
space, which takes in the starts of lines. -/
def segments : ℕ → Bool → PyStr → List Segment
  | _, _, [] => []
  | n + 1, _, _ :: s => segments n false s
  | 0, first, c :: s =>
      let token := s.takeWhile A.isToken
      if first && c = atSign && token ≠ [] then
        .mention token (s.dropWhile A.isToken).head? :: segments token.length false s
      else .char c :: segments 0 (isSpace c) s

variable (candidates : List MentionCandidate)

/-- The pill that is put in place of a mention. -/
def rewrite (token : PyStr) (next : Option CodePoint) : Option PyStr :=
  if next = some colon then none
  else
    let key := A.toLowerCase token
    if key = py "room" then none
    else
      match candidates.filter fun c => key ∈ c.tokens with
      | [c] => some c.pill
      | _ => none

/-- What stands in the text that is sent. -/
def Segment.result : Segment → PyStr
  | .char c => [c]
  | .mention token next => (rewrite A candidates token next).getD (atSign :: token)

/-- `TypedMentionResolver.resolve`. -/
def resolve (text : PyStr) : PyStr :=
  if candidates = [] ∨ atSign ∉ text then text
  else (segments A 0 true text).flatMap (Segment.result A candidates)

end Resolve

/-! ### The candidates -/

/-- What is read of a member of a room. -/
structure User where
  id : PyStr
  displayName : Option PyStr
  mention : PyStr

section Candidates

variable (A : Alphabet) (slugify : PyStr → PyStr)

/-- The tokens that name a member. -/
def User.tokens (user : User) : List PyStr :=
  let names :=
    match user.displayName with
    | none => []
    | some displayName =>
        if displayName = [] then []
        else
          let lowered := A.toLowerCase displayName
          lowered.splitOnP isSpace ++ [slugify lowered]
  let localpart := A.toLowerCase ((split1 colon user.id).1.erase atSign)
  (names ++ [localpart]).filter fun token => 2 ≤ utf16Length token

/-- `TypedMentionResolver.candidatesFrom`. -/
def candidatesFrom (participants : List User) (ownUserId : Option PyStr) :
    List MentionCandidate :=
  participants.filterMap fun user =>
    if some user.id = ownUserId then none
    else if user.tokens A slugify = [] then none
    else some ⟨user.mention, user.tokens A slugify⟩

end Candidates

/-! ### Damage -/

section Damage

variable (A : Alphabet) (candidates : List MentionCandidate)

/-- A segment that is sent as it stands. -/
def Segment.Kept (segment : Segment) : Prop :=
  segment.result A candidates = segment.source

/-- **The pills in a text are intact**: where segments of the text make up the pill of a candidate,
all of them are kept. -/
def PillsIntact (text : PyStr) : Prop :=
  ∀ front pill back, segments A 0 true text = front ++ pill ++ back →
    (∃ c ∈ candidates, pill.flatMap Segment.source = c.pill) →
    ∀ segment ∈ pill, segment.Kept A candidates

/-- **Only unique tokens are rewritten**: segment by segment a text is kept, or a mention gives way
to the pill of the one candidate that its token names. -/
def OnlyUnique (text : PyStr) : Prop :=
  ∃ parts : List Segment, parts.flatMap Segment.source = text ∧
    parts.flatMap (Segment.result A candidates) = resolve A candidates text ∧
    ∀ segment ∈ parts, segment.Kept A candidates ∨
      ∃ token next c, segment = .mention token next ∧ next ≠ some colon ∧
        A.toLowerCase token ≠ py "room" ∧
        (candidates.filter fun c => A.toLowerCase token ∈ c.tokens) = [c] ∧
        segment.result A candidates = c.pill

/-- **A text is resolved without damage.** -/
structure Undamaged (text : PyStr) : Prop where
  pills : PillsIntact A candidates text
  unique : OnlyUnique A candidates text
  idempotent : resolve A candidates (resolve A candidates text) = resolve A candidates text

/-- A pill that may stand in a text: no mention in it is rewritten. -/
def Standing (pill : PyStr) : Prop :=
  ∀ segment ∈ segments A 0 true pill, segment.Kept A candidates

/-- A pill that may take the place of a mention: it does not end in white space. -/
def Closed (pill : PyStr) : Prop := ∃ c, pill.getLast? = some c ∧ isSpace c = false

/-- A token, as it may be typed, for which a pill is put in. -/
def Inserts (pill : PyStr) : Prop :=
  ∃ token, token ≠ [] ∧ (∀ c ∈ token, A.isToken c = true) ∧
    rewrite A candidates token none = some pill

/-- **The pills of the candidates are settled.** -/
structure Settled : Prop where
  standing : ∀ c ∈ candidates, Standing A candidates c.pill
  closed : ∀ pill, Inserts A candidates pill → Closed pill

/-- The pills that stand in a text, or are put into it, are settled.  Each is judged as if it stood
at the start of a text: behind a character that is no white space, where none of it is read as a
mention, more is asked of it than is needed. -/
structure SettledIn (text : PyStr) : Prop where
  standing : ∀ front pill back, segments A 0 true text = front ++ pill ++ back →
    (∃ c ∈ candidates, pill.flatMap Segment.source = c.pill) →
    Standing A candidates (pill.flatMap Segment.source)
  inserted : ∀ token next pill, .mention token next ∈ segments A 0 true text →
    rewrite A candidates token next = some pill → Standing A candidates pill ∧ Closed pill

end Damage

/-! ### The segments of a text -/

section Segments

variable {A : Alphabet} {candidates : List MentionCandidate} {first : Bool} {c : CodePoint}
  {s t token rest pill : PyStr} {next : Option CodePoint} {part front back : List Segment}

theorem isToken_sign (h : c ∈ [atSign, colon]) : A.isToken c = false := by
  obtain ⟨hletter, hnumber⟩ := A.isLetter_sign c h
  have hother : c ∉ py "._-" := by
    simp only [List.mem_cons, List.not_mem_nil, or_false] at h
    rcases h with rfl | rfl
    · decide
    · decide
  simp [Alphabet.isToken, hletter, hnumber, hother]

theorem isSpace_of_isToken (h : A.isToken c = true) : isSpace c = false := by
  by_contra hspace
  rw [Bool.not_eq_false] at hspace
  obtain ⟨hletter, hnumber⟩ := A.isLetter_space c hspace
  have hother : c ∈ py "._-" := by simpa [Alphabet.isToken, hletter, hnumber] using h
  have hnone : (py "._-").all (fun c => !isSpace c) = true := by decide
  have hnot := List.all_eq_true.1 hnone c hother
  rw [hspace] at hnot
  cases hnot

/-- No token goes on with the text. -/
def Alphabet.Ends (A : Alphabet) (s : PyStr) : Prop := ∀ c ∈ s.head?, A.isToken c = false

theorem ends_nil : A.Ends [] := fun c h => (by cases h)

theorem ends_cons (h : A.isToken c = false) : A.Ends (c :: s) := fun _ hd =>
  Option.mem_some_iff.1 hd ▸ h

theorem Alphabet.Ends.append (hs : A.Ends s) (ht : A.Ends t) : A.Ends (s ++ t) := by
  cases s with
  | nil => exact ht
  | cons c s => exact hs

theorem Alphabet.Ends.of_append (h : A.Ends (s ++ t)) : A.Ends s := by
  cases s with
  | nil => exact ends_nil
  | cons c s => exact h

theorem takeWhile_token (htoken : ∀ c ∈ token, A.isToken c = true) (hrest : A.Ends rest) :
    (token ++ rest).takeWhile A.isToken = token ∧ (token ++ rest).dropWhile A.isToken = rest := by
  rw [List.takeWhile_append_of_pos htoken, List.dropWhile_append_of_pos htoken]
  cases rest with
  | nil => exact ⟨List.append_nil token, rfl⟩
  | cons d rest =>
      have hd : A.isToken d = false := hrest d rfl
      simp [hd]

theorem segments_drop (n : ℕ) (s : PyStr) :
    segments A (n + 1) first s = segments A 0 false (s.drop (n + 1)) := by
  induction n generalizing first s with
  | zero => cases s <;> rfl
  | succ n ih =>
      cases s with
      | nil => rfl
      | cons c s => exact ih s

theorem segments_char (h : first = true → c = atSign → A.Ends s) :
    segments A 0 first (c :: s) = .char c :: segments A 0 (isSpace c) s := by
  rw [segments]
  refine if_neg ?_
  simp only [Bool.and_eq_true, decide_eq_true_eq]
  rintro ⟨⟨hfirst, hc⟩, htoken⟩
  refine htoken ?_
  have hends := h hfirst hc
  cases s with
  | nil => rfl
  | cons d s =>
      have hd : A.isToken d = false := hends d rfl
      simp [hd]

theorem segments_mention (hne : token ≠ []) (htoken : ∀ c ∈ token, A.isToken c = true)
    (hrest : A.Ends rest) :
    segments A 0 true (atSign :: (token ++ rest)) =
      .mention token rest.head? :: segments A 0 false rest := by
  obtain ⟨htake, hdrop⟩ := takeWhile_token htoken hrest
  rw [segments, htake, hdrop]
  obtain ⟨n, hn⟩ := Nat.exists_eq_succ_of_ne_zero fun h => hne (List.length_eq_zero_iff.1 h)
  have hskip : segments A token.length false (token ++ rest) = segments A 0 false rest := by
    rw [hn, segments_drop, ← Nat.succ_eq_add_one, ← hn, List.drop_left]
  rw [hskip]
  exact if_pos (by simp [hne])

/-- **Induction over a text** that goes over a mention in one step. -/
theorem segments_induction {motive : Bool → PyStr → Prop} (A : Alphabet)
    (nil : ∀ first, motive first [])
    (char : ∀ first c s, (first = true → c = atSign → A.Ends s) → motive (isSpace c) s →
      motive first (c :: s))
    (mention : ∀ token rest, token ≠ [] → (∀ c ∈ token, A.isToken c = true) → A.Ends rest →
      motive false rest → motive true (atSign :: (token ++ rest)))
    (first : Bool) (s : PyStr) : motive first s := by
  induction hn : s.length using Nat.strong_induction_on generalizing first s with
  | _ n ih =>
      cases s with
      | nil => exact nil first
      | cons c s =>
          have hends : A.Ends (s.dropWhile A.isToken) := by
            intro d hd
            obtain ⟨rest, hrest⟩ := List.head?_eq_some_iff.1 hd
            have hne : s.dropWhile A.isToken ≠ [] := by
              rw [hrest]
              exact List.cons_ne_nil d rest
            have hnot := List.head_dropWhile_not A.isToken hne
            simpa [hrest] using hnot
          by_cases h : first = true → c = atSign → A.Ends s
          · exact char first c s h (ih s.length (hn ▸ Nat.lt_succ_self _) _ s rfl)
          · push Not at h
            obtain ⟨rfl, rfl, hnot⟩ := h
            have hsplit := List.takeWhile_append_dropWhile (p := A.isToken) (l := s)
            rw [← hsplit]
            refine mention _ _ ?_ (fun c hc => List.mem_takeWhile_imp hc) hends ?_
            · intro hempty
              rw [hempty, List.nil_append] at hsplit
              exact hnot (hsplit ▸ hends)
            · have hle := (List.dropWhile_suffix A.isToken (l := s)).length_le
              rw [List.length_cons] at hn
              exact ih _ (by omega) _ _ rfl

/-- The segments make up the text. -/
theorem source_segments (first : Bool) (s : PyStr) :
    (segments A 0 first s).flatMap Segment.source = s := by
  induction first, s using segments_induction A with
  | nil first => rfl
  | char first c s h ih =>
      rw [segments_char h, List.flatMap_cons, ih]
      rfl
  | mention token rest hne htoken hrest ih =>
      rw [segments_mention hne htoken hrest, List.flatMap_cons, ih]
      rfl

/-- A mention has a token. -/
theorem token_of_mem (h : .mention token next ∈ segments A 0 first s) :
    token ≠ [] ∧ ∀ c ∈ token, A.isToken c = true := by
  induction first, s using segments_induction A with
  | nil first => cases h
  | char first c s hchar ih =>
      rw [segments_char hchar] at h
      rcases List.mem_cons.1 h with h | h
      · cases h
      · exact ih h
  | mention token' rest hne htoken hrest ih =>
      rw [segments_mention hne htoken hrest] at h
      rcases List.mem_cons.1 h with h | h
      · cases h
        exact ⟨hne, htoken⟩
      · exact ih h

/-- Inside a text, a token is a run of characters. -/
theorem segments_token (htoken : ∀ c ∈ token, A.isToken c = true) :
    segments A 0 false (token ++ rest) = token.map .char ++ segments A 0 false rest := by
  induction token with
  | nil => rfl
  | cons c token ih =>
      have hc := htoken c List.mem_cons_self
      rw [List.cons_append, segments_char fun h => (by cases h), isSpace_of_isToken hc,
        ih fun d hd => htoken d (List.mem_cons_of_mem _ hd)]
      rfl

/-! ### Parts of a text -/

/-- Behind its first segments a text is cut as before. -/
theorem segments_back (h : segments A 0 first s = front ++ back) :
    ∃ first', segments A 0 first' (back.flatMap Segment.source) = back := by
  induction first, s using segments_induction A generalizing front with
  | nil first =>
      obtain ⟨-, rfl⟩ := List.append_eq_nil_iff.1 h.symm
      exact ⟨first, rfl⟩
  | char first c s hchar ih =>
      cases front with
      | nil =>
          rw [List.nil_append] at h
          rw [← h, source_segments]
          exact ⟨first, rfl⟩
      | cons segment front =>
          rw [segments_char hchar] at h
          exact ih (List.cons.inj h).2
  | mention token rest hne htoken hrest ih =>
      cases front with
      | nil =>
          rw [List.nil_append] at h
          rw [← h, source_segments]
          exact ⟨true, rfl⟩
      | cons segment front =>
          rw [segments_mention hne htoken hrest] at h
          exact ih (List.cons.inj h).2

/-- The mentions in front stand there without the rest of the text, too. -/
theorem mention_mem_front (h : segments A 0 first s = part ++ back)
    (hmem : .mention token next ∈ part) :
    ∃ next', (next' = next ∨ next' = none) ∧
      .mention token next' ∈ segments A 0 first (part.flatMap Segment.source) := by
  have hfront : ∀ {first s part}, segments A 0 first s = part ++ back →
      s = part.flatMap Segment.source ++ back.flatMap Segment.source := by
    intro first s part h
    rw [← List.flatMap_append, ← h, source_segments]
  induction first, s using segments_induction A generalizing part with
  | nil first =>
      obtain ⟨rfl, -⟩ := List.append_eq_nil_iff.1 h.symm
      cases hmem
  | char first c s hchar ih =>
      cases part with
      | nil => cases hmem
      | cons segment part =>
          rw [segments_char hchar] at h
          obtain ⟨rfl, htail⟩ := List.cons.inj h
          have hmem : .mention token next ∈ part := by simpa using hmem
          obtain ⟨next', hnext, hin⟩ := ih htail hmem
          refine ⟨next', hnext, ?_⟩
          change _ ∈ segments A 0 first (c :: part.flatMap Segment.source)
          rw [segments_char fun hfirst hc => ((hfront htail) ▸ hchar hfirst hc).of_append]
          exact List.mem_cons_of_mem _ hin
  | mention token' rest hne htoken hrest ih =>
      cases part with
      | nil => cases hmem
      | cons segment part =>
          rw [segments_mention hne htoken hrest] at h
          obtain ⟨rfl, htail⟩ := List.cons.inj h
          have hsplit := hfront htail
          have hends : A.Ends (part.flatMap Segment.source) := (hsplit ▸ hrest).of_append
          change ∃ next', _ ∧ _ ∈ segments A 0 true
            (atSign :: (token' ++ part.flatMap Segment.source))
          rw [segments_mention hne htoken hends]
          rcases List.mem_cons.1 hmem with hmem | hmem
          · obtain ⟨rfl, rfl⟩ := Segment.mention.inj hmem
            refine ⟨_, ?_, List.mem_cons_self⟩
            rw [hsplit]
            cases part.flatMap Segment.source with
            | nil => exact .inr rfl
            | cons d s => exact .inl rfl
          · obtain ⟨next', hnext, hin⟩ := ih htail hmem
            exact ⟨next', hnext, List.mem_cons_of_mem _ hin⟩

/-- What is a mention inside a text is one at the start of a text. -/
theorem mention_mem_first (h : .mention token next ∈ segments A 0 first s) :
    .mention token next ∈ segments A 0 true s := by
  cases first with
  | true => exact h
  | false =>
      generalize hfirst : true = first
      induction first, s using segments_induction A with
      | nil first => exact h
      | char first c s hchar _ =>
          rw [segments_char hchar]
          rwa [segments_char fun hfalse => (by cases hfalse)] at h
      | mention token' rest hne htoken hrest _ =>
          rw [segments_mention hne htoken hrest]
          rw [segments_char fun hfalse => (by cases hfalse),
            show isSpace atSign = false by decide, segments_token htoken] at h
          refine List.mem_cons_of_mem _ ?_
          simpa using h

/-! ### What is rewritten -/

theorem rewrite_eq_some : rewrite A candidates token next = some pill ↔
    next ≠ some colon ∧ A.toLowerCase token ≠ py "room" ∧
      ∃ c, (candidates.filter fun c => A.toLowerCase token ∈ c.tokens) = [c] ∧ c.pill = pill := by
  unfold rewrite
  split
  · rename_i h
    simp [h]
  dsimp only
  split
  · rename_i h
    simp [h]
  · rename_i hnext hroom
    simp only [ne_eq, hnext, not_false_eq_true, hroom, true_and]
    split
    · rename_i c heq
      simp [heq]
    · rename_i hnot
      refine iff_of_false (fun h => by cases h) ?_
      rintro ⟨c, hc, -⟩
      exact hnot c hc

/-- Only a colon behind it changes what becomes of a mention. -/
theorem rewrite_next (h : next ≠ some colon) :
    rewrite A candidates token next = rewrite A candidates token none := by
  rw [rewrite, rewrite, if_neg h, if_neg (Option.some_ne_none colon).symm]

theorem mem_of_rewrite (h : rewrite A candidates token next = some pill) :
    ∃ c ∈ candidates, c.pill = pill := by
  obtain ⟨-, -, c, hc, rfl⟩ := rewrite_eq_some.1 h
  refine ⟨c, ?_, rfl⟩
  have hmem : c ∈ candidates.filter fun c => A.toLowerCase token ∈ c.tokens := by
    rw [hc]
    exact List.mem_cons_self
  exact List.mem_of_mem_filter hmem

theorem result_mention (h : rewrite A candidates token next = none) :
    (Segment.mention token next).Kept A candidates := by
  rw [Segment.Kept, Segment.result, h]
  rfl

/-- A mention is kept where the same token is kept, behind which a text ends. -/
theorem kept_of_kept {next' : Option CodePoint} (hnext : next' = next ∨ next' = none)
    (h : (Segment.mention token next').Kept A candidates) :
    (Segment.mention token next).Kept A candidates := by
  rcases hnext with rfl | rfl
  · exact h
  by_cases hcolon : next = some colon
  · exact result_mention (if_pos hcolon)
  · rw [Segment.Kept, Segment.result, rewrite_next hcolon]
    exact h

/-- **Where the pills of a text are settled by themselves, they are intact in it.** -/
theorem pillsIntact_of_standing {text : PyStr}
    (h : ∀ front pill back, segments A 0 true text = front ++ pill ++ back →
      (∃ c ∈ candidates, pill.flatMap Segment.source = c.pill) →
      Standing A candidates (pill.flatMap Segment.source)) :
    PillsIntact A candidates text := by
  intro front pill back htext hpill segment hsegment
  have hstanding := h front pill back htext hpill
  cases segment with
  | char c => rfl
  | mention token next =>
      rw [List.append_assoc] at htext
      obtain ⟨first, hback⟩ := segments_back htext
      obtain ⟨next', hnext, hmem⟩ := mention_mem_front hback hsegment
      exact kept_of_kept hnext (hstanding _ (mention_mem_first hmem))

/-! ### The text that is sent -/

/-- `resolve` without its short cut. -/
def resolveFrom (A : Alphabet) (candidates : List MentionCandidate) (first : Bool) (s : PyStr) :
    PyStr :=
  (segments A 0 first s).flatMap (Segment.result A candidates)

theorem flatMap_result_of_kept {l : List Segment} (h : ∀ segment ∈ l, segment.Kept A candidates) :
    l.flatMap (Segment.result A candidates) = l.flatMap Segment.source :=
  List.flatMap_congr h

/-- The short cut returns the same. -/
theorem resolve_eq (text : PyStr) :
    resolve A candidates text = resolveFrom A candidates true text := by
  unfold resolve
  split
  · rename_i h
    rw [resolveFrom, flatMap_result_of_kept, source_segments]
    intro segment hsegment
    cases segment with
    | char c => rfl
    | mention token next =>
        rcases h with rfl | h
        · refine result_mention ?_
          by_contra hsome
          obtain ⟨pill, hpill⟩ := Option.ne_none_iff_exists'.1 hsome
          obtain ⟨c, hc, -⟩ := mem_of_rewrite hpill
          cases hc
        · refine absurd ?_ h
          rw [← source_segments (A := A) true text]
          exact List.mem_flatMap.2 ⟨_, hsegment, List.mem_cons_self⟩
  · rfl

theorem resolveFrom_char (h : first = true → c = atSign → A.Ends s) :
    resolveFrom A candidates first (c :: s) = c :: resolveFrom A candidates (isSpace c) s := by
  rw [resolveFrom, segments_char h]
  rfl

theorem resolveFrom_mention (hne : token ≠ []) (htoken : ∀ c ∈ token, A.isToken c = true)
    (hrest : A.Ends rest) :
    resolveFrom A candidates true (atSign :: (token ++ rest)) =
      (Segment.mention token rest.head?).result A candidates ++
        resolveFrom A candidates false rest := by
  rw [resolveFrom, segments_mention hne htoken hrest]
  rfl

/-- Inside a text the first character stays. -/
theorem head_resolveFrom (s : PyStr) : (resolveFrom A candidates false s).head? = s.head? := by
  cases s with
  | nil => rfl
  | cons c s =>
      rw [resolveFrom_char fun h => (by cases h)]
      rfl

/-- A pill that may stand in a text is resolved as it is. -/
theorem Standing.resolveFrom (h : Standing A candidates pill) :
    resolveFrom A candidates true pill = pill := by
  rw [TypedMentions.resolveFrom, flatMap_result_of_kept h, source_segments]

/-- Whether a mention may begin behind a text. -/
def firstAfter (first : Bool) (s : PyStr) : Bool := s.getLast?.elim first isSpace

theorem firstAfter_cons : firstAfter first (c :: s) = firstAfter (isSpace c) s := by
  cases s with
  | nil => rfl
  | cons d s => rfl

theorem firstAfter_token (hne : token ≠ []) (htoken : ∀ c ∈ token, A.isToken c = true) :
    firstAfter first (token ++ rest) = firstAfter false rest := by
  cases rest with
  | nil =>
      obtain ⟨front, c, rfl⟩ := List.eq_nil_or_concat token |>.resolve_left hne
      have hc := isSpace_of_isToken (htoken c (by simp))
      simp [firstAfter, hc]
  | cons d rest => simp [firstAfter, List.getLast?_append, List.getLast?_cons]

/-- **Resolving goes over the parts of a text**, where no token goes over their border. -/
theorem resolveFrom_append (hends : A.Ends t) (hcolon : t.head? ≠ some colon) :
    resolveFrom A candidates first (s ++ t) =
      resolveFrom A candidates first s ++ resolveFrom A candidates (firstAfter first s) t := by
  induction first, s using segments_induction A with
  | nil first => rfl
  | char first c s hchar ih =>
      rw [List.cons_append, resolveFrom_char fun hfirst hc => (hchar hfirst hc).append hends, ih,
        resolveFrom_char hchar, firstAfter_cons, List.cons_append]
  | mention token rest hne htoken hrest ih =>
      have hresult : (Segment.mention token (rest ++ t).head?).result A candidates =
          (Segment.mention token rest.head?).result A candidates := by
        cases rest with
        | nil =>
            rw [Segment.result, Segment.result, List.nil_append, rewrite_next hcolon]
            rfl
        | cons d rest => rfl
      rw [List.cons_append, List.append_assoc, resolveFrom_mention hne htoken (hrest.append hends),
        ih, resolveFrom_mention hne htoken hrest, hresult, List.append_assoc, firstAfter_cons,
        firstAfter_token hne htoken]

/-- **A text with settled pills is resolved for good.** -/
theorem resolveFrom_idem
    (h : ∀ token next pill, .mention token next ∈ segments A 0 first s →
      rewrite A candidates token next = some pill → Standing A candidates pill ∧ Closed pill) :
    resolveFrom A candidates first (resolveFrom A candidates first s) =
      resolveFrom A candidates first s := by
  induction first, s using segments_induction A with
  | nil first => rfl
  | char first c s hchar ih =>
      rw [segments_char hchar] at h
      have ih := ih fun token next pill hmem => h token next pill (List.mem_cons_of_mem _ hmem)
      rw [resolveFrom_char hchar, resolveFrom_char, ih]
      rintro hfirst rfl d hd
      rw [show isSpace atSign = false by decide, head_resolveFrom] at hd
      exact hchar hfirst rfl d hd
  | mention token rest hne htoken hrest ih =>
      rw [segments_mention hne htoken hrest] at h
      have ih := ih fun token next pill hmem => h token next pill (List.mem_cons_of_mem _ hmem)
      have hhead := @head_resolveFrom A candidates rest
      set out := resolveFrom A candidates false rest
      have hout : A.Ends out := fun d hd => hrest d (hhead ▸ hd)
      rw [resolveFrom_mention hne htoken hrest]
      cases hrewrite : rewrite A candidates token rest.head? with
      | none =>
          have hkept := result_mention hrewrite
          rw [Segment.Kept, Segment.source] at hkept
          rw [hkept, List.cons_append, resolveFrom_mention hne htoken hout, hhead, hkept, ih]
          rfl
      | some pill =>
          obtain ⟨hstanding, c, hlast, hspace⟩ := h token _ pill List.mem_cons_self hrewrite
          have hresult : (Segment.mention token rest.head?).result A candidates = pill := by
            rw [Segment.result, hrewrite]
            rfl
          have hcolon : out.head? ≠ some colon := hhead ▸ (rewrite_eq_some.1 hrewrite).1
          have hafter : firstAfter true pill = false := by rw [firstAfter, hlast]; exact hspace
          rw [hresult, resolveFrom_append hout hcolon, hstanding.resolveFrom, hafter, ih]

/-- Only unique tokens are rewritten, in every text. -/
theorem onlyUnique (A : Alphabet) (candidates : List MentionCandidate) (text : PyStr) :
    OnlyUnique A candidates text := by
  refine ⟨segments A 0 true text, source_segments true text, (resolve_eq text).symm, ?_⟩
  intro segment _
  cases segment with
  | char c => exact .inl rfl
  | mention token next =>
      cases hrewrite : rewrite A candidates token next with
      | none => exact .inl (result_mention hrewrite)
      | some pill =>
          obtain ⟨hnext, hroom, c, hc, rfl⟩ := rewrite_eq_some.1 hrewrite
          refine .inr ⟨token, next, c, rfl, hnext, hroom, hc, ?_⟩
          rw [Segment.result, hrewrite]
          rfl

theorem undamaged_of_settledIn {text : PyStr} (h : SettledIn A candidates text) :
    Undamaged A candidates text where
  pills := pillsIntact_of_standing h.standing
  unique := onlyUnique A candidates text
  idempotent := by
    rw [resolve_eq, resolve_eq]
    exact resolveFrom_idem h.inserted

theorem Settled.settledIn (h : Settled A candidates) (text : PyStr) :
    SettledIn A candidates text where
  standing := by
    rintro front pill back - ⟨c, hc, hpill⟩
    exact hpill ▸ h.standing c hc
  inserted := by
    intro token next pill hmem hrewrite
    obtain ⟨hne, htoken⟩ := token_of_mem hmem
    obtain ⟨c, hc, rfl⟩ := mem_of_rewrite hrewrite
    rw [rewrite_next (rewrite_eq_some.1 hrewrite).1] at hrewrite
    exact ⟨h.standing c hc, h.closed c.pill ⟨token, hne, htoken, hrewrite⟩⟩

/-- A pill that is put in ends in no white space: otherwise the text `@token@token`, where the
second `@` begins no mention, has one after it is resolved. -/
theorem closed_of_idem (hstanding : ∀ c ∈ candidates, Standing A candidates c.pill)
    (hidem : ∀ text, resolve A candidates (resolve A candidates text) = resolve A candidates text)
    (h : Inserts A candidates pill) : Closed pill := by
  obtain ⟨token, hne, htoken, hrewrite⟩ := h
  obtain ⟨c, hc, rfl⟩ := mem_of_rewrite hrewrite
  have hat : A.isToken atSign = false := isToken_sign (by decide)
  have hcolon : (atSign :: token).head? ≠ some colon := by
    rw [List.head?_cons]
    decide
  have htwice : resolveFrom A candidates true (atSign :: (token ++ atSign :: token)) =
      c.pill ++ atSign :: token := by
    have hkept : segments A 0 false (atSign :: token) = .char atSign :: token.map .char := by
      have hrun := @segments_token A _ [] htoken
      rw [List.append_nil, segments, List.append_nil] at hrun
      rw [segments_char fun h => (by cases h), show isSpace atSign = false by decide, hrun]
    rw [resolveFrom_mention hne htoken (ends_cons hat), Segment.result, List.head?_cons,
      rewrite_next (by decide), hrewrite, resolveFrom, hkept]
    simp [Segment.result, List.flatMap_map]
  have hagain := hidem (atSign :: (token ++ atSign :: token))
  rw [resolve_eq, resolve_eq, htwice, resolveFrom_append (ends_cons hat) hcolon,
    (hstanding c hc).resolveFrom] at hagain
  have hrest := List.append_cancel_left hagain
  by_contra hclosed
  have hafter : firstAfter true c.pill = true := by
    unfold firstAfter
    cases hlast : c.pill.getLast? with
    | none => rfl
    | some d =>
        by_contra hspace
        exact hclosed ⟨d, hlast, by simpa using hspace⟩
  have hmention := @resolveFrom_mention A candidates _ _ hne htoken ends_nil
  rw [List.append_nil, List.head?_nil, Segment.result, hrewrite] at hmention
  rw [hafter, hmention] at hrest
  have hpill : c.pill = atSign :: token := by simpa [resolveFrom, segments] using hrest
  obtain ⟨d, hlast⟩ := Option.ne_none_iff_exists'.1 (mt List.getLast?_eq_none_iff.1 hne)
  refine hclosed ⟨d, ?_, isSpace_of_isToken (htoken d (List.mem_of_getLast? hlast))⟩
  rw [hpill, List.getLast?_cons, hlast]
  rfl

end Segments

/-- **Texts are resolved without damage exactly if the pills of the candidates are settled**, and
one text is if the pills in it are. -/
theorem undamaged_iff (A : Alphabet) (candidates : List MentionCandidate) :
    ((∀ text, Undamaged A candidates text) ↔ Settled A candidates) ∧
      ∀ text, SettledIn A candidates text → Undamaged A candidates text := by
  refine ⟨⟨fun h => ?_, fun h text => undamaged_of_settledIn (h.settledIn text)⟩,
    fun text => undamaged_of_settledIn⟩
  have hstanding : ∀ c ∈ candidates, Standing A candidates c.pill := by
    intro c hc
    refine (h c.pill).pills [] _ [] ?_ ⟨c, hc, source_segments true c.pill⟩
    rw [List.nil_append, List.append_nil]
  exact ⟨hstanding, fun pill => closed_of_idem hstanding fun text => (h text).idempotent⟩

/-- The letters and digits of ASCII. -/
def ascii : Alphabet where
  isLetter c := (0x41 ≤ c.val && c.val ≤ 0x5A) || (0x61 ≤ c.val && c.val ≤ 0x7A)
  isNumber c := 0x30 ≤ c.val && c.val ≤ 0x39
  toLowerCase s := s.map toLowerCase
  isLetter_sign := by
    intro c h
    simp only [List.mem_cons, List.not_mem_nil, or_false] at h
    rcases h with rfl | rfl
    · decide
    · decide
  isLetter_space := by
    intro c h
    simp only [isSpace, Bool.or_eq_true, Bool.and_eq_true, decide_eq_true_eq] at h
    simp only [Bool.or_eq_false_iff, Bool.and_eq_false_iff, decide_eq_false_iff_not]
    omega

/-- A member with a plain name. -/
def annaK : MentionCandidate := ⟨"@[Anna K]", ["anna", "anna-k"]⟩

theorem annaK_undamaged :
    (∀ text, Undamaged ascii [annaK] text) ∧
      resolve ascii [annaK] "@Anna, @[Anna K]" = py "@[Anna K], @[Anna K]" ∧
      Undamaged ascii [annaK] "@Anna, @[Anna K]" := by
  have hsettled : Settled ascii [annaK] := by
    refine ⟨fun c hc => ?_, fun pill hpill => ?_⟩
    · rw [List.mem_singleton.1 hc]
      unfold Standing Segment.Kept
      decide
    · obtain ⟨token, -, -, hrewrite⟩ := hpill
      obtain ⟨c, hc, rfl⟩ := mem_of_rewrite hrewrite
      rw [List.mem_singleton.1 hc]
      exact ⟨codePoint ']', by decide, by decide⟩
  obtain ⟨hall, hone⟩ := undamaged_iff ascii [annaK]
  exact ⟨hall.2 hsettled, by decide, hone _ (hsettled.settledIn _)⟩

/-- A member called `Anna @ivan`, and one called `Ivan Petrov`. -/
def annaAndIvan : List User :=
  [⟨"@anna:liza", some "Anna @ivan", "@[Anna @ivan]"⟩,
    ⟨"@ivan:liza", some "Ivan Petrov", "@[Ivan Petrov]"⟩]

/-- A slug of ASCII letters. -/
def slugOf (s : PyStr) : PyStr :=
  (s.filter fun c => c ≠ atSign).map fun c => if c = codePoint ' ' then codePoint '-' else c

/-- The candidates of these members. -/
def annaOrIvan : List MentionCandidate := candidatesFrom ascii slugOf annaAndIvan none

/-- **A pill with a mention in its name is damaged**, and a text that it is put into is changed
again when it is resolved again. -/
theorem anna_damaged :
    resolve ascii annaOrIvan "@[Anna @ivan]" = py "@[Anna @[Ivan Petrov]]" ∧
      ¬PillsIntact ascii annaOrIvan "@[Anna @ivan]" ∧
      resolve ascii annaOrIvan "@anna" = py "@[Anna @ivan]" ∧
      resolve ascii annaOrIvan (resolve ascii annaOrIvan "@anna") ≠
        resolve ascii annaOrIvan "@anna" := by
  have hdamaged : resolve ascii annaOrIvan "@[Anna @ivan]" = py "@[Anna @[Ivan Petrov]]" := by
    decide
  have hanna : resolve ascii annaOrIvan "@anna" = py "@[Anna @ivan]" := by decide
  refine ⟨hdamaged, fun h => ?_, hanna, ?_⟩
  · have hpill : ∃ c ∈ annaOrIvan, c.pill = py "@[Anna @ivan]" := by decide
    obtain ⟨c, hc, hpill⟩ := hpill
    have hkept := h [] (segments ascii 0 true "@[Anna @ivan]") []
      (by rw [List.nil_append, List.append_nil])
      ⟨c, hc, by rw [source_segments, hpill]⟩
    have hsame := flatMap_result_of_kept hkept
    rw [source_segments] at hsame
    rw [resolve_eq, resolveFrom, hsame] at hdamaged
    revert hdamaged
    decide
  · rw [hanna, hdamaged]
    decide

end TypedMentions
end Client
end Liza
