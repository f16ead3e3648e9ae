/-
# Cutting a payload down to size

`servers/sygnal/sygnal/apnstruncate.py`: characters are chopped off the longest text of
the alert until the payload fits, or no text is left (`BodyTooLongException`).

`chop_cases` says what one round of the loop can do.  The loop ends because each round
takes one character away (`weight`).
-/

import Liza.Sygnal.Notifications

set_option autoImplicit false

namespace Liza
namespace Sygnal

open Lib

/-- A text of the alert that may be cut. -/
inductive Choppable where
  | alert
  | alertBody
  | alertLocArg (i : ℕ)

/-- `is_too_long`. -/
def isTooLong (L : Limits) (payload : Dict) (maxLength : ℕ) : Py SygnalExn Bool :=
  if (Json.obj payload).within L.digits L.dumpDepth then
    if (Json.obj payload).encodable then .ok (maxLength < (Json.obj payload).length)
    else Py.throw .unicodeEncodeError
  else Py.throw .limitError

/-- `len(alert["loc-args"])`, where there are any. -/
def locArgsLen (alert : Dict) : Py SygnalExn ℕ :=
  match alert.get? "loc-args" with
  | none => .ok 0
  | some args => args.len

/-- The body of an alert, where it has one, and its `n` arguments. -/
def alertChoppables (alert : Dict) (n : ℕ) : List Choppable :=
  (if alert.contains "body" then [.alertBody] else []) ++ (List.range n).map .alertLocArg

/-- The choppables of an alert. -/
def choppablesForAlert : Json → Py SygnalExn (List Choppable)
  | .str _ => .ok [.alert]
  | .obj alert => do
      let n ← locArgsLen alert
      .ok (alertChoppables alert n)
  | _ => .ok []

/-- `_choppables_for_aps`. -/
def choppablesForAps (aps : Json) : Py SygnalExn (List Choppable) := do
  let present ← aps.has "alert"
  if present then
    let alert ← aps.item "alert"
    choppablesForAlert alert
  else .ok []

/-- `_choppable_get`. -/
def choppableGet (aps : Json) : Choppable → Py SygnalExn Json
  | .alert => aps.item "alert"
  | .alertBody => do
      let alert ← aps.item "alert"
      alert.item "body"
  | .alertLocArg i => do
      let alert ← aps.item "alert"
      let args ← alert.item "loc-args"
      args.index i

/-- `_choppable_put`, with the dictionaries on the way written again. -/
def choppablePut (aps : Json) (c : Choppable) (val : Json) : Py SygnalExn Json :=
  match c with
  | .alert => aps.setItem "alert" val
  | .alertBody => do
      let alert ← aps.item "alert"
      let alert ← alert.setItem "body" val
      aps.setItem "alert" alert
  | .alertLocArg i => do
      let alert ← aps.item "alert"
      let args ← alert.item "loc-args"
      let args ← args.setIndex i val
      let alert ← alert.setItem "loc-args" args
      aps.setItem "alert" alert

/-- The loop of `_longest_choppable`. -/
def longestFrom (aps : Json) (longest : Option Choppable) (lengthOfLongest : ℕ) :
    List Choppable → Py SygnalExn (Option Choppable)
  | [] => .ok longest
  | c :: cs => do
      let val ← choppableGet aps c
      let valLen ← val.encode
      if lengthOfLongest < valLen then longestFrom aps (some c) valLen cs
      else longestFrom aps longest lengthOfLongest cs

/-- `_longest_choppable`. -/
def longestChoppable (aps : Json) : Py SygnalExn (Option Choppable) := do
  let cs ← choppablesForAps aps
  longestFrom aps none 0 cs

/-- One round of the loop of `truncate`: `aps` with the longest text cut by a character,
or `none` where every text is empty. -/
def chop (aps : Json) : Py SygnalExn (Option Json) := do
  let longest ← longestChoppable aps
  match longest with
  | none => .ok none
  | some c =>
      let txt ← choppableGet aps c
      let txt ← txt.dropLast
      let aps ← choppablePut aps c txt
      .ok (some aps)

/-- The first loop of `truncate`, which looks for `bytes`; JSON has none. -/
def readAll (aps : Json) : List Choppable → Py SygnalExn Unit
  | [] => .ok ()
  | c :: cs => do
      let _ ← choppableGet aps c
      readAll aps cs

/-! ### One round takes a character away -/

section Chop

variable {aps aps' : Json}

/-- The choppable is a string that can be encoded. -/
def TextAt (aps : Json) (c : Choppable) (s : PyStr) : Prop :=
  choppableGet aps c = .ok (.str s) ∧ encodable s = true

/-- A search that ends has found every choppable to be a string. -/
theorem longestFrom_texts {longest r : Option Choppable} {n : ℕ} {cs : List Choppable}
    (h : longestFrom aps longest n cs = .ok r) : ∀ c ∈ cs, ∃ s, TextAt aps c s := by
  induction cs generalizing longest n with
  | nil => simp
  | cons c cs ih =>
      obtain ⟨val, hval, hbind⟩ := Py.bind_eq_ok h
      obtain ⟨len, hlen, hloop⟩ := Py.bind_eq_ok hbind
      obtain ⟨s, rfl, hs, -⟩ := Json.encode_eq_ok hlen
      have hrest : ∀ c ∈ cs, ∃ s, TextAt aps c s := by
        split at hloop
        · exact ih hloop
        · exact ih hloop
      intro c' hc'
      rcases List.mem_cons.1 hc' with rfl | hmem
      · exact ⟨s, hval, hs⟩
      · exact hrest c' hmem

/-- Where every choppable is a string, the search ends: with what it had, if nothing was
longer, or with one that is. -/
theorem longestFrom_of_texts (longest : Option Choppable) (n : ℕ) {cs : List Choppable}
    (h : ∀ c ∈ cs, ∃ s, TextAt aps c s) :
    longestFrom aps longest n cs = .ok longest ∧
        (∀ c ∈ cs, ∀ s, TextAt aps c s → utf8Length s ≤ n) ∨
      ∃ c ∈ cs, ∃ s, TextAt aps c s ∧ n < utf8Length s ∧
        longestFrom aps longest n cs = .ok (some c) := by
  induction cs generalizing longest n with
  | nil => exact .inl ⟨rfl, by simp⟩
  | cons c cs ih =>
      obtain ⟨s, hs, henc⟩ := h c List.mem_cons_self
      have hrest : ∀ c ∈ cs, ∃ s, TextAt aps c s := fun c hc => h c (List.mem_cons_of_mem _ hc)
      have hstep : longestFrom aps longest n (c :: cs) =
          if n < utf8Length s then longestFrom aps (some c) (utf8Length s) cs
          else longestFrom aps longest n cs := by
        simp only [longestFrom, hs, Py.ok_bind, Json.encode, encode, henc, if_true]
      have hsame : ∀ t, TextAt aps c t → t = s := by
        intro t ht
        have := ht.1.symm.trans hs
        simpa using this
      rw [hstep]
      by_cases hlt : n < utf8Length s
      · rw [if_pos hlt]
        rcases ih (some c) (utf8Length s) hrest with ⟨hr, -⟩ | ⟨c', hc', t, ht, hlen, hr⟩
        · exact .inr ⟨c, List.mem_cons_self, s, ⟨hs, henc⟩, hlt, hr⟩
        · exact .inr ⟨c', List.mem_cons_of_mem _ hc', t, ht, hlt.trans hlen, hr⟩
      · rw [if_neg hlt]
        rcases ih longest n hrest with ⟨hr, hall⟩ | ⟨c', hc', t, ht, hlen, hr⟩
        · refine .inl ⟨hr, ?_⟩
          intro c' hc' t ht
          rcases List.mem_cons.1 hc' with rfl | hmem
          · rw [hsame t ht]
            omega
          · exact hall c' hmem t ht
        · exact .inr ⟨c', List.mem_cons_of_mem _ hc', t, ht, hlen, hr⟩

/-- What a round may do: cut the alert, its body, or one of its arguments. -/
theorem chop_cases (h : chop aps = .ok (some aps')) :
    ∃ d, aps = .obj d ∧
      ((∃ s, Dict.get? d "alert" = some (.str s) ∧ s ≠ [] ∧
          aps' = .obj (Dict.set d "alert" (.str s.dropLast))) ∨
        (∃ a s, Dict.get? d "alert" = some (.obj a) ∧ Dict.get? a "body" = some (.str s) ∧ s ≠ [] ∧
          aps' = .obj (Dict.set d "alert" (.obj (Dict.set a "body" (.str s.dropLast))))) ∨
        ∃ a l i s, Dict.get? d "alert" = some (.obj a) ∧ Dict.get? a "loc-args" = some (.arr l) ∧
          l[i]? = some (.str s) ∧ s ≠ [] ∧ aps' = .obj (Dict.set d "alert"
            (.obj (Dict.set a "loc-args" (.arr (l.set i (.str s.dropLast))))))) := by
  obtain ⟨longest, hlong, h⟩ := Py.bind_eq_ok h
  obtain ⟨cs, -, hlong⟩ := Py.bind_eq_ok hlong
  rcases longestFrom_of_texts none 0 (longestFrom_texts hlong) with ⟨hr, -⟩ | ⟨c, -, s, ht, hs, hr⟩
  · obtain rfl := Except.ok.inj (hr.symm.trans hlong)
    cases h
  obtain rfl := Except.ok.inj (hr.symm.trans hlong)
  have hne : s ≠ [] := utf8Length_pos.1 hs
  simp only [ht.1, Py.ok_bind, Json.dropLast] at h
  obtain ⟨put, hput, h⟩ := Py.bind_eq_ok h
  obtain rfl := Option.some.inj (Except.ok.inj h)
  have hget := ht.1
  cases c with
  | alert =>
      obtain ⟨d, rfl, hd⟩ := Json.item_eq_ok hget
      simp only [choppablePut, Json.setItem] at hput
      exact ⟨d, rfl, .inl ⟨s, hd, hne, (Except.ok.inj hput).symm⟩⟩
  | alertBody =>
      obtain ⟨alert, halert, hbody⟩ := Py.bind_eq_ok hget
      obtain ⟨d, rfl, hd⟩ := Json.item_eq_ok halert
      obtain ⟨a, rfl, ha⟩ := Json.item_eq_ok hbody
      simp only [choppablePut, Json.item_of_get? hd, Py.ok_bind, Json.setItem] at hput
      exact ⟨d, rfl, .inr (.inl ⟨a, s, hd, ha, hne, (Except.ok.inj hput).symm⟩)⟩
  | alertLocArg i =>
      obtain ⟨alert, halert, hrest⟩ := Py.bind_eq_ok hget
      obtain ⟨args, hargs, hindex⟩ := Py.bind_eq_ok hrest
      obtain ⟨d, rfl, hd⟩ := Json.item_eq_ok halert
      obtain ⟨a, rfl, ha⟩ := Json.item_eq_ok hargs
      simp only [choppablePut, Json.item_of_get? hd, Json.item_of_get? ha, Py.ok_bind] at hput
      obtain ⟨args', hargs', hset⟩ := Py.bind_eq_ok hput
      cases args with
      | arr l =>
          obtain rfl := Except.ok.inj hargs'
          refine ⟨d, rfl, .inr (.inr ⟨a, l, i, s, hd, ha, ?_, hne, (Except.ok.inj hset).symm⟩)⟩
          simp only [Json.index] at hindex
          split at hindex
          · rename_i v hv
            rw [hv, Except.ok.inj hindex]
          · cases hindex
      | _ => cases hargs'

/-- The characters of a text. -/
def textLength : Json → ℕ
  | .str s => s.length
  | _ => 0

/-- The characters of the arguments. -/
def argsLength : Json → ℕ
  | .arr l => (l.map textLength).sum
  | _ => 0

/-- The characters that may be chopped off an alert. -/
def alertLength : Json → ℕ
  | .str s => s.length
  | .obj a => textLength (Dict.get a "body") + argsLength (Dict.get a "loc-args")
  | _ => 0

/-- The characters that may be chopped off. -/
def weight : Json → ℕ
  | .obj d => alertLength (Dict.get d "alert")
  | _ => 0

/-- Replacing an element by a smaller one makes the sum smaller. -/
theorem sum_map_set_lt (f : Json → ℕ) {l : List Json} {i : ℕ} {v w : Json} (h : l[i]? = some v)
    (hlt : f w < f v) : ((l.set i w).map f).sum < (l.map f).sum := by
  induction l generalizing i with
  | nil => simp at h
  | cons x l ih =>
      cases i with
      | zero =>
          obtain rfl : x = v := by simpa using h
          simpa using hlt
      | succ i =>
          have hrest := ih (i := i) (by simpa using h)
          simp only [List.set_cons_succ, List.map_cons, List.sum_cons]
          omega

/-- A string without its last character is shorter. -/
theorem length_dropLast_lt {s : PyStr} (h : s ≠ []) : s.dropLast.length < s.length := by
  have hpos : 0 < s.length := List.length_pos_iff.2 h
  rw [List.length_dropLast]
  omega

/-- Each round takes a character away. -/
theorem weight_chop (h : chop aps = .ok (some aps')) : weight aps' < weight aps := by
  obtain ⟨d, rfl, hcase⟩ := chop_cases h
  have hbody : py "loc-args" ≠ py "body" := by decide
  rcases hcase with ⟨s, hd, hs, rfl⟩ | ⟨a, s, hd, ha, hs, rfl⟩ | ⟨a, l, i, s, hd, ha, hi, hs, rfl⟩
  · have hlt := length_dropLast_lt hs
    simpa [weight, Dict.get, hd, alertLength] using hlt
  · have hlt := length_dropLast_lt hs
    simpa [weight, Dict.get, hd, ha, alertLength, textLength, Dict.get?_set_of_ne _ _ hbody] using hlt
  · have hlt := sum_map_set_lt textLength hi (w := .str s.dropLast) (length_dropLast_lt hs)
    simpa [weight, Dict.get, hd, ha, alertLength, argsLength,
      Dict.get?_set_of_ne _ _ hbody.symm] using hlt

end Chop

/-- The second loop of `truncate`: `payload["aps"]` is `aps` all along. -/
def truncateLoop (L : Limits) (maxLength : ℕ) (payload : Dict) (aps : Json) :
    Py SygnalExn Dict :=
  match isTooLong L (payload.set "aps" aps) maxLength with
  | .error e => .error e
  | .ok false => .ok (payload.set "aps" aps)
  | .ok true =>
      match _h : chop aps with
      | .error e => .error e
      | .ok none => Py.throw (.user .bodyTooLong)
      | .ok (some aps') => truncateLoop L maxLength payload aps'
termination_by weight aps
decreasing_by exact weight_chop _h

/-- `truncate`. -/
def truncate (L : Limits) (payload : Dict) (maxLength : ℕ) : Py SygnalExn Dict :=
  match payload.get? "aps" with
  | none => do
      let long ← isTooLong L payload maxLength
      if long then Py.throw (.user .bodyTooLong) else .ok payload
  | some aps => do
      let cs ← choppablesForAps aps
      readAll aps cs
      truncateLoop L maxLength payload aps

/-- `MAX_JSON_BODY_SIZE` of `ApnsPushkin`. -/
def maxJsonBodySize : ℕ := 4096

end Sygnal
end Liza
