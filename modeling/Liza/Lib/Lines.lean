/-
# Texts made of lines

A text that joins parts with a separator can be read back as far as the parts do not
contain the separator.  The three lemmas say how far: the first part is determined
(`append_cons_inj`), the last part is determined (`append_cons_inj_last`), and a part that
stands at the start of a text is passed over as a whole by whatever ends before a separator
(`passes_line`).  So a text that is split at its first separator is made of its two parts
(`eq_of_split1`, `split1_append`).
-/

import Liza.Lib.PyStr
import Mathlib.Data.List.DropRight
import Mathlib.Data.List.TakeWhile

set_option autoImplicit false

namespace Liza
namespace Lib

section Separator

variable {α : Type*} {c : α} {x y s t : List α}

/-- The part before the first separator is determined, and so is the rest. -/
theorem append_cons_inj (hx : c ∉ x) (hy : c ∉ y) (h : x ++ c :: s = y ++ c :: t) :
    x = y ∧ s = t := by
  induction x generalizing y with
  | nil =>
      cases y with
      | nil => exact ⟨rfl, (List.cons.inj h).2⟩
      | cons b y => exact absurd (List.mem_cons_self) ((List.cons.inj h).1 ▸ hy)
  | cons a x ih =>
      cases y with
      | nil => exact absurd (List.mem_cons_self) ((List.cons.inj h).1 ▸ hx)
      | cons b y =>
          obtain ⟨hab, hrest⟩ := List.cons.inj h
          obtain ⟨hxy, hst⟩ := ih (fun hc => hx (List.mem_cons_of_mem _ hc))
            (fun hc => hy (List.mem_cons_of_mem _ hc)) hrest
          exact ⟨by rw [hab, hxy], hst⟩

/-- The part after the last separator is determined, and so is what stands before it. -/
theorem append_cons_inj_last (hx : c ∉ x) (hy : c ∉ y) (h : s ++ c :: x = t ++ c :: y) :
    s = t ∧ x = y := by
  have hrev := congrArg List.reverse h
  simp only [List.reverse_append, List.reverse_cons, List.append_assoc, List.singleton_append]
    at hrev
  have hx' : c ∉ x.reverse := by rwa [List.mem_reverse]
  have hy' : c ∉ y.reverse := by rwa [List.mem_reverse]
  obtain ⟨hxy, hst⟩ := append_cons_inj hx' hy' hrev
  exact ⟨List.reverse_injective hst, List.reverse_injective hxy⟩

/-- What was trimmed on both sides has nothing left to trim in front. -/
theorem dropWhile_trimmed (p : α → Bool) (s : List α) :
    ((s.dropWhile p).rdropWhile p).dropWhile p = (s.dropWhile p).rdropWhile p := by
  refine List.dropWhile_eq_self_iff.2 fun hlen => ?_
  have hpre : (s.dropWhile p).rdropWhile p <+: s.dropWhile p := List.rdropWhile_prefix _ _
  have hlen' : 0 < (s.dropWhile p).length := lt_of_lt_of_le hlen hpre.length_le
  rw [hpre.getElem hlen]
  exact List.dropWhile_eq_self_iff.1 (List.dropWhile_idempotent _ s) hlen'

/-- What stands before a separator of a text has passed over the whole first part. -/
theorem passes_line (hx : c ∉ x) (h : y ++ c :: s = x ++ t) :
    ∃ z, y = x ++ z ∧ z ++ c :: s = t := by
  obtain ⟨z, rfl, ht⟩ | ⟨z, hz, ht⟩ := List.append_eq_append_iff.1 h
  · -- `x` reaches beyond `y`, so it ends there or contains the separator.
    cases z with
    | nil => exact ⟨[], by simp, by simpa using ht⟩
    | cons a z =>
        have ha : c = a := (List.cons.inj ht).1
        exact absurd (by simp [ha]) hx
  · exact ⟨z, hz, ht.symm⟩

end Separator

/-! ### The first separator -/

section Split

variable {c : CodePoint} {s a b t : PyStr}

/-- What stands before and after the first separator. -/
theorem eq_of_split1 (h : split1 c s = (a, some b)) :
    s = a ++ c :: b := by
  induction s generalizing a with
  | nil => cases h
  | cons d s ih =>
      rw [split1] at h
      split at h
      · rename_i hd
        obtain ⟨rfl, hb⟩ := Prod.mk.inj h
        rw [hd, Option.some.inj hb]
        rfl
      · obtain ⟨rfl, hb⟩ := Prod.mk.inj h
        exact congrArg (d :: ·) (ih (Prod.ext rfl hb))

/-- The first separator is found again. -/
theorem split1_append (h : c ∉ a) :
    split1 c (a ++ c :: b) = (a, some b) := by
  induction a with
  | nil => simp [split1]
  | cons d a ih =>
      have hd : d ≠ c := fun heq => h (heq ▸ List.mem_cons_self)
      rw [List.cons_append, split1, if_neg hd, ih fun hc => h (List.mem_cons_of_mem _ hc)]

theorem split1_fst (c : CodePoint) (s : PyStr) : (split1 c s).1 = s.takeWhile (· ≠ c) := by
  induction s with
  | nil => rfl
  | cons d s ih =>
      rw [split1]
      split
      · rename_i hd
        simp [hd]
      · rename_i hd
        rw [List.takeWhile_cons_of_pos (by simpa using hd), ← ih]

theorem split1_of_notMem (h : c ∉ s) : split1 c s = (s, none) := by
  induction s with
  | nil => rfl
  | cons d s ih =>
      have hd : d ≠ c := fun heq => h (heq ▸ List.mem_cons_self)
      rw [split1, if_neg hd, ih fun hmem => h (List.mem_cons_of_mem _ hmem)]

/-- A text that has the separator goes on behind its second part. -/
theorem split1_append_of_some (h : (split1 c s).2 = some b) :
    split1 c (s ++ t) = ((split1 c s).1, some (b ++ t)) := by
  have hs := eq_of_split1 (Prod.ext rfl h)
  have hfree : c ∉ (split1 c s).1 := by
    rw [split1_fst]
    intro hmem
    have := List.mem_takeWhile_imp hmem
    simp at this
  conv_lhs => rw [hs]
  rw [List.append_assoc, List.cons_append]
  exact split1_append hfree

theorem notMem_of_split1 (h : (split1 c s).2 = none) : c ∉ s := by
  induction s with
  | nil => exact List.not_mem_nil
  | cons d s ih =>
      rw [split1] at h
      split at h
      · cases h
      · rename_i hd
        exact fun hmem => (List.mem_cons.1 hmem).elim (fun heq => hd heq.symm) (ih h)

end Split

/-! ### Lines of a Python text -/

/-- The line feed. -/
def newline : CodePoint := codePoint '\n'

/-- `s <= t`: strings are compared by their code points. -/
def strLe : PyStr → PyStr → Bool
  | [], _ => true
  | _ :: _, [] => false
  | a :: s, b :: t => a < b || (a == b && strLe s t)

/-- `sorted(l)`. -/
def sortedStrs : List PyStr → List PyStr
  | [] => []
  | s :: l => insertStr s (sortedStrs l)
where
  insertStr (s : PyStr) : List PyStr → List PyStr
    | [] => [s]
    | t :: l => if strLe s t then s :: t :: l else t :: insertStr s l

/-- `sep.join(l)`. -/
def joinStrs (sep : PyStr) : List PyStr → PyStr
  | [] => []
  | [s] => s
  | s :: t :: l => s ++ sep ++ joinStrs sep (t :: l)

example : joinStrs "\n" (sortedStrs ["b=2", "a=1", "c=3"]) = py "a=1\nb=2\nc=3" := by decide

/-! ### Sorting -/

theorem strLe_total (s t : PyStr) : strLe s t = true ∨ strLe t s = true := by
  induction s generalizing t with
  | nil => exact .inl rfl
  | cons a s ih =>
      cases t with
      | nil => exact .inr rfl
      | cons b t =>
          rcases Nat.lt_trichotomy a.val b.val with h | h | h
          · exact .inl (by simp [strLe, Fin.lt_def, h])
          · obtain rfl := Fin.ext h
            simpa [strLe] using ih t
          · exact .inr (by simp [strLe, Fin.lt_def, h])

theorem insertStr_perm (s : PyStr) (l : List PyStr) :
    (sortedStrs.insertStr s l).Perm (s :: l) := by
  induction l with
  | nil => exact .refl _
  | cons t l ih =>
      unfold sortedStrs.insertStr
      split
      · exact .refl _
      · exact (ih.cons t).trans (.swap s t l)

theorem sortedStrs_perm (l : List PyStr) : (sortedStrs l).Perm l := by
  induction l with
  | nil => exact .refl _
  | cons s l ih => exact (insertStr_perm s _).trans (ih.cons s)

theorem insertStr_isChain {s : PyStr} {l : List PyStr} (h : l.IsChain (strLe · ·)) :
    (sortedStrs.insertStr s l).IsChain (strLe · ·) := by
  induction l with
  | nil => exact .singleton s
  | cons t l ih =>
      unfold sortedStrs.insertStr
      split
      · exact .cons_cons ‹_› h
      · rename_i hlt
        have hts : strLe t s = true := (strLe_total s t).resolve_left hlt
        cases l with
        | nil => exact .cons_cons hts (.singleton s)
        | cons u l =>
            have hrest := ih h.of_cons
            unfold sortedStrs.insertStr at hrest ⊢
            split
            · rename_i hsu
              rw [if_pos hsu] at hrest
              exact .cons_cons hts hrest
            · rename_i hsu
              rw [if_neg hsu] at hrest
              exact .cons_cons (List.isChain_cons_cons.1 h).1 hrest

theorem sortedStrs_isChain (l : List PyStr) : (sortedStrs l).IsChain (strLe · ·) := by
  induction l with
  | nil => exact .nil
  | cons s l ih => exact insertStr_isChain ih

theorem sortedStrs_eq_self {l : List PyStr} (h : l.IsChain (strLe · ·)) : sortedStrs l = l := by
  induction l with
  | nil => rfl
  | cons s l ih =>
      rw [sortedStrs, ih h.of_cons]
      cases l with
      | nil => rfl
      | cons t l => exact if_pos (List.isChain_cons_cons.1 h).1

/-- **What is sorted stays as it is.** -/
theorem sortedStrs_idem (l : List PyStr) : sortedStrs (sortedStrs l) = sortedStrs l :=
  sortedStrs_eq_self (sortedStrs_isChain l)

/-! ### Joining -/

theorem joinStrs_cons_of_ne_nil {sep s : PyStr} {l : List PyStr} (h : l ≠ []) :
    joinStrs sep (s :: l) = s ++ sep ++ joinStrs sep l := by
  cases l with
  | nil => exact absurd rfl h
  | cons t l => rfl

/-- What is in a joined text is in the separator or in a part. -/
theorem mem_joinStrs {c : CodePoint} {sep : PyStr} {l : List PyStr} (h : c ∈ joinStrs sep l) :
    c ∈ sep ∨ ∃ s ∈ l, c ∈ s := by
  induction l with
  | nil => cases h
  | cons s l ih =>
      by_cases hl : l = []
      · subst hl
        exact .inr ⟨s, List.mem_cons_self, h⟩
      · rw [joinStrs_cons_of_ne_nil hl, List.mem_append, List.mem_append] at h
        rcases h with (h | h) | h
        · exact .inr ⟨s, List.mem_cons_self, h⟩
        · exact .inl h
        · rcases ih h with hsep | ⟨t, ht, hc⟩
          · exact .inl hsep
          · exact .inr ⟨t, List.mem_cons_of_mem _ ht, hc⟩

theorem joinStrs_eq_intercalate (c : CodePoint) (l : List PyStr) :
    joinStrs [c] l = [c].intercalate l := by
  induction l with
  | nil => rfl
  | cons s l ih =>
      cases l with
      | nil => simp [joinStrs]
      | cons t l =>
          rw [joinStrs, ih]
          simp

theorem joinStrs_splitOn (c : CodePoint) (s : PyStr) : joinStrs [c] (s.splitOn c) = s := by
  rw [joinStrs_eq_intercalate]
  exact List.intercalate_splitOn c

theorem splitOn_joinStrs {c : CodePoint} {l : List PyStr} (hfree : ∀ s ∈ l, c ∉ s) (hne : l ≠ []) :
    (joinStrs [c] l).splitOn c = l := by
  rw [joinStrs_eq_intercalate]
  exact List.splitOn_intercalate c hfree hne

/-- The parts of a text are free of the separator. -/
theorem notMem_of_mem_splitOn {c : CodePoint} {s part : PyStr} (h : part ∈ s.splitOn c) :
    c ∉ part := by
  induction s generalizing part with
  | nil =>
      rw [List.splitOn_nil, List.mem_singleton] at h
      exact h ▸ List.not_mem_nil
  | cons d s ih =>
      rw [List.splitOn_cons_eq_if_modifyHead] at h
      split at h
      · rcases List.mem_cons.1 h with rfl | h
        · exact List.not_mem_nil
        · exact ih h
      · rename_i hd
        have hne : d ≠ c := by simpa using hd
        cases hsplit : s.splitOn c with
        | nil => exact absurd hsplit (List.splitOn_ne_nil c s)
        | cons first rest =>
            rw [hsplit, List.modifyHead_cons] at h
            rcases List.mem_cons.1 h with rfl | h
            · have hfirst := ih (hsplit ▸ List.mem_cons_self)
              exact fun hmem => (List.mem_cons.1 hmem).elim hne.symm hfirst
            · exact ih (hsplit ▸ List.mem_cons_of_mem _ h)

/-- **Joined texts that differ at one place only differ.** -/
theorem joinStrs_inj_at {sep s t : PyStr} {l₁ l₂ : List PyStr}
    (h : joinStrs sep (l₁ ++ s :: l₂) = joinStrs sep (l₁ ++ t :: l₂)) : s = t := by
  induction l₁ with
  | nil =>
      cases l₂ with
      | nil => exact h
      | cons u l₂ => exact List.append_cancel_right (List.append_cancel_right h)
  | cons a l₁ ih =>
      have hne : ∀ s : PyStr, l₁ ++ s :: l₂ ≠ [] := fun s => by simp
      rw [List.cons_append, List.cons_append, joinStrs_cons_of_ne_nil (hne s),
        joinStrs_cons_of_ne_nil (hne t)] at h
      exact ih (List.append_cancel_left h)

end Lib
end Liza
