/-
# Regular expressions with anchors

A pattern is a row of parts: the anchors `^` and `$`, and some characters of a class, a least and a
greatest number of them.  Two dialects differ in where `$` holds: at the end of the text only
(`atEnd`), or also before a newline that ends it (`beforeNewline`).  A pattern is tried at the
beginning (`matchAt`) or everywhere (`search`), which is the same behind a `^`.

**What the second dialect accepts more** are the texts of the first with a newline behind them
(`accepts_beforeNewline`).
-/

import Mathlib.Data.List.Basic

set_option autoImplicit false

namespace Liza
namespace Lib

/-- A part of a pattern. -/
inductive Part (α : Type*) where
  | start
  | stop
  | chars (cls : α → Bool) (least most : ℕ)

/-- A pattern. -/
abbrev Pattern (α : Type*) := List (Part α)

/-- The part is the anchor `$`. -/
def Part.isStop {α : Type*} : Part α → Bool
  | .stop => true
  | _ => false

namespace Pattern

variable {α : Type*}

/-- The pattern matches at a place: whether nothing stands before it, and what comes there. -/
def accepts (stop : List α → Bool) : Pattern α → Bool → List α → Bool
  | [], _, _ => true
  | .start :: p, first, s => first && accepts stop p first s
  | .stop :: p, first, s => stop s && accepts stop p first s
  | .chars cls least most :: p, first, s => (List.range (most + 1)).any fun k =>
      decide (least ≤ k ∧ k ≤ s.length) && (s.take k).all cls &&
        accepts stop p (first && k == 0) (s.drop k)

/-- The pattern matches at the beginning of the text. -/
def matchAt (stop : List α → Bool) (p : Pattern α) (s : List α) : Bool := p.accepts stop true s

/-- The pattern matches somewhere in the text. -/
def search (stop : List α → Bool) (p : Pattern α) (s : List α) : Bool :=
  (List.range (s.length + 1)).any fun k => p.accepts stop (k == 0) (s.drop k)

/-- `$` of a dialect where it holds at the end. -/
def atEnd (s : List α) : Bool := s.isEmpty

/-- `$` of a dialect where it holds before a newline at the end, too. -/
def beforeNewline [DecidableEq α] (newline : α) (s : List α) : Bool := s.isEmpty || s = [newline]

variable {stop : List α → Bool} {p q : Pattern α} {first : Bool} {s : List α} {cls : α → Bool}
  {least most : ℕ}

/-- Some characters of a class, and the rest of the pattern behind them. -/
theorem accepts_chars :
    accepts stop (.chars cls least most :: p) first s = true ↔
      ∃ t u, s = t ++ u ∧ least ≤ t.length ∧ t.length ≤ most ∧ t.all cls = true ∧
        accepts stop p (first && t.isEmpty) u = true := by
  simp only [accepts, List.any_eq_true, List.mem_range, Bool.and_eq_true, decide_eq_true_eq]
  constructor
  · rintro ⟨k, hk, ⟨⟨hleast, hlength⟩, hall⟩, hrest⟩
    have hk' : (s.take k).length = k := List.length_take_of_le hlength
    refine ⟨s.take k, s.drop k, (List.take_append_drop k s).symm, by omega, by omega, hall, ?_⟩
    have hempty : (s.take k).isEmpty = (k == 0) := by
      rw [Bool.eq_iff_iff, List.isEmpty_iff_length_eq_zero, hk', beq_iff_eq]
    rw [hempty]
    exact hrest
  · rintro ⟨t, u, rfl, hleast, hmost, hall, hrest⟩
    have hempty : t.isEmpty = (t.length == 0) := by
      rw [Bool.eq_iff_iff, List.isEmpty_iff_length_eq_zero, beq_iff_eq]
    refine ⟨t.length, by omega, ⟨⟨hleast, by simp⟩, ?_⟩, ?_⟩
    · rwa [List.take_left]
    · rwa [List.drop_left, ← hempty]

/-- Some characters of a class up to the end of the text. -/
theorem accepts_chars_stop : accepts atEnd [.chars cls least most, .stop] first s = true ↔
    least ≤ s.length ∧ s.length ≤ most ∧ s.all cls = true := by
  rw [accepts_chars]
  constructor
  · rintro ⟨t, u, rfl, hleast, hmost, hall, hstop⟩
    obtain rfl := List.isEmpty_iff.1 (Bool.and_eq_true_iff.1 hstop).1
    rw [List.append_nil]
    exact ⟨hleast, hmost, hall⟩
  · rintro ⟨hleast, hmost, hall⟩
    exact ⟨s, [], (List.append_nil s).symm, hleast, hmost, hall, rfl⟩

/-- Behind `^` a search is a match. -/
theorem search_start : search stop (.start :: p) s = matchAt stop (.start :: p) s := by
  rw [Bool.eq_iff_iff, search, List.any_eq_true]
  constructor
  · rintro ⟨k, -, hk⟩
    obtain ⟨hzero, -⟩ := Bool.and_eq_true_iff.1 hk
    obtain rfl := beq_iff_eq.1 hzero
    exact hk
  · intro h
    exact ⟨0, List.mem_range.2 (Nat.succ_pos _), h⟩

/-- **The dialects differ in the texts that end in a newline.** -/
theorem accepts_beforeNewline [DecidableEq α] (newline : α) (hp : ∀ part ∈ p, part.isStop = false) :
    accepts (beforeNewline newline) (p ++ [.stop]) first s = true ↔
      accepts atEnd (p ++ [.stop]) first s = true ∨
        ∃ t, s = t ++ [newline] ∧ accepts atEnd (p ++ [.stop]) first t = true := by
  induction p generalizing first s with
  | nil =>
      simp [accepts, beforeNewline, atEnd, List.isEmpty_iff]
  | cons part p ih =>
      have hrest : ∀ part ∈ p, part.isStop = false := fun x hx => hp x (List.mem_cons_of_mem _ hx)
      cases part with
      | stop => exact absurd (hp .stop List.mem_cons_self) (by simp [Part.isStop])
      | start =>
          simp only [List.cons_append, accepts, Bool.and_eq_true, ih hrest]
          constructor
          · rintro ⟨hfirst, h | ⟨t, hs, h⟩⟩
            · exact .inl ⟨hfirst, h⟩
            · exact .inr ⟨t, hs, hfirst, h⟩
          · rintro (⟨hfirst, h⟩ | ⟨t, hs, hfirst, h⟩)
            · exact ⟨hfirst, .inl h⟩
            · exact ⟨hfirst, .inr ⟨t, hs, h⟩⟩
      | chars cls least most =>
          simp only [List.cons_append, accepts_chars, ih hrest]
          constructor
          · rintro ⟨t, u, rfl, hleast, hmost, hall, h | ⟨v, rfl, h⟩⟩
            · exact .inl ⟨t, u, rfl, hleast, hmost, hall, h⟩
            · exact .inr ⟨t ++ v, (List.append_assoc _ _ _).symm, t, v, rfl, hleast, hmost, hall, h⟩
          · rintro (⟨t, u, rfl, hleast, hmost, hall, h⟩ |
              ⟨w, rfl, t, v, rfl, hleast, hmost, hall, h⟩)
            · exact ⟨t, u, rfl, hleast, hmost, hall, .inl h⟩
            · exact ⟨t, v ++ [newline], List.append_assoc _ _ _, hleast, hmost, hall,
                .inr ⟨v, rfl, h⟩⟩

end Pattern

end Lib
end Liza
