/-
# Labelled ranges

A `Span` is a half-open range of positions with a label.  A list of spans gives each position
a set of labels (`Has`); the spans of a list may overlap.  `sweep` goes once over spans sorted
by label and start and joins those of one label that overlap or touch: no position loses or
gains a label (`has_sweep`), and of the result no two spans of one label overlap or touch
(`separated_sweep`).
-/

import Mathlib.Data.List.Basic
import Mathlib.Order.Lattice

set_option autoImplicit false

namespace Liza
namespace Lib

/-- The positions from `start` up to `stop`, with a label. -/
structure Span (κ : Type*) where
  start : ℕ
  stop : ℕ
  label : κ
deriving DecidableEq, Repr

namespace Span

variable {κ : Type*} {a b s last : Span κ} {l l' : List (Span κ)} {i n : ℕ} {k : κ}

/-- The span gives the label `k` to the position `i`. -/
def Covers (s : Span κ) (i : ℕ) (k : κ) : Prop := s.label = k ∧ s.start ≤ i ∧ i < s.stop

/-- Some span of the list gives the label `k` to the position `i`. -/
def Has (l : List (Span κ)) (i : ℕ) (k : κ) : Prop := ∃ s ∈ l, s.Covers i k

@[simp]
theorem has_nil : ¬Has ([] : List (Span κ)) i k := by
  rintro ⟨s, hs, -⟩
  exact absurd hs List.not_mem_nil

@[simp]
theorem has_cons : Has (s :: l) i k ↔ s.Covers i k ∨ Has l i k := by
  simp [Has]

@[simp]
theorem has_append : Has (l ++ l') i k ↔ Has l i k ∨ Has l' i k := by
  simp only [Has, List.mem_append, or_and_right, exists_or]

/-- Every span is replaced by some spans. -/
theorem has_flatMap (g : Span κ → List (Span κ)) :
    Has (l.flatMap g) i k ↔ ∃ s ∈ l, Has (g s) i k := by
  induction l with
  | nil => simp
  | cons s l ih => simp [ih]

/-- Only the members of a list matter. -/
theorem has_congr (h : ∀ s, s ∈ l ↔ s ∈ l') : Has l i k ↔ Has l' i k := by
  simp only [Has, h]

/-- Spans that cover nothing may be left out. -/
theorem has_filter (p : Span κ → Bool) (hp : ∀ s ∈ l, p s = false → s.stop ≤ s.start) :
    Has (l.filter p) i k ↔ Has l i k := by
  constructor
  · rintro ⟨s, hs, hcov⟩
    exact ⟨s, (List.mem_filter.1 hs).1, hcov⟩
  · rintro ⟨s, hs, hcov⟩
    refine ⟨s, List.mem_filter.2 ⟨hs, ?_⟩, hcov⟩
    by_contra hne
    have hempty := hp s hs (by simpa using hne)
    obtain ⟨-, hstart, hstop⟩ := hcov
    omega

/-- A span that is not empty covers its start. -/
theorem has_start (l : List (Span κ)) (h : s.start < s.stop) : Has (s :: l) s.start s.label :=
  has_cons.2 (.inl ⟨rfl, Nat.le_refl _, h⟩)

section Sweep

variable [LinearOrder κ]

/-- The order of the sweep: by label, then by start. -/
def Le (a b : Span κ) : Prop := a.label < b.label ∨ a.label = b.label ∧ a.start ≤ b.start

/-- The first span is of a smaller label, or ends before the second one starts. -/
def Before (a b : Span κ) : Prop := a.label < b.label ∨ a.label = b.label ∧ a.stop < b.start

theorem Le.trans {c : Span κ} (hab : Le a b) (hbc : Le b c) : Le a c := by
  rcases hab with hab | ⟨hab, hab'⟩
  · rcases hbc with hbc | ⟨hbc, -⟩
    · exact .inl (hab.trans hbc)
    · exact .inl (hbc ▸ hab)
  · rcases hbc with hbc | ⟨hbc, hbc'⟩
    · exact .inl (hab ▸ hbc)
    · exact .inr ⟨hab.trans hbc, Nat.le_trans hab' hbc'⟩

theorem le_total (a b : Span κ) : Le a b ∨ Le b a := by
  rcases lt_trichotomy a.label b.label with h | h | h
  · exact .inl (.inl h)
  · rcases Nat.le_total a.start b.start with hs | hs
    · exact .inl (.inr ⟨h, hs⟩)
    · exact .inr (.inr ⟨h.symm, hs⟩)
  · exact .inr (.inl h)

/-- One pass over sorted spans: `last` takes in what it overlaps or touches. -/
def sweep (last : Span κ) : List (Span κ) → List (Span κ)
  | [] => [last]
  | s :: l =>
      if last.label = s.label ∧ s.start ≤ last.stop then
        sweep ⟨last.start, max last.stop s.stop, last.label⟩ l
      else last :: sweep s l

/-- Two spans that overlap or touch cover what their union covers. -/
theorem covers_join (hle : Le last s) (hl : last.label = s.label) (hs : s.start ≤ last.stop) :
    Covers ⟨last.start, max last.stop s.stop, last.label⟩ i k ↔
      last.Covers i k ∨ s.Covers i k := by
  have hstart : last.start ≤ s.start := by
    rcases hle with h | ⟨-, h⟩
    · exact absurd hl (ne_of_lt h)
    · exact h
  unfold Covers
  rw [← hl]
  constructor
  · rintro ⟨hk, h₁, h₂⟩
    dsimp only at h₁ h₂
    by_cases hi : i < last.stop
    · exact .inl ⟨hk, h₁, hi⟩
    · exact .inr ⟨hk, by omega, by omega⟩
  · rintro (⟨hk, h₁, h₂⟩ | ⟨hk, h₁, h₂⟩)
    · exact ⟨hk, h₁, show i < max last.stop s.stop by omega⟩
    · exact ⟨hk, show last.start ≤ i by omega, show i < max last.stop s.stop by omega⟩

/-- The union stands where its first span stood. -/
theorem pairwise_join (hle : (last :: s :: l).Pairwise Le) (n : ℕ) :
    ((⟨last.start, n, last.label⟩ : Span κ) :: l).Pairwise Le := by
  obtain ⟨hlast, hrest⟩ := List.pairwise_cons.1 hle
  refine List.pairwise_cons.2 ⟨fun b hb => ?_, (List.pairwise_cons.1 hrest).2⟩
  exact hlast b (List.mem_cons_of_mem _ hb)

omit [LinearOrder κ] in
/-- The union is within the bounds of the spans it is made of. -/
theorem bounds_join (hne : ∀ b ∈ last :: s :: l, b.start < b.stop ∧ b.stop ≤ n) :
    ∀ b ∈ (⟨last.start, max last.stop s.stop, last.label⟩ : Span κ) :: l,
      b.start < b.stop ∧ b.stop ≤ n := by
  have hlast := hne last List.mem_cons_self
  have hs := hne s (List.mem_cons_of_mem _ List.mem_cons_self)
  intro b hb
  rcases List.mem_cons.1 hb with rfl | hb
  · show last.start < max last.stop s.stop ∧ max last.stop s.stop ≤ n
    omega
  · exact hne b (List.mem_cons_of_mem _ (List.mem_cons_of_mem _ hb))

/-- **No position loses or gains a label in the sweep.** -/
theorem has_sweep (hle : (last :: l).Pairwise Le) (hne : ∀ s ∈ last :: l, s.start < s.stop) :
    Has (sweep last l) i k ↔ Has (last :: l) i k := by
  induction l generalizing last with
  | nil => rfl
  | cons s l ih =>
      have hlast := hne last List.mem_cons_self
      rw [sweep]
      split
      · rename_i hjoin
        have hls : Le last s := (List.pairwise_cons.1 hle).1 s List.mem_cons_self
        rw [ih (pairwise_join hle _) ?_, has_cons, has_cons, has_cons,
          covers_join hls hjoin.1 hjoin.2, or_assoc]
        intro b hb
        rcases List.mem_cons.1 hb with rfl | hb
        · show last.start < max last.stop s.stop
          omega
        · exact hne b (List.mem_cons_of_mem _ (List.mem_cons_of_mem _ hb))
      · rw [has_cons, ih (List.pairwise_cons.1 hle).2 fun b hb => hne b (List.mem_cons_of_mem _ hb),
          ← has_cons]

/-- What the sweep makes: no span is empty, none stands before the first or ends behind `n`. -/
theorem mem_sweep (hle : (last :: l).Pairwise Le)
    (hne : ∀ s ∈ last :: l, s.start < s.stop ∧ s.stop ≤ n) :
    ∀ s ∈ sweep last l, Le last s ∧ s.start < s.stop ∧ s.stop ≤ n := by
  induction l generalizing last with
  | nil =>
      intro s hs
      obtain rfl := List.mem_singleton.1 hs
      exact ⟨.inr ⟨rfl, Nat.le_refl _⟩, hne s List.mem_cons_self⟩
  | cons s l ih =>
      have hlast := hne last List.mem_cons_self
      rw [sweep]
      split
      · exact ih (pairwise_join hle _) (bounds_join hne)
      · intro b hb
        obtain ⟨hle₁, hle₂⟩ := List.pairwise_cons.1 hle
        rcases List.mem_cons.1 hb with rfl | hb
        · exact ⟨.inr ⟨rfl, Nat.le_refl _⟩, hlast⟩
        · obtain ⟨hsb, hb'⟩ := ih hle₂ (fun c hc => hne c (List.mem_cons_of_mem _ hc)) b hb
          exact ⟨(hle₁ s List.mem_cons_self).trans hsb, hb'⟩

/-- **After the sweep no two spans of one label overlap or touch.** -/
theorem separated_sweep (hle : (last :: l).Pairwise Le)
    (hne : ∀ s ∈ last :: l, s.start < s.stop ∧ s.stop ≤ n) : (sweep last l).Pairwise Before := by
  induction l generalizing last with
  | nil => exact List.pairwise_singleton _ _
  | cons s l ih =>
      obtain ⟨hle₁, hle₂⟩ := List.pairwise_cons.1 hle
      have hne' : ∀ b ∈ s :: l, b.start < b.stop ∧ b.stop ≤ n := fun b hb =>
        hne b (List.mem_cons_of_mem _ hb)
      rw [sweep]
      split
      · exact ih (pairwise_join hle _) (bounds_join hne)
      · rename_i hgap
        refine List.pairwise_cons.2 ⟨fun b hb => ?_, ih hle₂ hne'⟩
        -- `b` starts at `s` or behind it, and `last` ends before `s`.
        obtain ⟨hsb, -⟩ := mem_sweep hle₂ hne' b hb
        rcases hle₁ s List.mem_cons_self with hlt | ⟨heq, -⟩
        · rcases hsb with h | ⟨h, -⟩
          · exact .inl (hlt.trans h)
          · exact .inl (h ▸ hlt)
        · have hstop : last.stop < s.start := by
            by_contra hge
            exact hgap ⟨heq, by omega⟩
          rcases hsb with h | ⟨h, hstart⟩
          · exact .inl (heq ▸ h)
          · exact .inr ⟨heq.trans h, by omega⟩

/-! ### A list of separated spans is determined by the labels of the positions -/

/-- No span is empty, and no two spans of one label overlap or touch. -/
structure Canonical (l : List (Span κ)) : Prop where
  before : l.Pairwise Before
  nonempty : ∀ s ∈ l, s.start < s.stop

theorem Canonical.tail (h : Canonical (s :: l)) : Canonical l :=
  ⟨(List.pairwise_cons.1 h.before).2, fun b hb => h.nonempty b (List.mem_cons_of_mem _ hb)⟩

/-- A span after the first one does not cover what the first one covers. -/
theorem Canonical.disjoint (h : Canonical (s :: l)) (hs : s.Covers i k) : ¬Has l i k := by
  rintro ⟨b, hb, hbk, hstart, -⟩
  obtain ⟨hsk, -, hstop⟩ := hs
  rcases (List.pairwise_cons.1 h.before).1 b hb with hlt | ⟨-, hgap⟩
  · exact absurd (hsk.trans hbk.symm) (ne_of_lt hlt)
  · omega

/-- The first span is the first one of the smallest label. -/
theorem Canonical.head_le (h : Canonical (s :: l)) (hi : Has (s :: l) i k) :
    s.label < k ∨ s.label = k ∧ s.start ≤ i := by
  rcases has_cons.1 hi with ⟨hk, hstart, -⟩ | ⟨b, hb, hk, hstart, -⟩
  · exact .inr ⟨hk, hstart⟩
  · have hlen := h.nonempty s List.mem_cons_self
    rcases (List.pairwise_cons.1 h.before).1 b hb with hlt | ⟨heq, hgap⟩
    · exact .inl (hk ▸ hlt)
    · exact .inr ⟨heq.trans hk, by omega⟩

/-- The first spans of two lists with the same labels start together. -/
theorem Canonical.head_start (ha : Canonical (a :: l)) (hb : Canonical (b :: l'))
    (hhas : ∀ i k, Has (a :: l) i k ↔ Has (b :: l') i k) :
    a.label = b.label ∧ a.start = b.start := by
  have hab := ha.head_le ((hhas _ _).2 (has_start l' (hb.nonempty b List.mem_cons_self)))
  have hba := hb.head_le ((hhas _ _).1 (has_start l (ha.nonempty a List.mem_cons_self)))
  rcases hab with hab | ⟨hlabel, hab⟩
  · rcases hba with hba | ⟨hlabel, -⟩
    · exact absurd (hab.trans hba) (lt_irrefl _)
    · exact absurd hlabel.symm (ne_of_lt hab)
  · rcases hba with hba | ⟨-, hba⟩
    · exact absurd hlabel.symm (ne_of_lt hba)
    · exact ⟨hlabel, Nat.le_antisymm hab hba⟩

/-- The first span does not end before that of a list with the same labels. -/
theorem Canonical.head_stop (ha : Canonical (a :: l)) (hb : Canonical (b :: l'))
    (hhas : ∀ i k, Has (a :: l) i k ↔ Has (b :: l') i k) : b.stop ≤ a.stop := by
  obtain ⟨hlabel, hstart⟩ := ha.head_start hb hhas
  by_contra hlt
  have hlen := ha.nonempty a List.mem_cons_self
  -- the position behind `a` has the label in the other list, and so in this one
  have hbehind : Has (b :: l') a.stop a.label :=
    has_cons.2 (.inl ⟨hlabel.symm, by omega, by omega⟩)
  rcases has_cons.1 ((hhas _ _).2 hbehind) with ⟨-, -, hself⟩ | ⟨c, hc, hck, hcstart, -⟩
  · exact absurd hself (Nat.lt_irrefl _)
  · rcases (List.pairwise_cons.1 ha.before).1 c hc with hlt' | ⟨-, hgap⟩
    · exact absurd hck (ne_of_gt hlt')
    · omega

/-- **Two canonical lists that give each position the same labels are equal.** -/
theorem Canonical.eq_of_has (hl : Canonical l) (hl' : Canonical l')
    (hhas : ∀ i k, Has l i k ↔ Has l' i k) : l = l' := by
  induction l generalizing l' with
  | nil =>
      cases l' with
      | nil => rfl
      | cons b l' =>
          have hb := has_start l' (hl'.nonempty b List.mem_cons_self)
          exact absurd ((hhas _ _).2 hb) has_nil
  | cons a l ih =>
      cases l' with
      | nil =>
          have ha := has_start l (hl.nonempty a List.mem_cons_self)
          exact absurd ((hhas _ _).1 ha) has_nil
      | cons b l' =>
          obtain ⟨hlabel, hstart⟩ := hl.head_start hl' hhas
          have hstop : a.stop = b.stop := Nat.le_antisymm
            (hl'.head_stop hl fun i k => (hhas i k).symm) (hl.head_stop hl' hhas)
          have hab : a = b := by
            cases a
            cases b
            simp_all
          subst hab
          rw [ih hl.tail hl'.tail]
          intro i k
          have hik := hhas i k
          rw [has_cons, has_cons] at hik
          constructor
          · intro h
            exact (hik.1 (.inr h)).resolve_left fun hcov => hl.disjoint hcov h
          · intro h
            exact (hik.2 (.inr h)).resolve_left fun hcov => hl'.disjoint hcov h

/-! ### The sweep of a list -/

/-- The sweep from the first span on. -/
def sweepAll : List (Span κ) → List (Span κ)
  | [] => []
  | s :: l => sweep s l

theorem has_sweepAll (hle : l.Pairwise Le) (hne : ∀ s ∈ l, s.start < s.stop) :
    Has (sweepAll l) i k ↔ Has l i k := by
  cases l with
  | nil => rfl
  | cons s l => exact has_sweep hle hne

omit [LinearOrder κ] in
theorem exists_bound (l : List (Span κ)) : ∃ n, ∀ s ∈ l, s.stop ≤ n := by
  induction l with
  | nil => exact ⟨0, fun s hs => absurd hs List.not_mem_nil⟩
  | cons a l ih =>
      obtain ⟨n, hn⟩ := ih
      refine ⟨max a.stop n, fun s hs => ?_⟩
      rcases List.mem_cons.1 hs with rfl | hs
      · omega
      · have := hn s hs
        omega

theorem canonical_sweepAll (hle : l.Pairwise Le) (hne : ∀ s ∈ l, s.start < s.stop) :
    Canonical (sweepAll l) := by
  cases l with
  | nil => exact ⟨List.Pairwise.nil, fun s hs => absurd hs List.not_mem_nil⟩
  | cons s l =>
      obtain ⟨n, hn⟩ := exists_bound (s :: l)
      have hin : ∀ b ∈ s :: l, b.start < b.stop ∧ b.stop ≤ n := fun b hb => ⟨hne b hb, hn b hb⟩
      exact ⟨separated_sweep hle hin, fun b hb => (mem_sweep hle hin b hb).2.1⟩

/-- **The sweep depends on the labels of the positions only**: neither on which of the sorted lists
of the same spans is swept nor on how the spans are cut. -/
theorem sweepAll_congr (hle : l.Pairwise Le) (hne : ∀ s ∈ l, s.start < s.stop)
    (hle' : l'.Pairwise Le) (hne' : ∀ s ∈ l', s.start < s.stop)
    (hhas : ∀ i k, Has l i k ↔ Has l' i k) : sweepAll l = sweepAll l' := by
  refine (canonical_sweepAll hle hne).eq_of_has (canonical_sweepAll hle' hne') fun i k => ?_
  rw [has_sweepAll hle hne, has_sweepAll hle' hne']
  exact hhas i k

end Sweep

end Span
end Lib
end Liza
