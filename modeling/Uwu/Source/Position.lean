import Uwu.Sorting

/-! Places in a source text. Lines and columns count from zero, columns count
characters, and a span includes its end. Text shown to a reader counts from one. -/

namespace Uwu

structure Position where
  line : Nat
  column : Nat
  deriving DecidableEq, Inhabited

namespace Position

/-- Reading order: by line, then by column. -/
instance : LT Position where
  lt p q := p.line < q.line ∨ (p.line = q.line ∧ p.column < q.column)

instance : LE Position where
  le p q := p.line < q.line ∨ (p.line = q.line ∧ p.column ≤ q.column)

instance (p q : Position) : Decidable (p < q) :=
  inferInstanceAs (Decidable (p.line < q.line ∨ (p.line = q.line ∧ p.column < q.column)))

instance (p q : Position) : Decidable (p ≤ q) :=
  inferInstanceAs (Decidable (p.line < q.line ∨ (p.line = q.line ∧ p.column ≤ q.column)))

protected theorem le_total (p q : Position) : p ≤ q ∨ q ≤ p := by
  change (_ ∨ _) ∨ (_ ∨ _)
  omega

protected theorem le_trans {p q r : Position} (hpq : p ≤ q) (hqr : q ≤ r) : p ≤ r := by
  change _ ∨ _ at hpq hqr ⊢
  omega

protected theorem le_antisymm {p q : Position} (hpq : p ≤ q) (hqp : q ≤ p) : p = q := by
  obtain ⟨pl, pc⟩ := p
  obtain ⟨ql, qc⟩ := q
  change _ ∨ _ at hpq hqp
  simp only at hpq hqp
  simp only [mk.injEq]
  omega

/-- Sorted by where they start. -/
theorem pairwise_sortBy {α : Type} (start : α → Position) (xs : List α) :
    (sortBy (fun a b => start a ≤ start b) xs).Pairwise fun a b => start a ≤ start b := by
  refine (Uwu.pairwise_sortBy ?_ ?_ xs).imp fun {a b} h => of_decide_eq_true h
  · intro a b
    simpa only [decide_eq_true_eq] using Position.le_total (start a) (start b)
  · intro a b c hab hbc
    simp only [decide_eq_true_eq] at hab hbc ⊢
    exact Position.le_trans hab hbc

/-- Line and column as shown to a reader, counted from one. -/
def shown (p : Position) : String :=
  s!"{p.line + 1}:{p.column + 1}"

end Position

structure Span where
  start : Position
  stop : Position
  deriving DecidableEq, Inhabited

namespace Span

/-- The `width` characters of one line that begin at `p`; no width gives the place `p` itself. -/
def ofWidth (p : Position) (width : Nat) : Span :=
  ⟨p, ⟨p.line, p.column + (width - 1)⟩⟩

/-- The empty span at `p`. -/
def point (p : Position) : Span :=
  ⟨p, p⟩

/-- From the start of `s` to the end of `t`. -/
def through (s t : Span) : Span :=
  ⟨s.start, t.stop⟩

end Span

end Uwu
