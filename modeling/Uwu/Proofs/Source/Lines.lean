import Uwu.Source.Lines

/-! The lines that a text splits into: a newline ends a line and stands nowhere else in it. -/

namespace Uwu

/-- The lines are those of a text: a newline ends each of them, or else it is the last one, and
stands nowhere else. -/
inductive Document.OfText : Document → Prop
  | nil : OfText []
  | last {l : List Char} (hl : l ≠ []) (h : l.dropWhile (· != '\n') = []) : OfText [l]
  | line {l : List Char} {ls : Document} (h : l.dropWhile (· != '\n') = ['\n'])
    (behind : OfText ls) : OfText (l :: ls)

namespace Document

theorem ofText_split (cs : List Char) : OfText (split cs) := by
  induction cs with
  | nil => exact .nil
  | cons c cs ih =>
    rw [split]
    split
    next hc => exact .line (by simp [hc]) ih
    next hc =>
      split
      next => exact .last (List.cons_ne_nil _ _) (by simp [hc])
      next l ls hsplit =>
        rw [hsplit] at ih
        cases ih with
        | last hl h => exact .last (List.cons_ne_nil _ _) (by simpa [hc] using h)
        | line h behind => exact .line (by simpa [hc] using h) behind

theorem split_of_not_mem {l : List Char} (hl : l ≠ []) (h : l.dropWhile (· != '\n') = []) :
    split l = [l] := by
  induction l with
  | nil => exact absurd rfl hl
  | cons c cs ih =>
    have hc : c ≠ '\n' := by
      rintro rfl
      simp at h
    have hcs : cs.dropWhile (· != '\n') = [] := by simpa [hc] using h
    rw [split, if_neg hc]
    by_cases hne : cs = []
    · subst hne
      rfl
    · rw [ih hne hcs]

theorem split_append {l : List Char} (h : l.dropWhile (· != '\n') = ['\n']) (cs : List Char) :
    split (l ++ cs) = l :: split cs := by
  induction l with
  | nil => cases h
  | cons c l ih =>
    rw [List.cons_append, split]
    by_cases hc : c = '\n'
    · subst hc
      have hl : l = [] := by simpa using h
      rw [if_pos rfl, hl]
      rfl
    · rw [if_neg hc, ih (by simpa [hc] using h)]

theorem OfText.split_flatten {ls : Document} (h : OfText ls) : split ls.flatten = ls := by
  induction h with
  | nil => rfl
  | last hl h => rw [List.flatten_singleton, split_of_not_mem hl h]
  | line h behind ih => rw [List.flatten_cons, split_append h, ih]

/-- A line is a text without a newline, with or without a newline behind it. -/
theorem OfText.exists_body {ls : Document} (h : OfText ls) :
    ∀ l ∈ ls, ∃ w, '\n' ∉ w ∧ (l = w ∨ l = w ++ ['\n']) := by
  have hbody (l : List Char) : '\n' ∉ l.takeWhile (· != '\n') := fun hmem => by
    simpa using List.all_eq_true.1 List.all_takeWhile _ hmem
  have hwhole (l : List Char) : l = l.takeWhile (· != '\n') ++ l.dropWhile (· != '\n') :=
    List.takeWhile_append_dropWhile.symm
  induction h with
  | nil => exact List.forall_mem_nil _
  | @last l hl h =>
    exact List.forall_mem_singleton.2
      ⟨_, hbody l, .inl ((hwhole l).trans (by rw [h, List.append_nil]))⟩
  | @line l ls h behind ih =>
    exact List.forall_mem_cons.2 ⟨⟨_, hbody l, .inr ((hwhole l).trans (by rw [h]))⟩, ih⟩

end Document

end Uwu
