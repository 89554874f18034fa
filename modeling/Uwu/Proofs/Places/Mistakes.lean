import Uwu.Proofs.Diagnostic.Excerpts
import Uwu.Proofs.Places.Lexemes
import Uwu.Proofs.Places.Types
import Uwu.Proofs.Stages

/-! Every mistake points into the text, whichever stage finds it, and is shown with a line of the
text. -/

namespace Uwu

/-- The span begins on a line of the text, behind its last character at the latest, and does not end
before it begins. -/
structure Span.PointsInto (lines : List String) (x : Span) : Prop where
  ordered : x.start ≤ x.stop
  starts : ∃ line, lineAt? lines x.start = some line ∧ x.start.column ≤ line.length

theorem Span.Lies.pointsInto {lines : List String} {x : Span}
    (h : x.Lies (Document.ofStrings lines)) : x.PointsInto lines := by
  obtain ⟨l, hl, hc⟩ := h.starts
  rw [Document.ofStrings, List.getElem?_map] at hl
  obtain ⟨line, hline, rfl⟩ := Option.map_eq_some_iff.1 hl
  rw [String.length_toList] at hc
  exact ⟨h.ordered, line, hline, hc⟩

theorem splitLines_ne_nil {source : String} (h : source ≠ "") : splitLines source ≠ [] := by
  intro hnil
  rw [splitLines, List.map_eq_nil_iff] at hnil
  have hflat := Document.flatten_split source.toList
  rw [hnil] at hflat
  exact h (String.toList_inj.1 hflat.symm)

/-! ### Stages -/

/-- The mistakes of the first stage that finds any. -/
theorem compile_eq_error {source : String} {names : Names} {ds : List Diagnostic}
    (h : (compile source names).outcome = .error ds) :
    (Lexed.ofLines (splitLines source) names).diagnostics = ds ∨
      Program.ofTokens (Lexed.ofLines (splitLines source) names).tokens
        (Lexed.ofLines (splitLines source) names).names = .error ds ∨
      ∃ p, Program.ofTokens (Lexed.ofLines (splitLines source) names).tokens
        (Lexed.ofLines (splitLines source) names).names = .ok p ∧ p.mistakes = ds := by
  unfold compile at h
  generalize Lexed.ofLines (splitLines source) names = lexed at h ⊢
  rcases stage_eq_error.1 h with ⟨-, hd⟩ | ⟨-, hp⟩
  · exact .inl hd
  · right
    cases hparse : Program.ofTokens lexed.tokens lexed.names with
    | error es =>
      rw [hparse] at hp
      cases hp
      exact .inl rfl
    | ok p =>
      rw [hparse] at hp
      refine .inr ⟨p, rfl, ?_⟩
      rcases stage_eq_error.1 hp with ⟨-, hd⟩ | ⟨-, hd⟩
      · exact hd
      · cases hd

/-- The mistakes of a text that is not empty point into it, and so do the declarations that they
name. A mistake is shown with the line that it is on. -/
theorem mistakes_point_into_source {source : String} {names : Names} {ds : List Diagnostic}
    (hsource : source ≠ "") (h : (compile source names).outcome = .error ds) :
    ∀ d ∈ ds, (∀ x ∈ d.spans, x.PointsInto (splitLines source)) ∧
      ∃ line, lineAt? (splitLines source) d.span.start = some line ∧
        ∀ file, d.excerpt file (splitLines source) =
          s!"{d.headline}-> {file}:{d.span.start.shown}\n" ++ d.shownLine line := by
  have hlines := splitLines_ne_nil hsource
  have hlies : ∀ d ∈ ds, ∀ x ∈ d.spans, x.Lies (Document.ofStrings (splitLines source)) := by
    rcases compile_eq_error h with rfl | hparse | ⟨p, hparse, rfl⟩
    · exact Lexed.lies_diagnostics hlines
    · intro d hd x hx
      obtain ⟨l, hstretch⟩ := Program.along_ofTokens hparse d hd x hx
      exact hstretch.lies hlines
    · obtain ⟨l, hp⟩ := Program.stretches_ofTokens hparse
      exact p.marks_mistakes fun x hx => (hp x hx).lies hlines
  intro d hd
  have hpoints (x : Span) (hx : x ∈ d.spans) : x.PointsInto (splitLines source) :=
    (hlies d hd x hx).pointsInto
  obtain ⟨line, hline, -⟩ := (hpoints d.span List.mem_cons_self).starts
  exact ⟨hpoints, line, hline, fun file => Diagnostic.excerpt_eq file hline⟩

/-- A constant is declared in the second line and assigned to in the third. -/
def reassigned : String :=
  "fwunc mainuwu-san() [[\n  x-chan-dono = 1~\n  x = 2~\n]]\n"

/-- The mistake points to the name that is assigned to, and its cause to the declaration. -/
def reassignedMistake : Diagnostic :=
  ⟨.constantReassigned "x" (.point ⟨1, 2⟩), .point ⟨2, 2⟩⟩

theorem reassigned_points_into_source :
    (compile reassigned .empty).outcome = .error [reassignedMistake] ∧
      (Span.point ⟨2, 2⟩).PointsInto (splitLines reassigned) ∧
      (Span.point ⟨1, 2⟩).PointsInto (splitLines reassigned) ∧
      ∃ line, lineAt? (splitLines reassigned) ⟨2, 2⟩ = some line ∧
        reassignedMistake.excerpt "main.uwu" (splitLines reassigned) =
          s!"{reassignedMistake.headline}-> main.uwu:3:3\n" ++
            reassignedMistake.shownLine line := by
  have h : (compile reassigned .empty).outcome = .error [reassignedMistake] := by
    have hsource : (compile reassigned .empty).outcome = _ :=
      outcome_of_toList .empty (toList_of_eq rfl)
    rw [hsource]
    exact eq_error_of_match (by decide +kernel)
  obtain ⟨hpoints, line, hline, hexcerpt⟩ :=
    mistakes_point_into_source (by decide) h reassignedMistake List.mem_cons_self
  exact ⟨h, hpoints _ List.mem_cons_self, hpoints _ (List.mem_cons_of_mem _ List.mem_cons_self),
    line, hline, hexcerpt "main.uwu"⟩

end Uwu
