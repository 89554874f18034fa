import Uwu.Compile

/-! A source text compiles exactly if no stage finds a mistake in it. What the stages make of a
given text is computed from its characters, since the bytes of a string are slow to compute with. -/

namespace Uwu

section Except

variable {ε α β : Type}

theorem bind_eq_ok {r : Except ε α} {f : α → Except ε β} {b : β} :
    (r >>= f) = .ok b ↔ ∃ a, r = .ok a ∧ f a = .ok b := by
  constructor
  · intro h
    cases r with
    | error _ => cases h
    | ok a => exact ⟨a, rfl, h⟩
  · rintro ⟨a, rfl, h⟩
    exact h

/-- A stage goes on where it has found no mistake. -/
theorem stage_eq_ok {ds : List Diagnostic} {r : Except (List Diagnostic) α} {a : α} :
    (if !ds.isEmpty then throw ds else r) = .ok a ↔ ds = [] ∧ r = .ok a := by
  constructor
  · intro h
    cases ds with
    | nil => exact ⟨rfl, h⟩
    | cons _ _ => cases h
  · rintro ⟨rfl, h⟩
    exact h

/-- A stage stops at its mistakes. -/
theorem stage_eq_error {ds es : List Diagnostic} {r : Except (List Diagnostic) α} :
    (if !ds.isEmpty then throw ds else r) = .error es ↔
      (ds ≠ [] ∧ ds = es) ∨ (ds = [] ∧ r = .error es) := by
  cases ds with
  | nil => simp
  | cons d ds => simp [throw, throwThe, MonadExceptOf.throw]

theorem eq_error_of_match [DecidableEq ε] {r : Except ε α} {e : ε}
    (h : (match r with | .error d => decide (d = e) | .ok _ => false : Bool) = true) :
    r = .error e := by
  cases r with
  | error d => rw [of_decide_eq_true h]
  | ok a => cases h

theorem exists_ok_of_any {r : Except ε α} {test : α → Bool} (h : r.toOption.any test) :
    ∃ a, r = .ok a ∧ test a := by
  cases r with
  | error _ => cases h
  | ok a => exact ⟨a, rfl, h⟩

end Except

theorem Program.mistakes_eq_nil {p : Program} :
    p.mistakes = [] ↔ p.checkNames = [] ∧ p.checkTypes.mistakes = [] := by
  unfold Program.mistakes
  split
  next hn => exact ⟨fun h => ⟨hn, h⟩, fun h => h.2⟩
  next hn => exact ⟨fun h => absurd h hn, fun h => h.1⟩

theorem compile_eq_ok {source : String} {names : Names} {p : Program} :
    (compile source names).outcome = .ok p ↔
      (Lexed.ofLines (splitLines source) names).diagnostics = [] ∧
        Program.ofTokens (Lexed.ofLines (splitLines source) names).tokens
          (Lexed.ofLines (splitLines source) names).names = .ok p ∧ p.mistakes = [] := by
  unfold compile
  generalize Lexed.ofLines (splitLines source) names = lexed
  change (if !lexed.diagnostics.isEmpty then throw lexed.diagnostics else
    Program.ofTokens lexed.tokens lexed.names >>= fun q =>
      if !q.mistakes.isEmpty then throw q.mistakes else pure q) = Except.ok p ↔ _
  rw [stage_eq_ok, bind_eq_ok]
  refine and_congr_right fun _ => ?_
  constructor
  · rintro ⟨q, hq, h⟩
    obtain ⟨hm, hp⟩ := stage_eq_ok.1 h
    cases hp
    exact ⟨hq, hm⟩
  · rintro ⟨hq, hm⟩
    exact ⟨p, hq, stage_eq_ok.2 ⟨hm, rfl⟩⟩

/-! ### Given texts -/

theorem toList_of_eq {s : String} {cs : List Char} (h : s = .ofList cs) : s.toList = cs := by
  rw [h, String.toList_ofList]

theorem toList_append_of_eq {s t : String} {cs ds : List Char} (hs : s.toList = cs)
    (ht : t.toList = ds) : (s ++ t).toList = cs ++ ds := by
  rw [String.toList_append, hs, ht]

theorem Document.ofStrings_splitLines (source : String) :
    ofStrings (splitLines source) = split source.toList := by
  rw [ofStrings, splitLines, List.map_map]
  simp [Function.comp_def]

namespace Lexed

def ofDocument (document : Document) (names : Names) : Lexed :=
  let (pieces, st) := Lexeme.pieces 0 [] document (.initial names)
  let pieces :=
    if st.interpolating then pieces ++ [Lexeme.openString document.endPosition] else pieces
  { tokens := (pieces.filterMap Lexeme.Piece.token?).map (Token.reclassify st.names) ++
      [⟨.endOfFile, "", Span.point document.endPosition⟩]
    diagnostics := pieces.filterMap Lexeme.Piece.diagnostic?
    names := st.names }

theorem ofLines_eq (lines : List String) (names : Names) :
    ofLines lines names = ofDocument (Document.ofStrings lines) names := rfl

theorem ofLines_splitLines {source : String} {cs : List Char} (h : source.toList = cs)
    (names : Names) : ofLines (splitLines source) names = ofDocument (Document.split cs) names := by
  rw [ofLines_eq, Document.ofStrings_splitLines, h]

def outcome (lexed : Lexed) : Except (List Diagnostic) Program := do
  if !lexed.diagnostics.isEmpty then throw lexed.diagnostics
  let p ← Program.ofTokens lexed.tokens lexed.names
  if !p.mistakes.isEmpty then throw p.mistakes
  return p

end Lexed

/-- What the stages make of a text is computed from its characters. -/
theorem outcome_of_toList {source : String} {cs : List Char} (names : Names)
    (hs : source.toList = cs) : (compile source names).outcome =
      (Lexed.ofDocument (Document.split cs) names).outcome := by
  rw [← Lexed.ofLines_splitLines hs]
  rfl

/-- To find a program that passes a test, run the test on what the stages make of its text. -/
theorem exists_compiled {cs : List Char} (source : String) (names : Names)
    (test : Program → Bool) (hs : source.toList = cs)
    (h : (Lexed.ofDocument (Document.split cs) names).outcome.toOption.any test) :
    ∃ p, (compile source names).outcome = .ok p ∧ test p := by
  rw [outcome_of_toList names hs]
  exact exists_ok_of_any h

/-- The same for a program in which the later stages may find mistakes. -/
theorem exists_parsed {cs : List Char} (source : String) (names : Names)
    (test : Program → Bool) (hs : source.toList = cs)
    (h : (Program.ofTokens (Lexed.ofDocument (Document.split cs) names).tokens
      (Lexed.ofDocument (Document.split cs) names).names).toOption.any test) :
    ∃ p, Program.ofTokens (Lexed.ofLines (splitLines source) names).tokens
      (Lexed.ofLines (splitLines source) names).names = .ok p ∧ test p := by
  rw [Lexed.ofLines_splitLines hs]
  exact exists_ok_of_any h

end Uwu
