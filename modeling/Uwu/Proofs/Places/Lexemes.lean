import Uwu.Proofs.Lexeme.Tiling
import Uwu.Proofs.Places.Parsing

/-! The places of tokens and of rejected texts lie in the document that they are read from, and so
does every stretch of its tokens. -/

namespace Uwu

/-- The place lies on a line of the document, behind its last character at the latest. -/
def Document.Holds (d : Document) (p : Position) : Prop :=
  ∃ l, d[p.line]? = some l ∧ p.column ≤ l.length

/-- The span begins in the document and does not end before it begins. -/
structure Span.Lies (d : Document) (x : Span) : Prop where
  ordered : x.start ≤ x.stop
  starts : d.Holds x.start

theorem Document.holds_endPosition {d : Document} (h : d ≠ []) : d.Holds d.endPosition := by
  rw [endPosition_eq]
  have hlt : d.length - 1 < d.length := Nat.sub_one_lt (by simpa using h)
  refine ⟨d[d.length - 1], List.getElem?_eq_getElem hlt, ?_⟩
  rw [List.getElem?_eq_getElem hlt]
  exact Nat.le_refl _

theorem Document.lies_endPosition {d : Document} (h : d ≠ []) :
    Span.Lies d (.point d.endPosition) :=
  ⟨.inr ⟨rfl, Nat.le_refl _⟩, holds_endPosition h⟩

theorem Span.lies_ofWidth {d : Document} {n c w : Nat} {l : List Char} (hl : d[n]? = some l)
    (hc : c ≤ l.length) : Span.Lies d (.ofWidth ⟨n, c⟩ w) :=
  ⟨.inr ⟨rfl, Nat.le_add_right c _⟩, l, hl, hc⟩

namespace Lexeme

/-! ### Rejected texts -/

/-- The reading is no mistake, or one whose cause points to no second place. -/
def Reading.Siteless (r : Reading) : Prop :=
  ∀ cause w, r = .rejected cause w → cause.sites = []

theorem siteless_checkFollower (kind : Kind) (w : Nat) (text : List Char) :
    (checkFollower kind w text).Siteless := by
  intro cause v h
  unfold checkFollower at h
  split at h
  next =>
    split at h
    next => cases h
    next => cases h; rfl
  next => cases h

theorem siteless_rejected {cause : Cause} {w : Nat} (h : cause.sites = []) :
    (Reading.rejected cause w).Siteless := by
  rintro _ _ ⟨⟩
  exact h

theorem siteless_readName (before : List (List Char)) (word text : List Char) (st : State) :
    (readName before word text st).1.Siteless := by
  unfold readName
  split
  next => exact siteless_rejected rfl
  next => exact siteless_checkFollower _ _ _

theorem siteless_readWord (before : List (List Char)) (text : List Char) (st : State) :
    (readWord before text st).1.Siteless := by
  unfold readWord
  dsimp only
  split
  next => exact siteless_checkFollower _ _ _
  next =>
    split
    next => exact siteless_checkFollower _ _ _
    next => exact siteless_readName _ _ _ _

theorem siteless_readString (text : List Char) (st : State) :
    (readString text st).1.Siteless := by
  unfold readString
  split
  next => exact siteless_checkFollower _ _ _
  next => exact siteless_checkFollower _ _ _
  next => exact siteless_rejected rfl

theorem siteless_readStringPart (text : List Char) (st : State) :
    (readStringPart text st).1.Siteless := by
  unfold readStringPart
  split
  next => exact siteless_checkFollower _ _ _
  next => exact siteless_checkFollower _ _ _
  next => exact siteless_rejected rfl

theorem siteless_readSymbol (text : List Char) (st : State) :
    (readSymbol text st).1.Siteless := by
  unfold readSymbol
  split
  next => exact siteless_checkFollower _ _ _
  next =>
    split
    next => exact siteless_checkFollower _ _ _
    next => exact siteless_rejected rfl

theorem siteless_read (before : List (List Char)) (c : Char) (cs : List Char) (st : State) :
    (read before c cs st).1.Siteless := by
  simp only [read]
  repeat' split
  next => exact siteless_checkFollower _ _ _
  next => exact siteless_checkFollower _ _ _
  next => exact siteless_readString _ _
  next => exact siteless_readStringPart _ _
  next => exact siteless_checkFollower _ _ _
  next => exact siteless_readWord _ _ _
  next => exact siteless_readSymbol _ _

theorem siteless_linePieces {n : Nat} {earlier : List (List Char)} (text : List Char) (skip : Nat)
    (passed : List Char) (st : State) :
    ∀ e ∈ (linePieces n earlier skip passed text st).1.filterMap Piece.diagnostic?,
      e.cause.sites = [] := by
  induction text generalizing skip passed st with
  | nil => exact List.forall_mem_nil _
  | cons c cs ih =>
    cases skip with
    | succ skip => exact ih skip (c :: passed) st
    | zero =>
      have hread := siteless_read (passed :: earlier) c cs st
      have hrest := ih ((read (passed :: earlier) c cs st).1.width - 1) (c :: passed)
        (read (passed :: earlier) c cs st).2
      have hhere : ∀ e ∈ ((read (passed :: earlier) c cs st).1.piece ⟨n, passed.length⟩ (c :: cs) ::
          (linePieces n earlier ((read (passed :: earlier) c cs st).1.width - 1) (c :: passed) cs
            (read (passed :: earlier) c cs st).2).1).filterMap Piece.diagnostic?,
          e.cause.sites = [] := by
        cases hr : (read (passed :: earlier) c cs st).1 with
        | accepted kind w =>
          rw [hr] at hrest
          exact hrest
        | rejected cause w =>
          rw [hr] at hrest
          exact List.forall_mem_cons.2 ⟨hread cause w hr, hrest⟩
      simp only [linePieces]
      split
      next => exact List.forall_mem_cons.2 ⟨rfl, hhere⟩
      next => exact hhere

theorem siteless_pieces {n : Nat} {earlier : List (List Char)} (d : Document) (st : State) :
    ∀ e ∈ (pieces n earlier d st).1.filterMap Piece.diagnostic?, e.cause.sites = [] := by
  induction d generalizing n earlier st with
  | nil => exact List.forall_mem_nil _
  | cons l ls ih =>
    simp only [pieces, List.filterMap_append]
    exact List.forall_mem_append.2 ⟨siteless_linePieces l 0 [] st, ih _⟩

/-! ### Pieces -/

/-- The spans of pieces lie in the document that they tile. -/
theorem Tiling.lies {d : Document} {p : Position} {ps : List Piece} (h : Tiling d p ps) :
    (∀ t ∈ ps.filterMap Piece.token?, t.span.Lies d) ∧
      ∀ e ∈ ps.filterMap Piece.diagnostic?, e.span.Lies d := by
  induction h with
  | done => exact ⟨List.forall_mem_nil _, List.forall_mem_nil _⟩
  | wrap _ _ ih => exact ih
  | token hl hw hc _ _ _ ih =>
    exact ⟨List.forall_mem_cons.2 ⟨Span.lies_ofWidth hl (by omega), ih.1⟩, ih.2⟩
  | rejected hl hw hc _ _ ih =>
    exact ⟨ih.1, List.forall_mem_cons.2 ⟨Span.lies_ofWidth hl (by omega), ih.2⟩⟩
  | @remark n c l _ hl hnewline _ ih =>
    have hc : c ≤ l.length := Nat.le_of_lt (List.getElem?_eq_some_iff.1 hnewline).1
    exact ⟨ih.1, List.forall_mem_cons.2 ⟨⟨.inr ⟨rfl, Nat.le_refl c⟩, l, hl, hc⟩, ih.2⟩⟩

end Lexeme

namespace Lexed

variable {lines : List String} {names : Names}

theorem ofStrings_ne_nil (h : lines ≠ []) : Document.ofStrings lines ≠ [] := by
  simpa [Document.ofStrings] using h

/-- Tokens lie in the text, and so does the end of one that is not empty. -/
theorem lies_tokens (h : lines ≠ []) :
    ∀ t ∈ (ofLines lines names).tokens, t.span.Lies (Document.ofStrings lines) := by
  intro t ht
  rw [tokens_ofLines, List.mem_append, List.mem_map, List.mem_singleton] at ht
  rcases ht with ⟨u, hu, rfl⟩ | rfl
  · rw [Token.span_reclassify]
    exact (tiling_pieces lines names).lies.1 u hu
  · exact Document.lies_endPosition (ofStrings_ne_nil h)

/-- What is rejected lies in the text. -/
theorem lies_diagnostics (h : lines ≠ []) :
    ∀ e ∈ (ofLines lines names).diagnostics, ∀ x ∈ e.spans,
      x.Lies (Document.ofStrings lines) := by
  have hall : ∀ e ∈ (ofLines lines names).diagnostics,
      e.span.Lies (Document.ofStrings lines) ∧ e.cause.sites = [] := by
    rw [diagnostics_ofLines, List.forall_mem_append]
    refine ⟨fun e he => ⟨(tiling_pieces lines names).lies.2 e he,
      Lexeme.siteless_pieces _ _ e he⟩, ?_⟩
    split
    next =>
      exact List.forall_mem_singleton.2 ⟨Document.lies_endPosition (ofStrings_ne_nil h), rfl⟩
    next => exact List.forall_mem_nil _
  intro e he
  obtain ⟨hspan, hsites⟩ := hall e he
  rw [Diagnostic.spans, hsites]
  exact List.forall_mem_singleton.2 hspan

end Lexed

namespace Grammar

/-! ### Stretches of tokens -/

/-- A token on the way is one of the stream or the end behind them. -/
theorem Stream.getElem?_token (o : Stream) (n : Nat) :
    (o.tokens ++ [endToken o.stop])[min n o.tokens.length]? = some (o.token n) := by
  induction n generalizing o with
  | zero =>
    rw [token, Function.iterate_zero_apply, current, Nat.zero_min]
    cases o.tokens <;> rfl
  | succ n ih =>
    have hstep : o.token (n + 1) = o.advance.token n := by
      rw [token, Function.iterate_succ_apply, token]
    have h := ih o.advance
    rw [hstep, ← h, advance]
    cases ht : o.tokens with
    | nil => simp [ht]
    | cons t ts => simp [Nat.add_min_add_right]

/-- Of tokens in order, an earlier one starts before a later one ends. -/
theorem Stream.token_le {o : Stream}
    (horder : (o.tokens ++ [endToken o.stop]).Pairwise fun t u => t.span.stop < u.span.start)
    (hle : ∀ t ∈ o.tokens ++ [endToken o.stop], t.span.start ≤ t.span.stop) {i j : Nat}
    (hij : i ≤ j) : (o.token i).span.start ≤ (o.token j).span.stop := by
  obtain ⟨hi, hti⟩ := List.getElem?_eq_some_iff.1 (o.getElem?_token i)
  obtain ⟨hj, htj⟩ := List.getElem?_eq_some_iff.1 (o.getElem?_token j)
  have hlei := hle _ (List.getElem_mem hi)
  have hlej := hle _ (List.getElem_mem hj)
  rw [← hti, ← htj]
  by_cases hlt : min i o.tokens.length < min j o.tokens.length
  · have hstep := List.pairwise_iff_getElem.1 horder _ _ hi hj hlt
    rw [Position.lt_def] at hstep
    rw [Position.le_def] at hlei hlej ⊢
    omega
  · have heq : min i o.tokens.length = min j o.tokens.length := by omega
    simp only [heq]
    exact hlej

variable {lines : List String} {names : Names}

/-- The tokens that a parser starts with, and the end behind them, are tokens of the text. -/
theorem sublist_ofLines (lines : List String) (names : Names) :
    ((Stream.ofTokens (Lexed.ofLines lines names).tokens).tokens ++
      [endToken (Stream.ofTokens (Lexed.ofLines lines names).tokens).stop]).Sublist
      (Lexed.ofLines lines names).tokens := by
  obtain ⟨ts, hts, -⟩ := Lexed.ends_ofLines lines names
  simp only [hts, Stream.ofTokens]
  simp [endToken, Kind.isTrivia]

/-- A stretch of the tokens of a text lies in the text. -/
theorem Stretch.lies {k l : Nat} {x : Span} (hlines : lines ≠ [])
    (h : Stretch (.ofTokens (Lexed.ofLines lines names).tokens) k l x) :
    x.Lies (Document.ofStrings lines) := by
  obtain ⟨i, j, -, hij, -, rfl⟩ := h
  have hsub := sublist_ofLines lines names
  refine ⟨Stream.token_le ((Lexed.increasing_ofLines lines names).sublist hsub)
    (fun t ht => (Lexed.lexeme_ofLines lines names (hsub.subset ht)).1) hij, ?_⟩
  have hi := List.mem_of_getElem? (Stream.getElem?_token
    (.ofTokens (Lexed.ofLines lines names).tokens) i)
  exact (Lexed.lies_tokens hlines _ (hsub.subset hi)).starts

end Grammar

end Uwu
