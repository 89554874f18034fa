import Uwu.Proofs.Lexeme.Width
import Uwu.Source.Cursor

/-! The tokens and the rejected texts of a document tile it: every character lies
in exactly one of them. The pieces of a document are described from a place to its
end, and each fact about the tokens is read off that description. -/

namespace Uwu

/-! ### Places -/

namespace Position

theorem lt_def (p q : Position) :
    p < q ↔ p.line < q.line ∨ (p.line = q.line ∧ p.column < q.column) := Iff.rfl

theorem le_def (p q : Position) :
    p ≤ q ↔ p.line < q.line ∨ (p.line = q.line ∧ p.column ≤ q.column) := Iff.rfl

protected theorem le_of_lt {p q : Position} (h : p < q) : p ≤ q := by
  rw [lt_def] at h
  rw [le_def]
  omega

end Position

/-- The span reaches over a place; its end belongs to it. -/
def Span.Covers (s : Span) (p : Position) : Prop :=
  s.start ≤ p ∧ p ≤ s.stop

instance (s : Span) (p : Position) : Decidable (s.Covers p) :=
  inferInstanceAs (Decidable (_ ∧ _))

theorem Span.covers_ofWidth {n c w : Nat} (hw : 0 < w) (p : Position) :
    (Span.ofWidth ⟨n, c⟩ w).Covers p ↔ p.line = n ∧ c ≤ p.column ∧ p.column < c + w := by
  simp only [Span.Covers, Span.ofWidth, Position.le_def]
  omega

namespace Document

variable {d : Document}

/-- The characters of a line that a span reaches over. -/
def covered (d : Document) (s : Span) : List Char :=
  ((d[s.start.line]?.getD []).drop s.start.column).take (s.stop.column + 1 - s.start.column)

/-- The text from a place to the end of the document. -/
def textFrom (d : Document) (p : Position) : List Char :=
  (d[p.line]?.getD []).drop p.column ++ (d.drop (p.line + 1)).flatten

theorem charAt?_eq {n c : Nat} {l : List Char} (hl : d[n]? = some l) :
    d.charAt? ⟨n, c⟩ = l[c]? := by
  simp [charAt?, hl]

theorem textFrom_eq {n c : Nat} {l : List Char} (hl : d[n]? = some l) :
    d.textFrom ⟨n, c⟩ = l.drop c ++ (d.drop (n + 1)).flatten := by
  simp [textFrom, hl]

theorem textFrom_of_le {n c : Nat} (h : d.length ≤ n) : d.textFrom ⟨n, c⟩ = [] := by
  simp [textFrom, List.getElem?_eq_none_iff.2 h, List.drop_eq_nil_iff.2 (Nat.le_succ_of_le h)]

theorem textFrom_zero (d : Document) : d.textFrom ⟨0, 0⟩ = d.flatten := by
  cases d <;> simp [textFrom]

theorem endPosition_eq (d : Document) :
    d.endPosition = ⟨d.length - 1, (d[d.length - 1]?.getD []).length⟩ := by
  match d with
  | [] => rfl
  | [l] => rfl
  | l :: l' :: ls =>
    simp [endPosition, List.getLastD_eq_getLast?, List.getLast?_eq_getElem?]

/-- All characters stand before the end. -/
theorem lt_endPosition {n c : Nat} {l : List Char} (hl : d[n]? = some l) (hc : c < l.length) :
    (⟨n, c⟩ : Position) < d.endPosition := by
  obtain ⟨hn, -⟩ := List.getElem?_eq_some_iff.1 hl
  rw [endPosition_eq, Position.lt_def]
  by_cases hlast : n = d.length - 1
  · subst hlast
    simp [hl, hc]
  · left
    dsimp only
    omega

end Document

namespace Lexeme

/-! ### Pieces from a place on -/

/-- The pieces cover the text of `d` from a place to its end, one after the other. -/
inductive Tiling (d : Document) : Position → List Piece → Prop where
  | done {n : Nat} (h : d.length ≤ n) : Tiling d ⟨n, 0⟩ []
  | wrap {n : Nat} {l : List Char} {ps : List Piece} (hl : d[n]? = some l)
      (rest : Tiling d ⟨n + 1, 0⟩ ps) : Tiling d ⟨n, l.length⟩ ps
  | token {n c w : Nat} {l : List Char} {kind : Kind} {ps : List Piece} (hl : d[n]? = some l)
      (hw : 0 < w) (hc : c + w ≤ l.length) (hkind : kind ≠ .endOfFile)
      (hnewline : l[c]? = some '\n' → kind = .newline) (rest : Tiling d ⟨n, c + w⟩ ps) :
      Tiling d ⟨n, c⟩
        (.token ⟨kind, String.ofList ((l.drop c).take w), .ofWidth ⟨n, c⟩ w⟩ :: ps)
  | rejected {n c w : Nat} {l : List Char} {cause : Cause} {ps : List Piece} (hl : d[n]? = some l)
      (hw : 0 < w) (hc : c + w ≤ l.length) (hnewline : l[c]? ≠ some '\n')
      (rest : Tiling d ⟨n, c + w⟩ ps) :
      Tiling d ⟨n, c⟩ (.rejected ⟨cause, .ofWidth ⟨n, c⟩ w⟩ :: ps)
  | remark {n c : Nat} {l : List Char} {ps : List Piece} (hl : d[n]? = some l)
      (hnewline : l[c]? = some '\n') (rest : Tiling d ⟨n, c⟩ ps) :
      Tiling d ⟨n, c⟩ (openString ⟨n, c⟩ :: ps)

variable {d : Document}

/-- One reading and the pieces behind it. -/
theorem Tiling.read {n c : Nat} {l : List Char} {x : Char} {xs : List Char}
    {before : List (List Char)} {st : State} {ps : List Piece} (hl : d[n]? = some l)
    (hx : l.drop c = x :: xs)
    (rest : Tiling d ⟨n, c + (read before x xs st).1.width⟩ ps) :
    Tiling d ⟨n, c⟩ ((read before x xs st).1.piece ⟨n, c⟩ (x :: xs) :: ps) := by
  have hwithin := within_read before x xs st
  have hlen := congrArg List.length hx
  rw [List.length_drop] at hlen
  have hle := hwithin.le
  have hpos := hwithin.pos
  have hxc : l[c]? = some x := by
    have h0 := congrArg (·[0]?) hx
    simpa using h0
  cases hr : (Lexeme.read before x xs st).1 with
  | accepted kind w =>
    have hnewline : l[c]? = some '\n' → kind = .newline := by
      intro h
      rw [hxc, Option.some.injEq] at h
      rw [h, read_newline] at hr
      cases hr
      rfl
    rw [hr] at rest hle hpos
    rw [Reading.width] at hle hpos
    rw [Reading.piece, ← hx]
    exact .token hl hpos (by omega) (hwithin.kind_ne kind w hr) hnewline rest
  | rejected cause w =>
    have hnewline : l[c]? ≠ some '\n' := by
      intro h
      rw [hxc, Option.some.injEq] at h
      rw [h, read_newline] at hr
      cases hr
    rw [hr] at rest hle hpos
    rw [Reading.width] at hle hpos
    exact .rejected hl hpos (by omega) hnewline rest

/-- The pieces of a line, behind `skip` characters that belong to the piece before. -/
theorem tiling_linePieces {n : Nat} {earlier : List (List Char)} {qs : List Piece}
    (hqs : Tiling d ⟨n + 1, 0⟩ qs) (text : List Char) (skip : Nat) (passed : List Char)
    (st : State) (hl : d[n]? = some (passed.reverse ++ text)) (hskip : skip ≤ text.length) :
    Tiling d ⟨n, passed.length + skip⟩ ((linePieces n earlier skip passed text st).1 ++ qs) := by
  induction text generalizing skip passed st with
  | nil =>
    have hzero : skip = 0 := by simpa using hskip
    have hlen : passed.length + skip = (passed.reverse ++ []).length := by simp [hzero]
    rw [hlen]
    simpa [linePieces] using Tiling.wrap hl hqs
  | cons x xs ih =>
    have hl' : d[n]? = some ((x :: passed).reverse ++ xs) := by simpa using hl
    cases skip with
    | succ skip =>
      have h := ih skip (x :: passed) st hl' (by simpa using hskip)
      rw [List.length_cons, Nat.add_assoc, Nat.add_comm 1 skip] at h
      exact h
    | zero =>
      have hdrop : (passed.reverse ++ x :: xs).drop passed.length = x :: xs := by simp
      have hwithin := within_read (passed :: earlier) x xs st
      have hpos := hwithin.pos
      have hle := hwithin.le
      rw [List.length_cons] at hle
      have hrest := ih ((read (passed :: earlier) x xs st).1.width - 1) (x :: passed)
        (read (passed :: earlier) x xs st).2 hl' (by omega)
      have hcolumn : (x :: passed).length + ((read (passed :: earlier) x xs st).1.width - 1) =
          passed.length + (read (passed :: earlier) x xs st).1.width := by
        rw [List.length_cons]
        omega
      rw [hcolumn] at hrest
      have hhere := Tiling.read hl hdrop hrest
      simp only [linePieces, Nat.add_zero]
      split
      next hopen =>
        refine .remark hl ?_ hhere
        simp [hopen.1]
      next => exact hhere

theorem tiling_pieces (ls : Document) (n : Nat) (earlier : List (List Char)) (st : State)
    (hls : d.drop n = ls) : Tiling d ⟨n, 0⟩ (pieces n earlier ls st).1 := by
  induction ls generalizing n earlier st with
  | nil => exact .done (List.drop_eq_nil_iff.1 hls)
  | cons l ls ih =>
    have hl : d[n]? = some l := by
      have h0 := congrArg (·[0]?) hls
      simpa using h0
    have hrest := ih (n + 1) (l.reverse :: earlier) (linePieces n earlier 0 [] l st).2
      (by rw [← List.drop_drop, hls]; rfl)
    exact tiling_linePieces hrest l 0 [] st hl (Nat.zero_le _)

/-! ### What the tokens and the rejected texts cover -/

end Lexeme

/-- The diagnostic of an interpolation left open at a newline or at the end of the text. It covers
no rejected text: the newline is a token too. -/
def Document.IsRemark (d : Document) (e : Diagnostic) : Prop :=
  e.cause = .unterminatedString "|" ∧
    (d.charAt? e.span.start = some '\n' ∨ e.span.start = d.endPosition)

instance (d : Document) (e : Diagnostic) : Decidable (d.IsRemark e) :=
  inferInstanceAs (Decidable (_ ∧ _))

/-- How many tokens and rejected texts a place lies in. -/
def Document.coverage (d : Document) (tokens : List Token) (diagnostics : List Diagnostic)
    (p : Position) : Nat :=
  tokens.countP (fun t => t.span.Covers p) +
    (diagnostics.filter fun e => ¬ d.IsRemark e).countP (fun e => e.span.Covers p)

namespace Lexeme

variable {d : Document}

theorem not_isRemark_of_lt {n c w : Nat} {l : List Char} {cause : Cause} (hl : d[n]? = some l)
    (hc : c < l.length) (hnewline : l[c]? ≠ some '\n') :
    ¬ d.IsRemark ⟨cause, .ofWidth ⟨n, c⟩ w⟩ := by
  rintro ⟨-, h | h⟩
  · rw [Span.ofWidth, Document.charAt?_eq hl] at h
    exact hnewline h
  · have hlt := Document.lt_endPosition hl hc
    rw [← h, Position.lt_def] at hlt
    dsimp only [Span.ofWidth] at hlt
    omega

/-- Pieces from a place on cover the characters from there on, each once. -/
theorem Tiling.coverage {p : Position} {ps : List Piece} (h : Tiling d p ps) {n c : Nat}
    {l : List Char} (hl : d[n]? = some l) (hc : c < l.length) :
    d.coverage (ps.filterMap Piece.token?) (ps.filterMap Piece.diagnostic?) ⟨n, c⟩ =
      if p ≤ ⟨n, c⟩ then 1 else 0 := by
  obtain ⟨hn, -⟩ := List.getElem?_eq_some_iff.1 hl
  induction h with
  | @done m h =>
    have hlt : ¬ (⟨m, 0⟩ : Position) ≤ ⟨n, c⟩ := by
      rw [Position.le_def]
      dsimp only
      omega
    simp [Document.coverage, hlt]
  | @wrap m k ps hk rest ih =>
    have hiff : (⟨m, k.length⟩ : Position) ≤ ⟨n, c⟩ ↔ (⟨m + 1, 0⟩ : Position) ≤ ⟨n, c⟩ := by
      simp only [Position.le_def]
      by_cases hmn : m = n
      · subst hmn
        rw [hk, Option.some.injEq] at hl
        subst hl
        omega
      · omega
    simp only [ih, hiff]
  | @token m b w k kind ps hk hw hb hkind hnewline rest ih =>
    simp only [Document.coverage, List.filterMap_cons, Piece.token?, Piece.diagnostic?,
      List.countP_cons, Span.covers_ofWidth hw, decide_eq_true_eq] at ih ⊢
    rw [Nat.add_right_comm, ih]
    simp only [Position.le_def]
    repeat' split
    all_goals omega
  | @rejected m b w k cause ps hk hw hb hnewline rest ih =>
    have hremark : ¬ d.IsRemark ⟨cause, .ofWidth ⟨m, b⟩ w⟩ :=
      not_isRemark_of_lt hk (by omega) hnewline
    simp only [Document.coverage, List.filterMap_cons, Piece.token?, Piece.diagnostic?,
      List.filter_cons, hremark, not_false_eq_true, decide_true, if_true, List.countP_cons,
      Span.covers_ofWidth hw, decide_eq_true_eq] at ih ⊢
    rw [← Nat.add_assoc, ih]
    simp only [Position.le_def]
    repeat' split
    all_goals omega
  | @remark m b k ps hk hnewline rest ih =>
    have hremark : d.IsRemark ⟨.unterminatedString "|", .point ⟨m, b⟩⟩ := by
      refine ⟨rfl, .inl ?_⟩
      rw [Span.point, Document.charAt?_eq hk, hnewline]
    simpa [Document.coverage, openString, Piece.token?, Piece.diagnostic?, List.filterMap_cons,
      List.filter_cons, hremark] using ih

/-- What holds of one token of the document at or behind a place. -/
structure Placed (d : Document) (p : Position) (t : Token) : Prop where
  after : p ≤ t.span.start
  start_le : t.span.start ≤ t.span.stop
  one_line : t.span.start.line = t.span.stop.line
  lexeme : t.lexeme.toList = d.covered t.span
  before_end : t.span.stop < d.endPosition
  kind_ne : t.kind ≠ .endOfFile

theorem Placed.mono {p q : Position} {t : Token} (h : Placed d q t) (hpq : p ≤ q) :
    Placed d p t := by
  refine { h with after := ?_ }
  have := h.after
  simp only [Position.le_def] at *
  omega

theorem Tiling.placed {p : Position} {ps : List Piece} (h : Tiling d p ps) :
    (∀ t ∈ ps.filterMap Piece.token?, Placed d p t) ∧
      (ps.filterMap Piece.token?).Pairwise fun t u => t.span.stop < u.span.start := by
  induction h with
  | done h => simp
  | @wrap m k ps hk rest ih =>
    refine ⟨fun t ht => (ih.1 t ht).mono ?_, ih.2⟩
    rw [Position.le_def]
    dsimp only
    omega
  | @token m b w k kind ps hk hw hb hkind hnewline rest ih =>
    have hnext : ∀ t ∈ ps.filterMap Piece.token?, Placed d ⟨m, b + w⟩ t := ih.1
    simp only [List.filterMap_cons, Piece.token?, List.forall_mem_cons, List.pairwise_cons]
    refine ⟨⟨?_, fun t ht => (hnext t ht).mono ?_⟩, fun t ht => ?_, ih.2⟩
    · refine ⟨?_, ?_, rfl, ?_, ?_, hkind⟩
      · simp [Position.le_def, Span.ofWidth]
      · simp [Position.le_def, Span.ofWidth]
      · have hwidth : b + (w - 1) + 1 - b = w := by omega
        simp [Document.covered, Span.ofWidth, hk, hwidth]
      · exact Document.lt_endPosition hk (by dsimp only; omega)
    · simp [Position.le_def]
    · have hafter := (hnext t ht).after
      simp only [Position.le_def, Position.lt_def, Span.ofWidth] at hafter ⊢
      omega
  | @rejected m b w k cause ps hk hw hb hnewline rest ih =>
    simp only [List.filterMap_cons, Piece.token?]
    refine ⟨fun t ht => (ih.1 t ht).mono ?_, ih.2⟩
    simp [Position.le_def]
  | remark hk hnewline rest ih => exact ih

/-- Pieces from a newline on begin with its token, behind a string left open. -/
theorem Tiling.newline {n c : Nat} {l : List Char} {ps : List Piece} (h : Tiling d ⟨n, c⟩ ps)
    (hl : d[n]? = some l) (hc : l[c]? = some '\n') :
    ∃ t ∈ ps.filterMap Piece.token?, t.kind = .newline ∧ t.span.start = ⟨n, c⟩ := by
  generalize hp : (⟨n, c⟩ : Position) = p at h
  induction h with
  | done h =>
    cases hp
    have := (List.getElem?_eq_some_iff.1 hl).1
    omega
  | wrap hk rest ih =>
    cases hp
    rw [hl, Option.some.injEq] at hk
    subst hk
    simp at hc
  | @token m b w k kind ps hk hw hb hkind hnewline rest ih =>
    cases hp
    rw [hl, Option.some.injEq] at hk
    subst hk
    exact ⟨_, List.mem_cons_self, hnewline hc, rfl⟩
  | rejected hk hw hb hnewline rest ih =>
    cases hp
    rw [hl, Option.some.injEq] at hk
    subst hk
    exact absurd hc hnewline
  | remark hk hnewline rest ih => exact ih hp

/-- A remark among pieces stands on a newline, and so does a token. -/
theorem Tiling.remark_newline {p : Position} {ps : List Piece} (h : Tiling d p ps)
    {e : Diagnostic} (he : e ∈ ps.filterMap Piece.diagnostic?) (hremark : d.IsRemark e) :
    ∃ t ∈ ps.filterMap Piece.token?, t.kind = .newline ∧ t.span.start = e.span.start := by
  induction h with
  | done h => simp at he
  | wrap hk rest ih => exact ih he
  | token hk hw hb hkind hnewline rest ih =>
    obtain ⟨t, ht, hkind, hstart⟩ := ih he
    exact ⟨t, List.mem_cons_of_mem _ ht, hkind, hstart⟩
  | rejected hk hw hb hnewline rest ih =>
    simp only [List.filterMap_cons, Piece.diagnostic?, List.mem_cons] at he
    rcases he with rfl | he
    · exact absurd hremark (not_isRemark_of_lt hk (by omega) hnewline)
    · exact ih he
  | remark hk hnewline rest ih =>
    simp only [List.filterMap_cons, openString, Piece.diagnostic?, List.mem_cons] at he
    rcases he with rfl | he
    · exact rest.newline hk hnewline
    · exact ih he

/-- Without a diagnostic the lexemes are the text. -/
theorem Tiling.flatten_lexemes {p : Position} {ps : List Piece} (h : Tiling d p ps)
    (hd : ps.filterMap Piece.diagnostic? = []) :
    ((ps.filterMap Piece.token?).map fun t => t.lexeme.toList).flatten = d.textFrom p := by
  induction h with
  | done h => rw [Document.textFrom_of_le h]; rfl
  | @wrap m k ps hk rest ih =>
    rw [ih hd, Document.textFrom_eq hk, List.drop_length, List.nil_append]
    cases hm : d[m + 1]? with
    | none =>
      have hle := List.getElem?_eq_none_iff.1 hm
      rw [Document.textFrom_of_le hle, List.drop_eq_nil_iff.2 hle]
      rfl
    | some k' =>
      obtain ⟨hlt, rfl⟩ := List.getElem?_eq_some_iff.1 hm
      rw [Document.textFrom_eq hm, List.drop_zero, List.drop_eq_getElem_cons hlt]
      rfl
  | @token m b w k kind ps hk hw hb hkind hnewline rest ih =>
    simp only [List.filterMap_cons, Piece.diagnostic?] at hd
    rw [Document.textFrom_eq hk]
    simp only [List.filterMap_cons, Piece.token?, List.map_cons, List.flatten_cons, ih hd,
      Document.textFrom_eq hk, String.toList_ofList]
    rw [← List.append_assoc, ← List.drop_drop, List.take_append_drop]
  | rejected hk hw hb hnewline rest ih => simp [Piece.diagnostic?] at hd
  | remark hk hnewline rest ih => simp [openString, Piece.diagnostic?] at hd

end Lexeme

/-! ### The reading of a document -/

namespace Token

@[simp]
theorem span_reclassify (names : Names) (t : Token) : (t.reclassify names).span = t.span := by
  rw [reclassify]
  split
  · split <;> rfl
  · rfl

@[simp]
theorem lexeme_reclassify (names : Names) (t : Token) :
    (t.reclassify names).lexeme = t.lexeme := by
  rw [reclassify]
  split
  · split <;> rfl
  · rfl

theorem kind_reclassify_ne {names : Names} {t : Token} (h : t.kind ≠ .endOfFile) :
    (t.reclassify names).kind ≠ .endOfFile := by
  rw [reclassify]
  split
  · split
    · simp
    · exact h
  · exact h

end Token

namespace Lexed

/-- The pieces of lines, and the state after them. -/
def pieces (lines : List String) (names : Names) : List Lexeme.Piece × Lexeme.State :=
  Lexeme.pieces 0 [] (Document.ofStrings lines) (.initial names)

theorem tokens_ofLines (lines : List String) (names : Names) :
    (ofLines lines names).tokens =
      ((pieces lines names).1.filterMap Lexeme.Piece.token?).map
        (Token.reclassify (pieces lines names).2.names) ++
      [⟨.endOfFile, "", .point (Document.ofStrings lines).endPosition⟩] := by
  simp only [ofLines, pieces]
  split
  · simp [Lexeme.openString, Lexeme.Piece.token?, List.filterMap_cons]
  · rfl

theorem diagnostics_ofLines (lines : List String) (names : Names) :
    (ofLines lines names).diagnostics =
      (pieces lines names).1.filterMap Lexeme.Piece.diagnostic? ++
      if (pieces lines names).2.interpolating then
        [⟨.unterminatedString "|", .point (Document.ofStrings lines).endPosition⟩]
      else [] := by
  simp only [ofLines, pieces]
  split
  next h => simp [Lexeme.openString, Lexeme.Piece.diagnostic?, h]
  next h => simp [h]

theorem tiling_pieces (lines : List String) (names : Names) :
    Lexeme.Tiling (Document.ofStrings lines) ⟨0, 0⟩ (pieces lines names).1 :=
  Lexeme.tiling_pieces _ 0 [] _ rfl

/-- The end token lies behind all characters, and so does a string left open there. -/
theorem coverage_ofLines (lines : List String) (names : Names) {n c : Nat} {l : List Char}
    (hl : (Document.ofStrings lines)[n]? = some l) (hc : c < l.length) :
    (Document.ofStrings lines).coverage (ofLines lines names).tokens
      (ofLines lines names).diagnostics ⟨n, c⟩ = 1 := by
  have hpieces := (tiling_pieces lines names).coverage hl hc
  rw [if_pos (by simp [Position.le_def, Nat.pos_iff_ne_zero]; omega)] at hpieces
  have hend : ¬ (Span.point (Document.ofStrings lines).endPosition).Covers ⟨n, c⟩ := by
    have hlt := Document.lt_endPosition hl hc
    rintro ⟨hle, -⟩
    simp only [Span.point, Position.le_def, Position.lt_def] at hle hlt
    omega
  have hremark : (Document.ofStrings lines).IsRemark
      ⟨.unterminatedString "|", .point (Document.ofStrings lines).endPosition⟩ :=
    ⟨rfl, .inr rfl⟩
  rw [← hpieces, Document.coverage, Document.coverage, tokens_ofLines, diagnostics_ofLines]
  rw [List.countP_append, List.countP_map, List.filter_append, List.countP_append]
  have hopen : List.countP (fun e : Diagnostic => e.span.Covers ⟨n, c⟩)
      (List.filter (fun e => ¬ (Document.ofStrings lines).IsRemark e)
        (if (pieces lines names).2.interpolating then
          [⟨.unterminatedString "|", .point (Document.ofStrings lines).endPosition⟩]
        else [])) = 0 := by
    split <;> simp [hremark]
  rw [hopen]
  simp [Function.comp_def, hend]

theorem remark_ofLines (lines : List String) (names : Names) {e : Diagnostic}
    (he : e ∈ (ofLines lines names).diagnostics) (hremark : (Document.ofStrings lines).IsRemark e) :
    e.span.start = (Document.ofStrings lines).endPosition ∨
      ∃ t ∈ (ofLines lines names).tokens, t.kind = .newline ∧ t.span.start = e.span.start := by
  rw [diagnostics_ofLines, List.mem_append] at he
  rcases he with he | he
  · right
    obtain ⟨t, ht, hkind, hstart⟩ := (tiling_pieces lines names).remark_newline he hremark
    refine ⟨t.reclassify (pieces lines names).2.names, ?_, ?_, by simpa using hstart⟩
    · rw [tokens_ofLines]
      exact List.mem_append_left _ (List.mem_map_of_mem ht)
    · simp [Token.reclassify, hkind]
  · left
    split at he
    · rw [List.mem_singleton.1 he]
      rfl
    · cases he

theorem lexeme_ofLines (lines : List String) (names : Names) {t : Token}
    (ht : t ∈ (ofLines lines names).tokens) :
    t.span.start ≤ t.span.stop ∧ t.span.start.line = t.span.stop.line ∧
      t.lexeme.toList = (Document.ofStrings lines).covered t.span := by
  rw [tokens_ofLines, List.mem_append, List.mem_map, List.mem_singleton] at ht
  rcases ht with ⟨u, hu, rfl⟩ | rfl
  · have h := (tiling_pieces lines names).placed.1 u hu
    rw [Token.span_reclassify, Token.lexeme_reclassify]
    exact ⟨h.start_le, h.one_line, h.lexeme⟩
  · refine ⟨?_, rfl, ?_⟩
    · simp [Span.point, Position.le_def]
    · simp [Span.point, Document.covered, Document.endPosition_eq]

theorem increasing_ofLines (lines : List String) (names : Names) :
    (ofLines lines names).tokens.Pairwise fun t u => t.span.stop < u.span.start := by
  obtain ⟨hplaced, hpairwise⟩ := (tiling_pieces lines names).placed
  rw [tokens_ofLines, List.pairwise_append, List.pairwise_map]
  refine ⟨by simpa using hpairwise, by simp, ?_⟩
  intro t ht u hu
  obtain ⟨v, hv, rfl⟩ := List.mem_map.1 ht
  rw [List.mem_singleton] at hu
  subst hu
  rw [Token.span_reclassify]
  exact (hplaced v hv).before_end

theorem lossless_ofLines {lines : List String} {names : Names}
    (h : (ofLines lines names).diagnostics = []) :
    String.join ((ofLines lines names).tokens.map Token.lexeme) = String.join lines := by
  rw [diagnostics_ofLines, List.append_eq_nil_iff] at h
  have hflat := (tiling_pieces lines names).flatten_lexemes h.1
  rw [Document.textFrom_zero] at hflat
  rw [← String.toList_inj, String.toList_join, String.toList_join, List.flatMap_map,
    tokens_ofLines, List.flatMap_append, List.flatMap_map]
  simpa [List.flatMap_def, Document.ofStrings] using hflat

/-- Only the last token is the end. -/
theorem ends_ofLines (lines : List String) (names : Names) :
    ∃ ts, (ofLines lines names).tokens =
        ts ++ [⟨.endOfFile, "", .point (Document.ofStrings lines).endPosition⟩] ∧
      ∀ t ∈ ts, t.kind ≠ .endOfFile := by
  refine ⟨_, tokens_ofLines lines names, fun t ht => ?_⟩
  obtain ⟨u, hu, rfl⟩ := List.mem_map.1 ht
  exact Token.kind_reclassify_ne ((tiling_pieces lines names).placed.1 u hu).kind_ne

/-- How the tokens and diagnostics that lines are read into lie on their text. -/
structure Tiles (x : Lexed) (lines : List String) : Prop where
  /-- A character lies in one token or in one rejected text, never in two of them. -/
  coverage : ∀ p, ((Document.ofStrings lines).charAt? p).isSome →
    (Document.ofStrings lines).coverage x.tokens x.diagnostics p = 1
  /-- A string left open is noted at the end, or on a newline that is a token. -/
  remark : ∀ e ∈ x.diagnostics, (Document.ofStrings lines).IsRemark e →
    e.span.start = (Document.ofStrings lines).endPosition ∨
      ∃ t ∈ x.tokens, t.kind = .newline ∧ t.span.start = e.span.start
  /-- A token is the text that its span covers on one line. -/
  lexeme : ∀ t ∈ x.tokens, t.span.start ≤ t.span.stop ∧ t.span.start.line = t.span.stop.line ∧
    t.lexeme.toList = (Document.ofStrings lines).covered t.span
  increasing : x.tokens.Pairwise fun t u => t.span.stop < u.span.start
  /-- Only the last token is the end. -/
  ends : ∃ ts, x.tokens = ts ++ [⟨.endOfFile, "", .point (Document.ofStrings lines).endPosition⟩] ∧
    ∀ t ∈ ts, t.kind ≠ .endOfFile
  lossless : x.diagnostics = [] → String.join (x.tokens.map Token.lexeme) = String.join lines

/-- The tokens of a document and the texts that are no tokens tile it. -/
theorem tiles_ofLines (lines : List String) (names : Names) :
    (ofLines lines names).Tiles lines := by
  refine ⟨?_, fun e => remark_ofLines lines names, fun t => lexeme_ofLines lines names,
    increasing_ofLines lines names, ends_ofLines lines names, lossless_ofLines⟩
  rintro ⟨n, c⟩ h
  obtain ⟨x, hx⟩ := Option.isSome_iff_exists.1 h
  obtain ⟨l, hl, hc⟩ := Option.bind_eq_some_iff.1 hx
  exact coverage_ofLines lines names hl (List.getElem?_eq_some_iff.1 hc).1

end Lexed

end Uwu
