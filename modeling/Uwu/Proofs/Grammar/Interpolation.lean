import Uwu.Proofs.Grammar.RoundTrip
import Uwu.Proofs.Lexeme.Quoting

/-! The way of a string through the lexer and the parser: what is quoted on a line comes back as it
was. -/

namespace Uwu

open Grammar

/-- The number of each name is the one that the table gives it. -/
def Names.hand (names : Names) : Hand :=
  ⟨fun name => (names.identifiers.id? name).getD 0, fun name => (names.classes.id? name).getD 0,
    fun _ => ""⟩

/-! ### The expression that is meant -/

def textSegments (text : String) : List Segment :=
  if text = "" then [] else [.text text]

/-- The names in order, with a text at its place where it is not empty. -/
def partSegments : List Interpolation → List Segment
  | [] => []
  | i :: is => .expr (.place (.link (.name ⟨i.name, default⟩))) ::
      (textSegments i.text ++ partSegments is)

def quotedExpr (text : String) : List Interpolation → Expr
  | [] => .literal (.str text) default
  | i :: is => .format (textSegments text ++ partSegments (i :: is)) default

variable (names : Names) (text : String)

theorem segmentWords_textSegments (h : Hand) (first : Char) (ss : List Segment) :
    segmentWords h first "" (textSegments text ++ ss) = segmentWords h first text ss := by
  rw [textSegments]
  split
  next hempty => rw [hempty]; rfl
  next => rw [List.singleton_append, segmentWords, String.empty_append]

theorem segmentWords_partSegments (is : List Interpolation) :
    segmentWords names.hand '|' text (partSegments is) = partWords names text is := by
  induction is generalizing text with
  | nil => rfl
  | cons i is ih =>
    rw [partSegments, segmentWords, segmentWords_textSegments, ih]
    rfl

/-- The words of the string write the expression. -/
theorem exprWords_quotedExpr (is : List Interpolation) :
    exprWords names.hand (quotedExpr text is) = quotedWords names text is := by
  cases is with
  | nil => rfl
  | cons i is =>
    rw [quotedExpr, exprWords, segmentWords_textSegments, partSegments, segmentWords,
      segmentWords_textSegments, segmentWords_partSegments]
    rfl

theorem textsApart_partSegments (behindText : Bool) (is : List Interpolation) :
    textsApart behindText (partSegments is) := by
  induction is generalizing behindText with
  | nil => trivial
  | cons i is ih =>
    rw [partSegments, textsApart, textSegments]
    split
    next => exact ih false
    next hne => exact ⟨rfl, hne, ih true⟩

theorem segmentsShaped_partSegments (h : Hand) (is : List Interpolation) :
    SegmentsShaped h (partSegments is) := by
  induction is with
  | nil => trivial
  | cons i is ih =>
    refine ⟨trivial, ?_⟩
    rw [textSegments]
    split
    next => exact ih
    next => exact ih

theorem shaped_quotedExpr (h : Hand) (is : List Interpolation) : Shaped h (quotedExpr text is) := by
  cases is with
  | nil => trivial
  | cons i is =>
    have hparts := segmentsShaped_partSegments h (i :: is)
    refine ⟨⟨.place (.link (.name ⟨i.name, default⟩)), ?_⟩, ?_, ?_⟩
    · simp [partSegments]
    · rw [textSegments]
      split
      next => exact textsApart_partSegments false (i :: is)
      next hne => exact ⟨rfl, hne, textsApart_partSegments true (i :: is)⟩
    · rw [textSegments]
      split
      next => exact hparts
      next => exact hparts

/-! ### From the line to the expression -/

theorem isTrivia_partWords (is : List Interpolation) :
    ∀ w ∈ partWords names text is, w.kind.isTrivia = false := by
  induction is generalizing text with
  | nil => exact List.forall_mem_singleton.2 rfl
  | cons i is ih => exact List.forall_mem_cons.2 ⟨rfl, List.forall_mem_cons.2 ⟨rfl, ih i.text⟩⟩

theorem isTrivia_quotedWords (is : List Interpolation) :
    ∀ w ∈ quotedWords names text is, w.kind.isTrivia = false := by
  cases is with
  | nil => exact List.forall_mem_singleton.2 rfl
  | cons i is =>
    have hparts := isTrivia_partWords names i.text is
    exact List.forall_mem_cons.2 ⟨rfl, List.forall_mem_cons.2 ⟨rfl, hparts⟩⟩

/-- What a parser reads of tokens that write `ws`, a terminator and the end of the line. -/
theorem tokens_ofTokens_lineEnd {tokens : List Token} {ws : List Word}
    (hws : ∀ w ∈ ws, w.kind.isTrivia = false)
    (h : tokens.map Token.word = ws ++ (Lexeme.lineEnd ++ [⟨.endOfFile, ""⟩])) :
    (Stream.ofTokens tokens).tokens.map Token.word = ws ++ [Symbol.terminator.word] := by
  rw [← List.append_assoc] at h
  obtain ⟨ts, last, rfl, hts, hlast⟩ := List.map_eq_append_iff.1 h
  obtain ⟨t, rfl, ht⟩ := List.map_eq_singleton_iff.1 hlast
  have hkind : t.kind = .endOfFile := congrArg Word.kind ht
  have htokens : (Stream.ofTokens (ts ++ [t])).tokens =
      ts.filter fun t => !t.word.kind.isTrivia := by
    simp [Stream.ofTokens, hkind, Kind.isTrivia, Token.word]
  have hkeep : ws.filter (fun w => !w.kind.isTrivia) = ws :=
    List.filter_eq_self.2 fun w hw => by rw [hws w hw]; rfl
  rw [htokens, ← Function.comp_def (fun w : Word => !w.kind.isTrivia), ← List.filter_map, hts,
    List.filter_append, hkeep]
  rfl

/-- Tokens that write the string are read back as what is meant. -/
theorem givesBack_quotedExpr {tokens : List Token} (is : List Interpolation)
    (h : tokens.map Token.word =
      quotedWords names text is ++ (Lexeme.lineEnd ++ [⟨.endOfFile, ""⟩])) :
    ∃ rest, rest.map Token.word = [Symbol.terminator.word] ∧
      GivesBack .lowest (quotedExpr text is) (.ofTokens tokens) rest := by
  have htokens := tokens_ofTokens_lineEnd (isTrivia_quotedWords names text is) h
  obtain ⟨ts, rest, hs, hts, hrest⟩ := List.map_eq_append_iff.1 htokens
  rw [← exprWords_quotedExpr] at hts
  have hends : EndsExpr .lowest (rest.headD (endToken (Stream.ofTokens tokens).stop)).kind := by
    obtain ⟨u, rfl, hu⟩ := List.map_eq_singleton_iff.1 hrest
    have hkind : u.kind = .symbol .terminator := congrArg Word.kind hu
    rw [List.headD_cons, hkind]
    decide
  exact ⟨rest, hrest, givesBack_exprWords (shaped_quotedExpr text _ is) hs hts rfl
    (bindsOver_lowest _) hends⟩

theorem split_singleton {cs : List Char} (h : '\n' ∉ cs) :
    Document.split (cs ++ ['\n']) = [cs ++ ['\n']] := by
  induction cs with
  | nil => rfl
  | cons c cs ih =>
    rw [List.mem_cons, not_or] at h
    rw [List.cons_append, Document.split, if_neg (Ne.symm h.1), ih h.2]

theorem newline_not_mem_quotedTail {is : List Interpolation} (his : ∀ i ∈ is, isPlainName i.name) :
    '\n' ∉ quotedTail text is := by
  induction is generalizing text with
  | nil => simp [quotedTail, Lexeme.newline_not_mem_escape]
  | cons i is ih =>
    rw [List.forall_mem_cons] at his
    have hname : '\n' ∉ i.name.toList := by
      intro hmem
      have hall := his.1
      simp only [isPlainName, Bool.and_eq_true, List.all_eq_true] at hall
      cases hall.1.2 '\n' hmem
    simp [quotedTail, Lexeme.newline_not_mem_escape, hname, ih i.text his.2]

/-- A line has its only newline at its end. -/
theorem splitLines_quotedLine {is : List Interpolation} (his : ∀ i ∈ is, isPlainName i.name) :
    splitLines (quotedLine text is) = [quotedLine text is] := by
  have hline : (quotedLine text is).toList = ('"' :: (quotedTail text is ++ ['~'])) ++ ['\n'] := by
    simp [quotedLine]
  have hbody : '\n' ∉ '"' :: (quotedTail text is ++ ['~']) := by
    simp [newline_not_mem_quotedTail text his]
  rw [splitLines, hline, split_singleton hbody, ← hline, List.map_singleton, String.ofList_toList]

/-- What is quoted on a line comes back as it was: the texts with all their characters, however many
names stand between them. -/
theorem quotedLine_roundTrip {is : List Interpolation} (his : ∀ i ∈ is, isPlainName i.name) :
    let x := Lexed.ofLines (splitLines (quotedLine text is)) .empty
    x.diagnostics = [] ∧
      x.tokens.map Token.word =
        quotedWords x.names text is ++ (Lexeme.lineEnd ++ [⟨.endOfFile, ""⟩]) ∧
      ∃ rest, rest.map Token.word = [Symbol.terminator.word] ∧
        GivesBack .lowest (quotedExpr text is) (.ofTokens x.tokens) rest := by
  rw [splitLines_quotedLine text his]
  obtain ⟨hd, hwords⟩ := Lexed.ofLines_quotedLine text his
  exact ⟨hd, hwords, givesBack_quotedExpr _ text is hwords⟩

/-- A backslash before a quote, no text between two names, and a bar before one. -/
theorem quotedLine_roundTrip_mixed :
    let is : List Interpolation := [⟨"a", ""⟩, ⟨"b_2", "|\\"⟩, ⟨"a", "\n"⟩]
    let x := Lexed.ofLines (splitLines (quotedLine "\\\"" is)) .empty
    quotedLine "\\\"" is = "\"\\\\\\\"|a||b_2|\\|\\\\|a|\\n\"~\n" ∧
      (∀ i ∈ is, isPlainName i.name) ∧ x.diagnostics = [] ∧
      ∃ rest, rest.map Token.word = [Symbol.terminator.word] ∧
        GivesBack .lowest (quotedExpr "\\\"" is) (.ofTokens x.tokens) rest := by
  intro is
  have his : ∀ i ∈ is, isPlainName i.name := by decide
  have h := quotedLine_roundTrip "\\\"" his
  exact ⟨by decide, his, h.1, h.2.2⟩

end Uwu
