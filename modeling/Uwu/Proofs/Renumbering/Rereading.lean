import Uwu.Proofs.Renumbering.Readings

/-! A second reading of a document, from the names known behind the first one. It knows every class
from its beginning on, where the first reading met some only after their uses, and still makes the
same tokens: what the first reading tells apart at its end the second one tells apart at once. -/

namespace Uwu

namespace Token

theorem reclassify_of_kind {t : Token} (h : ∀ id, t.kind ≠ .identifier id) (names : Names) :
    t.reclassify names = t := by
  rw [reclassify]
  split
  next id hk => exact absurd hk (h id)
  next => rfl

theorem reclassify_identifier (names : Names) (id : Nat) (lexeme : String) (span : Span) :
    reclassify names ⟨.identifier id, lexeme, span⟩ =
      ⟨((names.classes.id? lexeme).map Kind.classId).getD (.identifier id), lexeme, span⟩ := by
  rw [reclassify]
  cases names.classes.id? lexeme <;> rfl

/-- Only the kind of a token changes. -/
theorem mk_kind_reclassify (names : Names) (kind : Kind) (lexeme : String) (span : Span) :
    (⟨(reclassify names ⟨kind, lexeme, span⟩).kind, lexeme, span⟩ : Token) =
      reclassify names ⟨kind, lexeme, span⟩ := by
  have hl := lexeme_reclassify names ⟨kind, lexeme, span⟩
  have hs := span_reclassify names ⟨kind, lexeme, span⟩
  generalize reclassify names ⟨kind, lexeme, span⟩ = t at hl hs ⊢
  cases hl
  cases hs
  rfl

theorem reclassify_reclassify (names : Names) (t : Token) :
    (t.reclassify names).reclassify names = t.reclassify names := by
  obtain ⟨kind, lexeme, span⟩ := t
  cases kind with
  | identifier id =>
    rw [reclassify_identifier]
    cases hid : names.classes.id? lexeme with
    | none => rw [Option.map_none, Option.getD_none, reclassify_identifier, hid]; rfl
    | some id' => exact reclassify_of_kind (fun _ => Kind.noConfusion) names
  | _ => rfl

end Token

namespace Lexeme

variable {final : Names}

def Piece.reclassify (names : Names) : Piece → Piece
  | token t => token (t.reclassify names)
  | p => p

theorem Piece.token?_reclassify (names : Names) (p : Piece) :
    (p.reclassify names).token? = p.token?.map (Token.reclassify names) := by
  cases p <;> rfl

theorem Piece.diagnostic?_reclassify (names : Names) (p : Piece) :
    (p.reclassify names).diagnostic? = p.diagnostic? := by
  cases p <;> rfl

/-- A reading that is no name is left as it is. -/
theorem Reading.Nameless.piece_reclassify {r : Reading} (h : r.Nameless) (names : Names)
    (p : Position) (text : List Char) : (r.piece p text).reclassify names = r.piece p text := by
  cases r with
  | rejected cause w => rfl
  | accepted k w =>
    refine congrArg Piece.token (Token.reclassify_of_kind (fun id hid => ?_) names)
    have hk : k = .identifier id := hid
    rw [hk] at h
    cases h _ w rfl

/-! ### The kind of a name -/

/-- Where the names behind a word are known, the word is no new name, and its kind is that which it
is given in the end. -/
theorem nameKind_again {names : Names} {declared : Bool} {word : String}
    (h : (nameKind names declared word).1 ≤ final) (span : Span) :
    nameKind final declared word =
      (final, (Token.reclassify final ⟨(nameKind names declared word).2, word, span⟩).kind) := by
  cases declared with
  | true =>
    have hid : final.classes.id? word = some (names.classes.intern word).2 :=
      NameTable.id?_of_le h.2 (names.classes.id?_intern word)
    change ((final.withClass word).1, Kind.classId (final.withClass word).2) = _
    rw [Names.withClass, NameTable.intern_of_id? hid]
    rfl
  | false =>
    simp only [nameKind, if_neg Bool.false_ne_true] at h ⊢
    cases hknown : names.classes.id? word with
    | some id =>
      rw [hknown] at h
      rw [NameTable.id?_of_le h.2 hknown]
      rfl
    | none =>
      rw [hknown] at h
      have hid : final.identifiers.id? word = some (names.identifiers.intern word).2 :=
        NameTable.id?_of_le h.1 (names.identifiers.id?_intern word)
      simp only [Names.withIdentifier, Token.reclassify_identifier, NameTable.intern_of_id? hid]
      cases final.classes.id? word <;> rfl

/-! ### A document -/

/-- What a line is read into from the names known behind it. -/
theorem linePieces_again (line : Nat) (earlier : List (List Char)) (text : List Char) (skip : Nat)
    (passed : List Char) (st : State)
    (h : (linePieces line earlier skip passed text st).2.names ≤ final) :
    linePieces line earlier skip passed text { st with names := final } =
      ((linePieces line earlier skip passed text st).1.map (Piece.reclassify final),
        { (linePieces line earlier skip passed text st).2 with names := final }) := by
  induction text generalizing skip passed st with
  | nil => cases skip <;> rfl
  | cons c cs ih =>
    cases skip with
    | succ skip => exact ih skip (c :: passed) st h
    | zero =>
      obtain ⟨names, brackets, interpolating⟩ := st
      -- The newline that ends a line with an open string is told in both readings.
      have remark (here : Prop) [Decidable here] (p : Position) (ps : List Piece) :
          (if here then openString p :: ps else ps).map (Piece.reclassify final) =
            if here then openString p :: ps.map (Piece.reclassify final)
            else ps.map (Piece.reclassify final) := by
        split <;> rfl
      rcases course_read (passed :: earlier) c cs brackets interpolating with
        ⟨r, brackets', interpolating', nameless, eq⟩ | ⟨declared, eq⟩
      · simp only [linePieces, eq] at h ⊢
        rw [ih _ _ _ h, remark, List.map_cons, nameless.piece_reclassify]
      · generalize hword : (c :: cs).takeWhile isWordChar = word at eq
        have hlexeme : String.ofList ((c :: cs).take word.length) = String.ofList word := by
          rw [← hword, take_length_takeWhile]
        have hbehind := (allFit_linePieces line earlier cs (word.length - 1) (c :: passed)
          ⟨(nameKind names declared (String.ofList word)).1, brackets, interpolating⟩).1
        rcases checkFollower_name word.length (c :: cs) with hacc | ⟨cause, hrej⟩
        · simp only [linePieces, eq, hacc _ (isName_nameKind _ _ _), Reading.width] at h ⊢
          rw [nameKind_again (hbehind.trans h) (Span.ofWidth ⟨line, passed.length⟩ word.length)]
          simp only [ih _ _ _ h, remark, List.map_cons, Reading.piece, Piece.reclassify, hlexeme,
            Token.mk_kind_reclassify]
        · simp only [linePieces, eq, hrej _ (isName_nameKind _ _ _), Reading.width] at h ⊢
          rw [nameKind_again (hbehind.trans h) (Span.ofWidth ⟨line, passed.length⟩ word.length)]
          simp only [ih _ _ _ h, remark, List.map_cons]
          rfl

theorem pieces_again (ls : Document) (line : Nat) (earlier : List (List Char)) (st : State)
    (h : (pieces line earlier ls st).2.names ≤ final) :
    pieces line earlier ls { st with names := final } =
      ((pieces line earlier ls st).1.map (Piece.reclassify final),
        { (pieces line earlier ls st).2 with names := final }) := by
  induction ls generalizing line earlier st with
  | nil => rfl
  | cons l ls ih =>
    have hbehind := (allFit_pieces (line + 1) (l.reverse :: earlier) ls
      (linePieces line earlier 0 [] l st).2).1
    simp only [pieces] at h ⊢
    rw [linePieces_again line earlier l 0 [] st (hbehind.trans h), ih _ _ _ h, List.map_append]

end Lexeme

namespace Lexed

theorem ext {x y : Lexed} (htokens : x.tokens = y.tokens)
    (hdiagnostics : x.diagnostics = y.diagnostics) (hnames : x.names = y.names) : x = y := by
  cases x
  cases y
  simp_all

theorem pieces_again (lines : List String) (names : Names) :
    pieces lines (pieces lines names).2.names =
      ((pieces lines names).1.map (Lexeme.Piece.reclassify (pieces lines names).2.names),
        (pieces lines names).2) :=
  Lexeme.pieces_again _ 0 [] (.initial names) le_rfl

/-- A second reading changes nothing: not the tokens, not the mistakes and not the names. -/
theorem ofLines_again (lines : List String) (names : Names) :
    ofLines lines (ofLines lines names).names = ofLines lines names := by
  have hagain := pieces_again lines names
  have hnames : (ofLines lines names).names = (pieces lines names).2.names := rfl
  have htokens : (ofLines lines (ofLines lines names).names).tokens =
      (ofLines lines names).tokens := by
    rw [tokens_ofLines, tokens_ofLines, hnames, hagain]
    simp only [List.filterMap_map, Function.comp_def, Lexeme.Piece.token?_reclassify,
      ← List.map_filterMap, List.map_map, Token.reclassify_reclassify]
  have hdiagnostics : (ofLines lines (ofLines lines names).names).diagnostics =
      (ofLines lines names).diagnostics := by
    rw [diagnostics_ofLines, diagnostics_ofLines, hnames, hagain]
    simp only [List.filterMap_map, Function.comp_def, Lexeme.Piece.diagnostic?_reclassify]
  have hlast : (ofLines lines (ofLines lines names).names).names = (ofLines lines names).names :=
    congrArg (fun x => x.2.names) hagain
  exact ext htokens hdiagnostics hlast

end Lexed

/-- The lines of a text are the text. -/
theorem join_splitLines (source : String) : String.join (splitLines source) = source := by
  rw [← String.toList_inj, String.toList_join, splitLines, List.flatMap_map]
  simp [List.flatMap_def, Document.flatten_split]

/-- Reading again is stable. Lines that are read a second time, with the names known behind the
first reading, give the same tokens, mistakes and names; and the lexemes of a source text without
mistakes, put together and read again with the names known before or behind the first reading, give
the same. -/
theorem Lexed.rereading_stable (names : Names) :
    (∀ lines, ofLines lines (ofLines lines names).names = ofLines lines names) ∧
      ∀ source, (ofLines (splitLines source) names).diagnostics = [] →
        let x := ofLines (splitLines source) names
        let text := String.join (x.tokens.map Token.lexeme)
        ofLines (splitLines text) names = x ∧ ofLines (splitLines text) x.names = x := by
  refine ⟨fun lines => ofLines_again lines names, fun source h => ?_⟩
  have htext : String.join ((ofLines (splitLines source) names).tokens.map Token.lexeme) =
      source := by
    rw [lossless_ofLines h, join_splitLines]
  dsimp only
  rw [htext]
  exact ⟨rfl, ofLines_again _ _⟩

end Uwu
