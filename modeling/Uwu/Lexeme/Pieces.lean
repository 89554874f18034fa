import Uwu.Lexeme.Read
import Uwu.Source.Lines
import Uwu.Token.Basic

/-! A document cut into tokens and rejected text. Every character of the document lies in exactly
one of the two. -/

namespace Uwu

namespace Lexeme

inductive Piece where
  | token (t : Token)
  /-- Text that is no token. -/
  | rejected (d : Diagnostic)
  /-- A string left open at a place. Covers no text. -/
  | remark (d : Diagnostic)

def Piece.token? : Piece → Option Token
  | token t => some t
  | _ => none

def Piece.diagnostic? : Piece → Option Diagnostic
  | rejected d | remark d => some d
  | token _ => none

/-- The piece that a reading makes of the text at `p`. -/
def Reading.piece (p : Position) (text : List Char) : Reading → Piece
  | accepted kind width =>
    .token ⟨kind, String.ofList (text.take width), Span.ofWidth p width⟩
  | rejected cause width => .rejected ⟨cause, Span.ofWidth p width⟩

/-- An interpolation is still open at `p`. -/
def openString (p : Position) : Piece :=
  .remark ⟨.unterminatedString "|", Span.point p⟩

/-- The pieces of one line. The first `skip` characters belong to the piece before; `passed` is the
line up to here, backwards, and `earlier` the lines before it, backwards. -/
def linePieces (line : Nat) (earlier : List (List Char)) :
    (skip : Nat) → (passed text : List Char) → State → List Piece × State
  | _, _, [], st => ([], st)
  | skip + 1, passed, c :: cs, st => linePieces line earlier skip (c :: passed) cs st
  | 0, passed, c :: cs, st =>
    let p : Position := ⟨line, passed.length⟩
    let (reading, st') := read (passed :: earlier) c cs st
    let (rest, last) := linePieces line earlier (reading.width - 1) (c :: passed) cs st'
    let here := reading.piece p (c :: cs) :: rest
    (if c = '\n' ∧ st.interpolating then openString p :: here else here, last)

def pieces : (line : Nat) → (earlier : List (List Char)) → Document → State → List Piece × State
  | _, _, [], st => ([], st)
  | line, earlier, l :: ls, st =>
    let (here, st) := linePieces line earlier 0 [] l st
    let (rest, st) := pieces (line + 1) (l.reverse :: earlier) ls st
    (here ++ rest, st)

end Lexeme

/-- What a document is read into. -/
structure Lexed where
  tokens : List Token
  diagnostics : List Diagnostic
  names : Names

/-- A class may be used above its declaration, so a name that is a class by the end of the document
is one everywhere. -/
def Token.reclassify (names : Names) (t : Token) : Token :=
  match t.kind with
  | .identifier _ =>
    match names.classes.id? t.lexeme with
    | some id => { t with kind := .classId id }
    | none => t
  | _ => t

/-- The tokens of a document, with an end token behind them, and the text that is no token. -/
def Lexed.ofLines (lines : List String) (names : Names) : Lexed :=
  let document := Document.ofStrings lines
  let stop := document.endPosition
  let (pieces, st) := Lexeme.pieces 0 [] document (.initial names)
  let pieces := if st.interpolating then pieces ++ [Lexeme.openString stop] else pieces
  { tokens := (pieces.filterMap Lexeme.Piece.token?).map (Token.reclassify st.names) ++
      [⟨.endOfFile, "", Span.point stop⟩]
    diagnostics := pieces.filterMap Lexeme.Piece.diagnostic?
    names := st.names }

end Uwu
