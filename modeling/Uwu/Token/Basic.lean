import Uwu.Source.Position
import Uwu.Text.Layout
import Uwu.Token.Kind

/-! Tokens and their list for a reader. -/

namespace Uwu

/-- A lexeme with its kind and its place; the lexeme is the text that the span covers. -/
structure Token where
  kind : Kind
  lexeme : String
  span : Span
  deriving DecidableEq

namespace Token

/-- Two tokens are written alike. -/
def sameText (t u : Token) : Bool :=
  t.lexeme == u.lexeme

/-- The kind, with the lexeme where the kind leaves it open. -/
def summary (t : Token) : String :=
  match t.kind with
  | .identifier _ | .classId _ | .intLiteral | .floatLiteral | .stringLiteral =>
    s!"{t.kind.name} ({t.lexeme})"
  | _ => s!"{t.kind.name} ()"

/-- One line of a token list: the place in two columns, and the token. -/
def listing (t : Token) : String :=
  let p := t.span.start
  Text.padStart 4 ' ' (toString (p.line + 1)) ++ ":" ++ Text.padEnd 4 (toString (p.column + 1)) ++
    " " ++ t.summary

/-- A line for every token that is neither trivia nor the end. -/
def listAll (tokens : List Token) : String :=
  "\n".intercalate
    ((tokens.filter fun t => !t.kind.isTrivia && t.kind != .endOfFile).map listing)

end Token

end Uwu
