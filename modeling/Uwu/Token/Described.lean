import Uwu.Token.Basic

/-! How messages speak of tokens. -/

namespace Uwu

/-- A kind in words, or as it is written. -/
def Kind.described : Kind → String
  | .symbol s => s!"`{s.spelling}`"
  | .keyword k => s!"`{k.spelling}`"
  | .comment => "`>.<`"
  | .endOfFile => "end of file"
  | .identifier _ => "an identifier"
  | .classId _ => "a class name"
  | k => k.name

def Token.described (t : Token) : String :=
  if t.kind = .endOfFile then "end of file" else t.lexeme

end Uwu
