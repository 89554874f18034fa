import Uwu.Grammar.Item
import Uwu.Lexeme.Pieces
import Uwu.Scope.Program
import Uwu.Typing.Program

/-! All checks of a source text, one stage after the other. -/

namespace Uwu

/-- What the stages make of a source text. -/
structure Compiled where
  /-- The program, or the mistakes of the first stage that found any. -/
  outcome : Except (List Diagnostic) Program
  /-- The names known after reading the text. -/
  names : Names

/-- The mistakes in the names of a program, or else those in its types. -/
def Program.mistakes (p : Program) : List Diagnostic :=
  match p.checkNames with
  | [] => p.checkTypes.mistakes
  | mistakes => mistakes

/-- The program that a source text writes, if no stage finds a mistake in it. -/
def compile (source : String) (names : Names) : Compiled :=
  let lexed := Lexed.ofLines (splitLines source) names
  let outcome := do
    if !lexed.diagnostics.isEmpty then throw lexed.diagnostics
    let p ← Program.ofTokens lexed.tokens lexed.names
    if !p.mistakes.isEmpty then throw p.mistakes
    return p
  ⟨outcome, lexed.names⟩

end Uwu
