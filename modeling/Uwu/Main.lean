import Uwu.CommandLine
import Uwu.Compile
import Uwu.Diagnostic.Excerpt

/-! The command line: runs the stages on a file, prints what they found, and stops at the first
stage with a mistake. -/

namespace Uwu.CommandLine

/-- Prints the mistakes; the exit code says that there are some. -/
def report (ds : List Diagnostic) (file : String) (lines : List String) : IO UInt32 := do
  for d in ds do
    IO.eprintln (d.excerpt file lines)
  IO.eprintln s!"{ds.length} error(s) found"
  return 1

/-- Prints how long a stage took. -/
def timed (what : String) (start : Nat) : IO Unit := do
  let now ← IO.monoNanosNow
  IO.println s!"{what} {elapsed (now - start)}"

def runStages (o : Options) (file source : String) : IO UInt32 := do
  let lines := splitLines source
  let start ← IO.monoNanosNow
  let lexed := Lexed.ofLines lines .empty
  if o.tokens then IO.println (Token.listAll lexed.tokens)
  if !lexed.diagnostics.isEmpty then return ← report lexed.diagnostics file lines
  timed "Tokenized in" start
  if o.verbose then
    let identifiers := lexed.names.identifiers.size
    let classes := lexed.names.classes.size
    IO.println s!"{lexed.tokens.length} tokens, {identifiers} identifiers, {classes} classes"
  if o.stage = .lex then return 0
  let parseStart ← IO.monoNanosNow
  match Program.ofTokens lexed.tokens lexed.names with
  | .error mistakes => report mistakes file lines
  | .ok p =>
    timed "Parsed in" parseStart
    if o.verbose then
      let globals := p.globals.length
      let functions := p.functions.length
      IO.println s!"{globals} globals, {functions} functions, {p.classes.length} classes"
    if o.stage = .parse then return 0
    let namesStart ← IO.monoNanosNow
    let mistakes := p.checkNames
    if !mistakes.isEmpty then return ← report mistakes file lines
    timed "Analyzed in" namesStart
    if o.stage = .analyze then return 0
    let typesStart ← IO.monoNanosNow
    let found := p.checkTypes
    if !found.mistakes.isEmpty then return ← report found.mistakes file lines
    timed "Type checked in" typesStart
    if o.verbose then IO.println s!"{found.annotations.length} values annotated"
    timed "Total time:" start
    return 0

/-- Runs the command with its arguments. -/
def run (args : List String) : IO UInt32 := do
  match Options.read args .initial with
  | .error message =>
    IO.eprintln s!"error: {message}\n{usage}"
    return 2
  | .ok o =>
    match o.file with
    | none =>
      IO.eprintln usage
      return 2
    | some path =>
      let source ← (IO.FS.readFile path).toBaseIO
      match source with
      | .error e =>
        IO.eprintln s!"Error reading '{path}': {e}"
        return 1
      | .ok source => runStages o (fileName path) source

end Uwu.CommandLine

def main (args : List String) : IO UInt32 :=
  Uwu.CommandLine.run args
