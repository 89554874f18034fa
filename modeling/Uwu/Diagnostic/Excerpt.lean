import Uwu.Diagnostic.Basic
import Uwu.Source.Lines
import Uwu.Text.Blank
import Uwu.Text.Layout

/-! A diagnostic as shown to a reader: the mistake, the line it is on, and a caret under the
place. -/

namespace Uwu.Diagnostic

open Text (isGap padStart trimEnd)

def headline (d : Diagnostic) : String :=
  match d.cause.tip? with
  | none => s!"Error: {d.cause.name}\n"
  | some tip => s!"Error: {d.cause.name} ({tip})\n"

/-- The line without its indent and without the white space at its end. -/
def excerptText (line : List Char) : String :=
  String.ofList (trimEnd (line.dropWhile isGap))

/-- How many characters the caret line has from the first displayed one to the caret. -/
def caretWidth (line : List Char) (column : Nat) : Nat :=
  column - (line.takeWhile isGap).length + 1

/-- Headline and place, then the line with a caret and the note, if the text has that line. -/
def excerpt (d : Diagnostic) (file : String) (lines : List String) : String :=
  let p := d.span.start
  let top := s!"{d.headline}-> {file}:{p.shown}\n"
  match lineAt? lines p with
  | none => top
  | some line =>
    let number := toString (p.line + 1)
    let bar := padStart (number.length + 2) ' ' "|"
    let caret := padStart (caretWidth line.toList p.column) '-' "^"
    let body := s!"{top}{bar}\n{number} | {excerptText line.toList}\n{bar} {caret}\n"
    match d.cause.note? with
    | none => body
    | some note =>
      let sign := padStart (number.length + 2) ' ' "="
      s!"{body}{sign} note: {note}\n"

end Uwu.Diagnostic
