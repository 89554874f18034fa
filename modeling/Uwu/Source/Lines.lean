import Uwu.Source.Position

/-! A source text as lines. A line keeps the newline that ends it, so the lines
of a text, put together again, are the text. -/

namespace Uwu

/-- The characters of a text, line by line. -/
abbrev Document := List (List Char)

namespace Document

/-- Splits after every newline; nothing follows a final one. -/
def split : List Char → Document
  | [] => []
  | c :: cs =>
    if c = '\n' then [c] :: split cs
    else
      match split cs with
      | [] => [[c]]
      | l :: ls => (c :: l) :: ls

theorem flatten_split (cs : List Char) : (split cs).flatten = cs := by
  induction cs with
  | nil => rfl
  | cons c cs ih =>
    rw [split]
    split
    · simp [ih]
    · split
      next h =>
        rw [h] at ih
        rw [← ih]
        rfl
      next h =>
        rw [h] at ih
        rw [← ih]
        rfl

def ofStrings (lines : List String) : Document :=
  lines.map String.toList

/-- The place after the last character. -/
def endPosition : Document → Position
  | [] => ⟨0, 0⟩
  | [l] => ⟨0, l.length⟩
  | _ :: ls => ⟨ls.length, (ls.getLastD []).length⟩

end Document

/-- The lines of a text, each with its newline. -/
def splitLines (source : String) : List String :=
  (Document.split source.toList).map String.ofList

/-- The line that holds a place, if the text has that line. -/
def lineAt? (lines : List String) (p : Position) : Option String :=
  lines[p.line]?

end Uwu
