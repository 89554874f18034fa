/-! The blanks of a source text, all of them ASCII. -/

namespace Uwu.Text

/-- Space and tab. -/
def isGap (c : Char) : Bool :=
  c == ' ' || c == '\t'

/-- The blanks that stay on their line. -/
def isInlineBlank (c : Char) : Bool :=
  isGap c || c == '\r'

def isBlank (c : Char) : Bool :=
  isInlineBlank c || c == '\n'

end Uwu.Text
