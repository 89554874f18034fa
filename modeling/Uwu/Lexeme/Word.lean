import Uwu.Lexeme.Match
import Uwu.Token.Kind

/-! Words: keywords of one or two words, and names. -/

namespace Uwu.Lexeme

def isWordStart (c : Char) : Bool :=
  c.isAlpha || c == '_'

def isWordChar (c : Char) : Bool :=
  c.isAlphanum || c == '_'

/-- The keyword of two words at the beginning of a text, with its width, unless the second word
goes on. -/
def doubleKeyword? (text : List Char) : Option (Keyword × Nat) :=
  Keyword.doubles.findSome? fun k =>
    match gapWidth? k.spelling.toList text with
    | none => none
    | some width => if text[width]?.any isWordChar then none else some (k, width)

/-- Does the nearest text before a place end in the class keyword? The text is given backwards,
the line of the place first. A letter or a digit before the keyword makes it part of a word. -/
def afterClassKeyword : (before : List (List Char)) → Bool
  | [] => false
  | line :: earlier =>
    match line.dropWhile Text.isBlank with
    | [] => afterClassKeyword earlier
    | text =>
      let spelling := Keyword.cwass.spelling.toList.reverse
      spelling.isPrefixOf text && !text[spelling.length]?.any Char.isAlphanum

end Uwu.Lexeme
