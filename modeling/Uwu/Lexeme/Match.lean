import Uwu.Text.Blank

/-! Comparing the beginning of a text with a spelling. -/

namespace Uwu.Lexeme

open Text (isGap)

/-- The number of characters at the beginning of `text` that spell `spelling`. -/
def exactWidth? (spelling text : List Char) : Option Nat :=
  if spelling.isPrefixOf text then some spelling.length else none

/-- As `exactWidth?`, but a space in the spelling stands for one or more blanks. -/
def gapWidth? : (spelling text : List Char) → Option Nat
  | [], _ => some 0
  | s :: ss, text =>
    if s = ' ' then
      let gap := text.takeWhile isGap
      if gap.isEmpty then none else (gapWidth? ss (text.dropWhile isGap)).map (gap.length + ·)
    else
      match text with
      | [] => none
      | c :: cs => if s = c then (gapWidth? ss cs).map (1 + ·) else none

end Uwu.Lexeme
