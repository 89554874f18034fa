import Uwu.Sorting
import Uwu.Token.Kind

/-! Which characters may come directly after a lexeme. -/

namespace Uwu

namespace Follower

def blanks : List Char :=
  [' ', '\t', '\r', '\n']

def wordChars : List Char :=
  "abcdefghijklmnopqrstuvwxyzABCDEFGHIJKLMNOPQRSTUVWXYZ0123456789_".toList

def afterValue : List Char :=
  blanks ++ "~,)]\x7d|+-*/%=!<>&".toList

def afterClose : List Char :=
  afterValue ++ "([.".toList

def afterOperator : List Char :=
  blanks ++ "(\"\x7b-!".toList ++ wordChars

def ofKeyword : Keyword → List Char
  | .chan | .kun | .senpai | .sama | .san => blanks ++ "[(=~,)-".toList
  | .dono => blanks ++ "=~,)".toList
  | .fwunc | .cwass | .gwobaw => blanks
  | .mainuwu => "-".toList
  | .iwf | .ewseIwf | .whiwe | .doWhiwe | .fow | .pwint | .inpwt => blanks ++ "(".toList
  | .ewse => blanks ++ "[".toList
  | .wetuwn => blanks ++ "~(\"\x7b-!".toList
  | .bweak => blanks ++ "~".toList
  | .and | .or => blanks ++ "(!".toList
  | .fax | .cap | .nuww => afterValue

def ofSymbol? : Symbol → Option (List Char)
  | .plus | .dash | .star | .slash | .percent | .ampersand | .assign | .plusAssign | .dashAssign
  | .starAssign | .slashAssign | .percentAssign | .equals | .notEquals | .less | .lessEquals
  | .greater | .greaterEquals | .comma => some afterOperator
  | .not => some (blanks ++ "(!".toList ++ wordChars)
  | .increment | .decrement => some (blanks ++ "~),]".toList)
  | .closeParen | .closeBracket => some afterClose
  | .closeBrace => some afterValue
  | .doubleCloseBracket => some blanks
  | .dot => some wordChars
  | .openParen | .openBracket | .openBrace | .doubleOpenBracket | .terminator => none

/-- How a character is named in a message. -/
def shownChar : Char → String
  | ' ' => "space"
  | '\t' => "tab"
  | '\n' => "newline"
  | '\r' => "return"
  | c => c.toString

/-- The characters by name, in the order of their code points. -/
def shown (cs : List Char) : List String :=
  (sortBy (fun a b => a ≤ b) cs).map shownChar

end Follower

/-- The characters that may come directly after a lexeme of a kind. The end of a line always may,
and so may anything where there is no list. -/
def Kind.followers? : Kind → Option (List Char)
  | .keyword k => some (Follower.ofKeyword k)
  | .symbol s => Follower.ofSymbol? s
  | .intLiteral | .floatLiteral | .stringLiteral | .stringPartEnd => some Follower.afterValue
  | .identifier _ | .classId _ => some Follower.afterClose
  | .endOfFile | .whitespace | .newline | .comment | .stringPartStart | .stringPartMid => none

end Uwu
