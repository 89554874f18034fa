/-! The kinds of tokens: reserved words, symbols, names, literals and the parts of interpolated
strings. -/

namespace Uwu

/-- Words that are never names. -/
inductive Keyword where
  | chan | kun | senpai | sama | san | dono
  | fwunc | mainuwu | cwass | gwobaw
  | iwf | ewse | ewseIwf | whiwe | doWhiwe | fow
  | wetuwn | bweak | pwint | inpwt
  | fax | cap | nuww
  | and | or
  deriving DecidableEq

namespace Keyword

/-- The keywords made of one word. -/
def singles : List Keyword :=
  [chan, kun, senpai, sama, san, dono, fwunc, mainuwu, cwass, gwobaw, iwf, ewse, whiwe, fow,
    wetuwn, bweak, pwint, inpwt, fax, cap, nuww, and, or]

/-- The keywords made of two words. -/
def doubles : List Keyword :=
  [ewseIwf, doWhiwe]

/-- How a keyword is written; a space stands for any run of blanks. -/
def spelling : Keyword → String
  | chan => "chan" | kun => "kun" | senpai => "senpai" | sama => "sama" | san => "san"
  | dono => "dono" | fwunc => "fwunc" | mainuwu => "mainuwu" | cwass => "cwass"
  | gwobaw => "gwobaw" | iwf => "iwf" | ewse => "ewse" | ewseIwf => "ewse iwf"
  | whiwe => "whiwe" | doWhiwe => "do whiwe" | fow => "fow" | wetuwn => "wetuwn"
  | bweak => "bweak" | pwint => "pwint" | inpwt => "inpwt" | fax => "fax" | cap => "cap"
  | nuww => "nuww" | and => "and" | or => "or"

def name : Keyword → String
  | chan => "Chan" | kun => "Kun" | senpai => "Senpai" | sama => "Sama" | san => "San"
  | dono => "Dono" | fwunc => "Fwunc" | mainuwu => "Mainuwu" | cwass => "Cwass"
  | gwobaw => "Gwobaw" | iwf => "Iwf" | ewse => "Ewse" | ewseIwf => "EwseIwf"
  | whiwe => "Whiwe" | doWhiwe => "DoWhiwe" | fow => "Fow" | wetuwn => "Wetuwn"
  | bweak => "Bweak" | pwint => "Pwint" | inpwt => "Inpwt" | fax => "Fax" | cap => "Cap"
  | nuww => "Nuww" | and => "And" | or => "Or"

/-- The keyword that is written as this one word. -/
def ofWord? (word : String) : Option Keyword :=
  singles.find? fun k => k.spelling == word

/-- The keywords that name a type on their own. -/
def isType : Keyword → Bool
  | chan | kun | senpai | sama | san => true
  | _ => false

end Keyword

inductive Symbol where
  | plus | dash | star | slash | percent | ampersand
  | assign | plusAssign | dashAssign | starAssign | slashAssign | percentAssign
  | equals | notEquals | less | lessEquals | greater | greaterEquals | not
  | increment | decrement
  | openParen | closeParen | openBracket | closeBracket | openBrace | closeBrace
  | doubleOpenBracket | doubleCloseBracket
  | dot | comma | terminator
  deriving DecidableEq

namespace Symbol

/-- All symbols in the order in which they are tried: a symbol stands before those that begin it. -/
def all : List Symbol :=
  [doubleOpenBracket, doubleCloseBracket, equals, notEquals, lessEquals, greaterEquals, increment,
    decrement, plusAssign, dashAssign, starAssign, slashAssign, percentAssign, plus, dash, star,
    slash, percent, ampersand, assign, not, less, greater, openParen, closeParen, openBracket,
    closeBracket, openBrace, closeBrace, dot, comma, terminator]

def spelling : Symbol → String
  | plus => "+" | dash => "-" | star => "*" | slash => "/" | percent => "%" | ampersand => "&"
  | assign => "=" | plusAssign => "+=" | dashAssign => "-=" | starAssign => "*="
  | slashAssign => "/=" | percentAssign => "%=" | equals => "==" | notEquals => "!="
  | less => "<" | lessEquals => "<=" | greater => ">" | greaterEquals => ">=" | not => "!"
  | increment => "++" | decrement => "--" | openParen => "(" | closeParen => ")"
  | openBracket => "[" | closeBracket => "]" | openBrace => "\x7b" | closeBrace => "\x7d"
  | doubleOpenBracket => "[[" | doubleCloseBracket => "]]" | dot => "." | comma => ","
  | terminator => "~"

def name : Symbol → String
  | plus => "Plus" | dash => "Dash" | star => "Star" | slash => "Slash" | percent => "Percent"
  | ampersand => "Ampersand" | assign => "Assign" | plusAssign => "PlusAssign"
  | dashAssign => "DashAssign" | starAssign => "StarAssign" | slashAssign => "SlashAssign"
  | percentAssign => "PercentAssign" | equals => "Equals" | notEquals => "NotEquals"
  | less => "Less" | lessEquals => "LessEquals" | greater => "Greater"
  | greaterEquals => "GreaterEquals" | not => "Not" | increment => "Increment"
  | decrement => "Decrement" | openParen => "OpenParen" | closeParen => "CloseParen"
  | openBracket => "OpenBracket" | closeBracket => "CloseBracket" | openBrace => "OpenBrace"
  | closeBrace => "CloseBrace" | doubleOpenBracket => "DoubleOpenBracket"
  | doubleCloseBracket => "DoubleCloseBracket" | dot => "Dot" | comma => "Comma"
  | terminator => "Terminator"

end Symbol

/-- What a token is. A name carries its number in the table of its kind. -/
inductive Kind where
  | endOfFile | whitespace | newline | comment
  | intLiteral | floatLiteral | stringLiteral
  | stringPartStart | stringPartMid | stringPartEnd
  | identifier (id : Nat)
  | classId (id : Nat)
  | keyword (k : Keyword)
  | symbol (s : Symbol)
  deriving DecidableEq

namespace Kind

/-- The name of a kind, without the number that a name carries. -/
def name : Kind → String
  | endOfFile => "EOF" | whitespace => "Whitespace" | newline => "Newline"
  | comment => "Comment" | intLiteral => "IntLiteral" | floatLiteral => "FloatLiteral"
  | stringLiteral => "StringLiteral" | stringPartStart => "StringPartStart"
  | stringPartMid => "StringPartMid" | stringPartEnd => "StringPartEnd"
  | identifier _ => "Identifier" | classId _ => "ClassId"
  | keyword k => k.name
  | symbol s => s.name

/-- How tokens of a kind are written; empty where the kind leaves it open. -/
def spelling : Kind → String
  | keyword k => k.spelling
  | symbol s => s.spelling
  | _ => ""

/-- Kinds that carry no meaning for the grammar. -/
def isTrivia : Kind → Bool
  | whitespace | newline | comment => true
  | _ => false

/-- Kinds that name a type. -/
def isType : Kind → Bool
  | keyword k => k.isType
  | classId _ => true
  | _ => false

/-- Kinds that carry the number of a name. -/
def isName : Kind → Bool
  | identifier _ | classId _ => true
  | _ => false

end Kind

end Uwu
