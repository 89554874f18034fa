import Uwu.Diagnostic.Basic
import Uwu.Lexeme.Segment
import Uwu.Lexeme.Word
import Uwu.Names
import Uwu.Token.Follower

/-! Reading one lexeme: its kind and width, or what is wrong with it. -/

namespace Uwu.Lexeme

open Text (isInlineBlank)

/-- What the reading of a lexeme knows of those before it. -/
structure State where
  names : Names
  /-- Open index brackets; while there are any, two closing brackets are two lexemes. -/
  openBrackets : Nat
  /-- Between the bars of an interpolated string. -/
  interpolating : Bool

def State.initial (names : Names) : State :=
  ⟨names, 0, false⟩

/-- The verdict on the text at a place. Either way its width is passed over. -/
inductive Reading where
  | accepted (kind : Kind) (width : Nat)
  | rejected (cause : Cause) (width : Nat)

def Reading.width : Reading → Nat
  | accepted _ w | rejected _ w => w

/-- Accepts a lexeme of a kind if the character after it, on its line, may follow one. -/
def checkFollower (kind : Kind) (width : Nat) (text : List Char) : Reading :=
  match text[width]?, kind.followers? with
  | some c, some allowed =>
    if allowed.contains c then .accepted kind width
    else
      let lexeme := String.ofList (text.take width)
      .rejected (.badFollower lexeme (Follower.shown allowed) c.toString) width
  | _, _ => .accepted kind width

/-- The characters up to the newline. -/
def restWidth (text : List Char) : Nat :=
  (text.takeWhile (· != '\n')).length

/-! ### Numbers -/

/-- Digits, with a fraction if digits follow the point. -/
def numeral (text : List Char) : Kind × Nat :=
  let whole := (text.takeWhile Char.isDigit).length
  match text.drop whole with
  | '.' :: rest =>
    let fraction := (rest.takeWhile Char.isDigit).length
    if fraction = 0 then (.intLiteral, whole) else (.floatLiteral, whole + 1 + fraction)
  | _ => (.intLiteral, whole)

def readNumber (text : List Char) : Reading :=
  let (kind, width) := numeral text
  checkFollower kind width text

/-! ### Words -/

/-- A word after the class keyword names a class from then on; other words are names of classes
known by now, or else identifiers. -/
def nameKind (names : Names) (declared : Bool) (word : String) : Names × Kind :=
  if declared then
    let (names, id) := names.withClass word
    (names, .classId id)
  else
    match names.classes.id? word with
    | some id => (names, .classId id)
    | none =>
      let (names, id) := names.withIdentifier word
      (names, .identifier id)

/-- A name has to be followed by something on its line. -/
def readName (before : List (List Char)) (word text : List Char) (st : State) : Reading × State :=
  let name := String.ofList word
  if text.length ≤ word.length then (.rejected (.unterminatedName name) word.length, st)
  else
    let (names, kind) := nameKind st.names (afterClassKeyword before) name
    (checkFollower kind word.length text, { st with names })

def readWord (before : List (List Char)) (text : List Char) (st : State) : Reading × State :=
  let word := text.takeWhile isWordChar
  match doubleKeyword? text with
  | some (k, width) => (checkFollower (.keyword k) width text, st)
  | none =>
    match Keyword.ofWord? (String.ofList word) with
    | some k => (checkFollower (.keyword k) word.length text, st)
    | none => readName before word text st

/-! ### Strings -/

def readUnterminated (text : List Char) (st : State) : Reading × State :=
  let width := restWidth text
  (.rejected (.unterminatedString (String.ofList (text.take width))) width,
    { st with interpolating := false })

/-- From the opening quote on. -/
def readString (text : List Char) (st : State) : Reading × State :=
  match segmentEnd? 0 text.tail with
  | some (n, '"') => (checkFollower .stringLiteral (n + 2) text, st)
  | some (n, _) =>
    (checkFollower .stringPartStart (n + 2) text, { st with interpolating := true })
  | none => readUnterminated text st

/-- From the bar that closes an interpolation on. -/
def readStringPart (text : List Char) (st : State) : Reading × State :=
  match segmentEnd? 0 text.tail with
  | some (n, '"') =>
    (checkFollower .stringPartEnd (n + 2) text, { st with interpolating := false })
  | some (n, _) => (checkFollower .stringPartMid (n + 2) text, st)
  | none => readUnterminated text st

/-! ### Symbols and comments -/

def commentSign : List Char :=
  ['>', '.', '<']

/-- The symbol at the beginning of a text. Inside an index two closing brackets are not one. -/
def symbolAt? (openBrackets : Nat) (text : List Char) : Option Symbol :=
  Symbol.all.find? fun s =>
    s.spelling.toList.isPrefixOf text && !(s == .doubleCloseBracket && 0 < openBrackets)

def bracketsAfter (openBrackets : Nat) : Symbol → Nat
  | .openBracket => openBrackets + 1
  | .closeBracket => openBrackets - 1
  | _ => openBrackets

def readSymbol (text : List Char) (st : State) : Reading × State :=
  if commentSign.isPrefixOf text then (checkFollower .comment (restWidth text) text, st)
  else
    match symbolAt? st.openBrackets text with
    | some s =>
      (checkFollower (.symbol s) s.spelling.length text,
        { st with openBrackets := bracketsAfter st.openBrackets s })
    | none => (.rejected (.unknownCharacter (String.ofList (text.take 1))) 1, st)

/-! ### The first character decides -/

/-- Reads the lexeme at the beginning of `c :: cs`; `before` is the text before it, backwards, the
line of the lexeme first. -/
def read (before : List (List Char)) (c : Char) (cs : List Char) (st : State) : Reading × State :=
  let text := c :: cs
  if c = '\n' then (checkFollower .newline 1 text, { st with interpolating := false })
  else if isInlineBlank c then
    (checkFollower .whitespace (text.takeWhile isInlineBlank).length text, st)
  else if c = '"' then readString text st
  else if c = '|' ∧ st.interpolating then readStringPart text st
  else if c.isDigit then (readNumber text, st)
  else if isWordStart c then readWord before text st
  else readSymbol text st

end Uwu.Lexeme
