import Uwu.Grammar.Parse
import Uwu.Grammar.Power
import Uwu.Lexeme.Segment

/-! Expressions. Every parser here takes the parser of the expressions inside it; the last section
ties the knot, as deep as there are tokens left. -/

namespace Uwu.Grammar

/-! ### Literals -/

/-- The number that decimal digits write. -/
def decimal? (digits : List Char) : Option Nat :=
  if digits.isEmpty || !digits.all Char.isDigit then none
  else some (digits.foldl (fun n d => 10 * n + (d.toNat - '0'.toNat)) 0)

/-- The largest integer of 64 bits with a sign. -/
def maxInt : Nat := 9223372036854775807

def intLiteral? (digits : List Char) : Option Literal :=
  match decimal? digits with
  | some n => if n ≤ maxInt then some (.int n) else none
  | none => none

/-- The binary64 number nearest to a decimal fraction. -/
def floatLiteral? (text : List Char) : Option Literal :=
  let whole := text.takeWhile (· != '.')
  let fraction := (text.dropWhile (· != '.')).drop 1
  (decimal? (whole ++ fraction)).map fun n =>
    .float (Float.ofScientific n true fraction.length).toBits

/-- A text without the delimiters at its ends. -/
def undelimited (first last : Char) (text : List Char) : List Char :=
  let text := if text.head? = some first then text.tail else text
  if text.getLast? = some last then text.dropLast else text

def stringLiteral (text : List Char) : Literal :=
  .str (String.ofList (Lexeme.unescape (undelimited '"' '"' text)))

/-- The literal that a token is; none if it is no literal or too large a number. -/
def literalOf? (t : Token) : Option Literal :=
  match t.kind with
  | .intLiteral => intLiteral? t.lexeme.toList
  | .floatLiteral => floatLiteral? t.lexeme.toList
  | .stringLiteral => some (stringLiteral t.lexeme.toList)
  | .keyword .fax => some (.bool true)
  | .keyword .cap => some (.bool false)
  | .keyword .nuww => some .nuww
  | _ => none

def literal : Parse Expr := do
  let t ← advance
  match literalOf? t with
  | some value => return .literal value t.span
  | none => throw ⟨.badNumber t.lexeme, t.span⟩

variable (expr : Power → Parse Expr)

/-! ### Interpolated strings -/

/-- The text of a string part, if there is any between its delimiters. -/
def textSegment (first last : Char) (t : Token) : List Segment :=
  match undelimited first last t.lexeme.toList with
  | [] => []
  | text => [.text (String.ofList (Lexeme.unescape text))]

def failUnclosed {α : Type} : Parse α :=
  failExpected "`|` to close the interpolated expression"

/-- Expressions and the texts behind them up to the last part, whose span comes along. -/
def segments : Nat → Parse (List Segment × Span)
  | 0 => failUnclosed
  | n + 1 => do
    let e ← expr .lowest
    match ← currentKind with
    | .stringPartMid =>
      let t ← advance
      let (rest, stop) ← segments n
      return (.expr e :: (textSegment '|' '|' t ++ rest), stop)
    | .stringPartEnd =>
      let t ← advance
      return (.expr e :: textSegment '|' '"' t, t.span)
    | _ => failUnclosed

def format : Parse Expr := do
  let t ← advance
  let (rest, stop) ← segments expr (← bound)
  return .format (textSegment '"' '|' t ++ rest) (t.span.through stop)

/-! ### Brackets -/

def input : Parse Expr := do
  let t ← advance
  let _ ← expectSymbol .openParen
  let prompt ←
    if (← currentKind) = .symbol .closeParen then pure none
    else some <$> expr .lowest
  let stop ← expectSymbol .closeParen
  return .input prompt (t.span.through stop)

def array : Parse Expr := do
  let t ← advance
  let (elements, stop) ← listTo .closeBrace (expr .lowest)
  return .array elements (t.span.through stop)

/-- Parentheses leave nothing behind but what they hold. -/
def grouping : Parse Expr := do
  let _ ← advance
  let e ← expr .lowest
  let _ ← expectSymbol .closeParen
  return e

/-- Arguments and the span of the closing parenthesis. -/
def args : Parse (List Expr × Span) := do
  let _ ← expectSymbol .openParen
  listTo .closeParen (expr .lowest)

/-! ### Access paths -/

def index : Parse (Expr × Span) := do
  let _ ← advance
  let e ← expr .lowest
  return (e, ← expectSymbol .closeBracket)

def link : Parse Link := do
  let name ← expectName
  match ← currentKind with
  | .symbol .openParen =>
    let (es, stop) ← args expr
    return .call name es (name.span.through stop)
  | .symbol .openBracket =>
    let indices ← many (· == .symbol .openBracket) (index expr)
    let stop := (indices.getLast?.map Prod.snd).getD name.span
    return .indexed name (indices.map Prod.fst) (name.span.through stop)
  | _ => return .name name

def construction : Parse Place := do
  let t ← advance
  if (← currentKind) = .symbol .openParen then
    let (es, stop) ← args expr
    return .construct ⟨t.lexeme, t.span⟩ es (t.span.through stop)
  else failExpected s!"`(` to construct `{t.lexeme}`"

def member : Parse Link := do
  let _ ← advance
  link expr

/-- The member `l` of what `p` leads to. -/
def addMember (p : Place) (l : Link) : Place :=
  .member p l (p.span.through l.span)

def place : Parse Place := do
  let first ←
    match ← currentKind with
    | .classId _ => construction expr
    | _ => Place.link <$> link expr
  let members ← many (· == .symbol .dot) (member expr)
  return members.foldl addMember first

/-! ### Operators -/

def prefixed (op : PrefixOp) : Parse Expr := do
  let t ← advance
  let operand ← expr .prefixed
  return .prefixed ⟨op, t.span⟩ operand (t.span.through operand.span)

/-- The parser of the expressions that begin with a token of a kind. -/
def operand? (k : Kind) : Option (Parse Expr) :=
  match k with
  | .intLiteral | .floatLiteral | .stringLiteral => some literal
  | .keyword .fax | .keyword .cap | .keyword .nuww => some literal
  | .keyword .inpwt => some (input expr)
  | .stringPartStart => some (format expr)
  | .symbol .openBrace => some (array expr)
  | .symbol .openParen => some (grouping expr)
  | .identifier _ | .classId _ => some (Expr.place <$> place expr)
  | _ => (PrefixOp.ofKind? k).map (prefixed expr)

def operand : Parse Expr := do
  match operand? expr (← currentKind) with
  | some p => p
  | none => failUnexpected "expected an expression"

/-- Goes on after `left` with the operators that bind more tightly than `power`, at most so many.
The operand to the right of an operator takes what binds more tightly than it. -/
def operators (power : Power) : Nat → Expr → Parse Expr
  | 0, left => return left
  | n + 1, left => do
    let t ← current
    if !t.kind.power.exceeds power then return left
    match InfixOp.ofKind? t.kind, PostfixOp.ofKind? t.kind with
    | some op, _ =>
      let _ ← advance
      let right ← expr op.power
      operators power n (.infixed left ⟨op, t.span⟩ right (left.span.through right.span))
    | none, some op =>
      let _ ← advance
      match left with
      | .place p => operators power n (.postfixed p ⟨op, t.span⟩ (p.span.through t.span))
      | _ =>
        throw ⟨.unexpectedFor t.lexeme "only variables can be incremented or decremented", t.span⟩
    | none, none => failHere (.unexpected t.described)

/-! ### The knot -/

/-- An expression nested less than so deep. -/
def exprWithin : Nat → Power → Parse Expr
  | 0, _ => failUnexpected "expected an expression"
  | n + 1, power => do
    let left ← operand (exprWithin n)
    operators (exprWithin n) power (← bound) left

/-- An expression up to the first operator that does not bind more tightly than `power`. -/
def expression (power : Power) : Parse Expr := do
  exprWithin (← bound) power

end Uwu.Grammar
