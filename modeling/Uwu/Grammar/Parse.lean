import Uwu.Diagnostic.Basic
import Uwu.Grammar.Stream
import Uwu.Syntax.Expr
import Uwu.Token.Described

/-! Parsers: they read tokens, record mistakes that they recover from, and fail with a mistake
that they do not. A parser that fails stays where it failed. -/

namespace Uwu.Grammar

structure State where
  stream : Stream
  recorded : List Diagnostic
  /-- How many loops are around the current statement. -/
  loops : Nat

abbrev Parse := EStateM Diagnostic State

def State.ofTokens (tokens : List Token) : State :=
  ⟨.ofTokens tokens, [], 0⟩

variable {α : Type}

def current : Parse Token := do
  return (← get).stream.current

def currentKind : Parse Kind := do
  return (← get).stream.current.kind

def nextKind : Parse Kind := do
  return (← get).stream.peek.kind

def spanBefore : Parse Span := do
  return (← get).stream.previous

/-- Reads the current token. -/
def advance : Parse Token := do
  let t ← current
  modify fun s => { s with stream := s.stream.advance }
  return t

/-- Moves on without reading. -/
def skip (f : Stream → Stream) : Parse Unit :=
  modify fun s => { s with stream := f s.stream }

def record (d : Diagnostic) : Parse Unit :=
  modify fun s => { s with recorded := s.recorded ++ [d] }

/-- Fails at the current token. -/
def failHere (cause : Cause) : Parse α := do
  throw ⟨cause, (← current).span⟩

/-- Fails at the current token, which is not what should come here. -/
def failExpected (what : String) : Parse α := do
  failHere (.expected what (← current).described)

def failUnexpected (reason : String) : Parse α := do
  failHere (.unexpectedFor (← current).described reason)

/-- Reads a token of a kind, or fails as told. -/
def expectOr (kind : Kind) (otherwise : Parse Token) : Parse Token := do
  if (← currentKind) = kind then advance else otherwise

def expect (kind : Kind) : Parse Token :=
  expectOr kind (failExpected kind.described)

def expectSymbol (s : Symbol) : Parse Span := do
  return (← expect (.symbol s)).span

def isIdentifier : Kind → Bool
  | .identifier _ => true
  | _ => false

def expectName : Parse Name := do
  if isIdentifier (← currentKind) then
    let t ← advance
    return ⟨t.lexeme, t.span⟩
  else failExpected "an identifier"

/-- A name and a dash begin a declaration. -/
def declarationAhead : Parse Bool := do
  return isIdentifier (← currentKind) && (← nextKind) == .symbol .dash

def isLooping : Parse Bool := do
  return 0 < (← get).loops

/-- Counts one loop more while `p` reads. -/
def insideLoop (p : Parse α) : Parse α := fun s =>
  match p { s with loops := s.loops + 1 } with
  | .ok a s => .ok a { s with loops := s.loops - 1 }
  | .error d s => .error d { s with loops := s.loops - 1 }

/-! ### Repetition -/

/-- More than the tokens that are left: enough for a parser that reads a token in every round. -/
def bound : Parse Nat := do
  return (← get).stream.tokens.length + 1

/-- Items for as long as the current token allows, at most so many. -/
def upTo (more : Kind → Bool) (item : Parse α) : Nat → Parse (List α)
  | 0 => return []
  | n + 1 => do
    if more (← currentKind) then
      let x ← item
      return x :: (← upTo more item n)
    else return []

def many (more : Kind → Bool) (item : Parse α) : Parse (List α) := do
  upTo more item (← bound)

/-- Items with commas between them, at most so many; one comma may stand before the end. -/
def listUpTo (close : Symbol) (item : Parse α) : Nat → Parse (List α)
  | 0 => return []
  | n + 1 => do
    if (← currentKind) = .symbol close then return []
    let x ← item
    if (← currentKind) = .symbol .comma then
      let _ ← advance
      return x :: (← listUpTo close item n)
    else return [x]

/-- Items with commas between them, and what closes them, whose span comes along. -/
def listTo (close : Symbol) (item : Parse α) : Parse (List α × Span) := do
  let xs ← listUpTo close item (← bound)
  return (xs, ← expectSymbol close)

/-- Records a failure of `item`, and skips as told. -/
def recovering (item : Parse α) (skip : State → State → State) : Parse (Option α) := fun s =>
  match item s with
  | .ok a s' => .ok (some a) s'
  | .error d s' => .ok none (skip s { s' with recorded := s'.recorded ++ [d] })

end Uwu.Grammar
