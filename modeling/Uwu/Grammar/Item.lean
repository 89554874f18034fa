import Uwu.Grammar.Stmt
import Uwu.Syntax.Program

/-! The items of a program: globals, functions, classes and the entry. A broken item is recorded
and skipped. -/

namespace Uwu.Grammar

variable (names : Names)

def param : Parse Param := do
  let name ← expectName
  let _ ← expectSymbol .dash
  let type ← dataType names
  return ⟨name, type, name.span.through (← spanBefore)⟩

def params : Parse (List Param) := do
  let _ ← expectSymbol .openParen
  let (ps, _) ← listTo .closeParen (param names)
  return ps

def expectKeyword (k : Keyword) : Parse Span := do
  return (← expect (.keyword k)).span

/-- The name of a function, or the keyword in its place. -/
def functionName : Parse Name := do
  if (← currentKind) = .keyword .mainuwu then
    let t ← advance
    return ⟨t.lexeme, t.span⟩
  else expectName

def function : Parse Function := do
  let start ← expectKeyword .fwunc
  let name ← functionName
  let _ ← expectSymbol .dash
  let returnType ← dataType names
  let ps ← params names
  let body ← codeBlock names
  return ⟨name, returnType, ps, body, start.through body.span⟩

def global : Parse Declaration := do
  let start ← expectKeyword .gwobaw
  let d ← declaration names
  return { d with span := start.through d.span }

/-! ### Classes -/

inductive Member where
  | property (d : Declaration)
  | method (f : Function)

def Member.property? : Member → Option Declaration
  | property d => some d
  | method _ => none

def Member.method? : Member → Option Function
  | method f => some f
  | property _ => none

def classMember : Parse Member := do
  if (← currentKind) = .keyword .fwunc then return .method (← function names)
  else if ← declarationAhead then return .property (← declaration names)
  else failUnexpected "expected a property declaration or a `fwunc` method"

def className : Parse (Name × DataType) := do
  let t ← current
  match t.kind with
  | .classId _ => return (⟨t.lexeme, t.span⟩, ← unitType names)
  | _ => failExpected "a class name"

def classItem : Parse Class := do
  let start ← expectKeyword .cwass
  let (name, type) ← className names
  let ps ← params names
  let _ ← expectSymbol .doubleOpenBracket
  let members ← many insideBlock (recovering (classMember names) skipStatement)
  let stop ← expectSymbol .doubleCloseBracket
  let members := members.filterMap id
  return ⟨name, type, ps, members.filterMap Member.property?, members.filterMap Member.method?,
    start.through stop⟩

/-! ### Programs -/

inductive Item where
  | global (d : Declaration)
  | function (f : Function)
  | cls (c : Class)
  | entry (f : Function)

namespace Item

def global? : Item → Option Declaration
  | global d => some d
  | _ => none

def function? : Item → Option Function
  | function f => some f
  | _ => none

def class? : Item → Option Class
  | cls c => some c
  | _ => none

def entry? : Item → Option Function
  | entry f => some f
  | _ => none

end Item

def item : Parse Item := do
  match ← currentKind with
  | .keyword .gwobaw => return .global (← global names)
  | .keyword .cwass => return .cls (← classItem names)
  | .keyword .fwunc =>
    let isEntry := (← nextKind) == .keyword .mainuwu
    let f ← function names
    return if isEntry then .entry f else .function f
  | _ =>
    let reason := "expected `gwobaw`, `fwunc` or `cwass`"
    failHere (.unexpectedFor (← current).lexeme reason)

/-- Goes to the next item. A token is skipped where neither the broken item nor the way to the
next one took any. -/
def skipItem (before s : State) : State :=
  let next := s.stream.skipItem
  if next.tokens.length = before.stream.tokens.length then { s with stream := next.advance }
  else { s with stream := next }

/-- The items up to the end, at most so many. From the second one on an entry is a mistake. -/
def itemsUpTo : Nat → (hasEntry : Bool) → Parse (List Item)
  | 0, _ => return []
  | n + 1, hasEntry => do
    if (← currentKind) = .endOfFile then return []
    match ← recovering (item names) skipItem with
    | none => itemsUpTo n hasEntry
    | some (.entry f) =>
      if hasEntry then record ⟨.secondEntry, f.name.span⟩
      return .entry f :: (← itemsUpTo n true)
    | some i => return i :: (← itemsUpTo n hasEntry)

def items : Parse (List Item) := do
  let is ← itemsUpTo names (← bound) false
  if (is.filterMap Item.entry?).isEmpty then record ⟨.noEntry, (← current).span⟩
  return is

end Uwu.Grammar

namespace Uwu

/-- The program that tokens write, or every mistake in them. -/
def Program.ofTokens (tokens : List Token) (names : Names) : Except (List Diagnostic) Program :=
  match Grammar.items names (.ofTokens tokens) with
  | .error d s => .error (s.recorded ++ [d])
  | .ok items s =>
    match s.recorded, items.filterMap Grammar.Item.entry? with
    | [], entry :: _ =>
      .ok {
        globals := items.filterMap Grammar.Item.global?
        functions := items.filterMap Grammar.Item.function?
        classes := items.filterMap Grammar.Item.class?
        entry := entry }
    | mistakes, _ => .error mistakes

end Uwu
