import Uwu.Grammar.Expr
import Uwu.Grammar.Type
import Uwu.Syntax.Stmt

/-! Statements and blocks. A broken statement in a block is recorded and skipped. -/

namespace Uwu.Grammar

variable (names : Names)

/-! ### Declarations and assignments -/

/-- The mark of a constant, if it comes next. -/
def constMark : Parse Bool := do
  if (← currentKind) = .symbol .dash ∧ (← nextKind) = .keyword .dono then
    let _ ← advance
    let _ ← advance
    return true
  else return false

def declaration : Parse Declaration := do
  let name ← expectName
  let _ ← expectSymbol .dash
  let type ← dataType names
  let isConst ← constMark
  let value ←
    if (← currentKind) = .symbol .assign then
      let _ ← advance
      some <$> expression .lowest
    else pure none
  let stop ← expectSymbol .terminator
  if isConst && value.isNone then record ⟨.constantWithoutValue name.value, name.span⟩
  return ⟨name, type, isConst, value, name.span.through stop⟩

/-- The operator and the value of an assignment, without the terminator. -/
def assignmentTo (target : Place) (op : AssignOp) : Parse Assignment := do
  if target.isAssignable then
    let t ← advance
    let value ← expression .lowest
    return ⟨target, ⟨op, t.span⟩, value, target.span.through value.span⟩
  else
    let reason := "the left side of an assignment must be a variable"
    throw ⟨.unexpectedFor (← current).described reason, target.span⟩

/-- A statement that begins with an access path. -/
def placeStmt : Parse Stmt := do
  let target ← place expression
  let kind ← currentKind
  match AssignOp.ofKind? kind, PostfixOp.ofKind? kind with
  | some op, _ =>
    let a ← assignmentTo target op
    let stop ← expectSymbol .terminator
    return .assign { a with span := a.span.through stop }
  | none, some op =>
    let t ← advance
    let span := target.span.through t.span
    let stop ← expectSymbol .terminator
    return .evaluate (.postfixed target ⟨op, t.span⟩ span) (span.through stop)
  | none, none =>
    if target.isAssignable then failUnexpected "expected an assignment, a call, `++` or `--`"
    else
      let stop ← expectSymbol .terminator
      return .evaluate (.place target) (target.span.through stop)

/-! ### Simple statements -/

def printStmt : Parse Stmt := do
  let t ← advance
  let (es, _) ← args expression
  let stop ← expectSymbol .terminator
  return .print es (t.span.through stop)

def leaveStmt : Parse Stmt := do
  let t ← advance
  let value ←
    if (← currentKind) = .symbol .terminator then pure none
    else some <$> expression .lowest
  let stop ← expectSymbol .terminator
  return .leave value (t.span.through stop)

def stopStmt : Parse Stmt := do
  let t ← advance
  let stop ← expectSymbol .terminator
  if !(← isLooping) then record ⟨.breakOutsideLoop, t.span⟩
  return .stop (t.span.through stop)

/-! ### Statements with blocks -/

def condition : Parse Expr := do
  let _ ← expectSymbol .openParen
  let e ← expression .lowest
  let _ ← expectSymbol .closeParen
  return e

variable (block : Parse Block)

def elseIf : Parse ElseIf := do
  let t ← advance
  let e ← condition
  let body ← block
  return ⟨e, body, t.span.through body.span⟩

def elseBlock : Parse (Option Block) := do
  if (← currentKind) = .keyword .ewse then
    let _ ← advance
    some <$> block
  else return none

def branchStmt : Parse Stmt := do
  let t ← advance
  let e ← condition
  let body ← block
  let elseIfs ← many (· == .keyword .ewseIwf) (elseIf block)
  let elseBody ← elseBlock block
  let stop := (elseBody.map Block.span).getD ((elseIfs.getLast?.map ElseIf.span).getD body.span)
  return .branch e body elseIfs elseBody (t.span.through stop)

def repeatStmt : Parse Stmt := do
  let t ← advance
  let e ← condition
  let body ← insideLoop block
  return .repeatWhile (t.kind == .keyword .doWhiwe) e body (t.span.through body.span)

def loopStart : Parse LoopStart := do
  if ← declarationAhead then return .declare (← declaration names)
  let target ← place expression
  match AssignOp.ofKind? (← currentKind) with
  | some op =>
    let a ← assignmentTo target op
    let _ ← expectSymbol .terminator
    return .assign a
  | none => failExpected "a declaration or assignment"

def loopUpdate : Parse LoopUpdate := do
  let target ← place expression
  let kind ← currentKind
  match AssignOp.ofKind? kind, PostfixOp.ofKind? kind with
  | some op, _ => return .assign (← assignmentTo target op)
  | none, some op =>
    let t ← advance
    return .postfixed target ⟨op, t.span⟩ (target.span.through t.span)
  | none, none => failExpected "an assignment, `++` or `--`"

def countStmt : Parse Stmt := do
  let t ← advance
  let _ ← expectSymbol .openParen
  let start ← loopStart names
  let e ← expression .lowest
  let _ ← expectSymbol .terminator
  let update ← loopUpdate
  let _ ← expectSymbol .closeParen
  let body ← insideLoop block
  return .count start e update body (t.span.through body.span)

/-! ### Statements and blocks -/

/-- The parser of the statements that begin with a keyword. -/
def keywordStmt? : Keyword → Option (Parse Stmt)
  | .iwf => some (branchStmt block)
  | .whiwe | .doWhiwe => some (repeatStmt block)
  | .fow => some (countStmt names block)
  | .wetuwn => some leaveStmt
  | .bweak => some stopStmt
  | .pwint => some printStmt
  | _ => none

def failNoStmt : Parse Stmt := do
  failHere (.unexpected (← current).described)

def stmt : Parse Stmt := do
  match ← currentKind with
  | .keyword k => (keywordStmt? names block k).getD failNoStmt
  | .identifier _ =>
    if ← declarationAhead then return .declare (← declaration names)
    else placeStmt
  | .classId _ => placeStmt
  | _ => failNoStmt

/-- A token before the end of a block. -/
def insideBlock (k : Kind) : Bool :=
  k != .endOfFile && k != .symbol .doubleCloseBracket

def skipStatement (_ s : State) : State :=
  { s with stream := s.stream.skipStatement }

def blockOf (stmt : Parse Stmt) : Parse Block := do
  let start ← expectSymbol .doubleOpenBracket
  let body ← many insideBlock (recovering stmt skipStatement)
  let stop ← expectSymbol .doubleCloseBracket
  return ⟨body.filterMap id, start.through stop⟩

/-- A statement nested less than so deep. -/
def stmtWithin : Nat → Parse Stmt
  | 0 => failNoStmt
  | n + 1 => stmt names (blockOf (stmtWithin n))

def statement : Parse Stmt := do
  stmtWithin names (← bound)

def codeBlock : Parse Block :=
  blockOf (statement names)

end Uwu.Grammar
