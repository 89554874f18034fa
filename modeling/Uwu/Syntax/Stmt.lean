import Uwu.DataType
import Uwu.Syntax.Expr

/-! Statements and blocks. -/

namespace Uwu

structure Declaration where
  name : Name
  type : DataType
  isConst : Bool
  value : Option Expr
  span : Span

structure Assignment where
  target : Place
  op : Located AssignOp
  value : Expr
  span : Span

/-- How a counting loop begins. -/
inductive LoopStart where
  | declare (d : Declaration)
  | assign (a : Assignment)

/-- What a counting loop does between two rounds. -/
inductive LoopUpdate where
  | assign (a : Assignment)
  | postfixed (target : Place) (op : Located PostfixOp) (span : Span)

mutual

inductive Stmt where
  | declare (d : Declaration)
  | assign (a : Assignment)
  | evaluate (e : Expr) (span : Span)
  | print (args : List Expr) (span : Span)
  | branch (condition : Expr) (body : Block) (elseIfs : List ElseIf) (elseBody : Option Block)
      (span : Span)
  /-- With `bodyFirst` the condition is tested after the first round. -/
  | repeatWhile (bodyFirst : Bool) (condition : Expr) (body : Block) (span : Span)
  | count (start : LoopStart) (condition : Expr) (update : LoopUpdate) (body : Block) (span : Span)
  | leave (value : Option Expr) (span : Span)
  | stop (span : Span)

structure Block where
  body : List Stmt
  span : Span

structure ElseIf where
  condition : Expr
  body : Block
  span : Span

end

def LoopStart.span : LoopStart → Span
  | declare d => d.span
  | assign a => a.span

mutual

/-- A block gives back a value somewhere, in nested blocks too. -/
def Block.returns : Block → Bool
  | ⟨body, _⟩ => anyReturns body

def anyReturns : List Stmt → Bool
  | [] => false
  | s :: ss => s.returns || anyReturns ss

def Stmt.returns : Stmt → Bool
  | .leave _ _ => true
  | .branch _ body elseIfs elseBody _ =>
    body.returns || anyElseIfReturns elseIfs ||
      match elseBody with
      | none => false
      | some b => b.returns
  | .repeatWhile _ _ body _ | .count _ _ _ body _ => body.returns
  | _ => false

def anyElseIfReturns : List ElseIf → Bool
  | [] => false
  | ⟨_, body, _⟩ :: es => body.returns || anyElseIfReturns es

end

end Uwu
