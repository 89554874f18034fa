import Uwu.Syntax.Operator

/-! How tightly operators bind. -/

namespace Uwu

inductive Power where
  | lowest | logical | equals | lessGreater | sum | product | prefixed | call
  deriving DecidableEq

namespace Power

def rank : Power → Nat
  | lowest => 0 | logical => 1 | equals => 2 | lessGreater => 3 | sum => 4 | product => 5
  | prefixed => 6 | call => 7

def all : List Power :=
  [lowest, logical, equals, lessGreater, sum, product, prefixed, call]

def name : Power → String
  | lowest => "Lowest" | logical => "Logical" | equals => "Equals"
  | lessGreater => "LessGreater" | sum => "Sum" | product => "Product" | prefixed => "Prefix"
  | call => "FnCall"

/-- `p` binds more tightly than `q`. -/
def exceeds (p q : Power) : Bool :=
  q.rank < p.rank

end Power

def InfixOp.power : InfixOp → Power
  | and | or => .logical
  | equal | notEqual => .equals
  | less | lessEqual | greater | greaterEqual => .lessGreater
  | add | subtract | join => .sum
  | multiply | divide | remainder => .product

/-- The power of a token after an operand; the lowest for one that is no such operator. -/
def Kind.power (k : Kind) : Power :=
  match InfixOp.ofKind? k with
  | some op => op.power
  | none => if (PostfixOp.ofKind? k).isSome then .call else .lowest

/-- An operator may stand after an operand. -/
def Kind.continuesExpr (k : Kind) : Bool :=
  (InfixOp.ofKind? k).isSome || (PostfixOp.ofKind? k).isSome

end Uwu
