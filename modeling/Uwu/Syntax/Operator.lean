import Uwu.Token.Kind

/-! Operators, each with the token kind that writes it. -/

namespace Uwu

inductive PrefixOp where
  | negate | not
  deriving DecidableEq

inductive InfixOp where
  | and | or
  | equal | notEqual
  | less | lessEqual | greater | greaterEqual
  | add | subtract | join
  | multiply | divide | remainder
  deriving DecidableEq

inductive PostfixOp where
  | increment | decrement
  deriving DecidableEq

/-- Plain assignment, or an update by an operator. -/
inductive AssignOp where
  | set | add | subtract | multiply | divide | remainder
  deriving DecidableEq

namespace PrefixOp

def all : List PrefixOp := [negate, not]

def kind : PrefixOp → Kind
  | negate => .symbol .dash
  | not => .symbol .not

def ofKind? (k : Kind) : Option PrefixOp :=
  all.find? fun op => op.kind == k

def spelling (op : PrefixOp) : String :=
  op.kind.spelling

end PrefixOp

namespace InfixOp

def all : List InfixOp :=
  [and, or, equal, notEqual, less, lessEqual, greater, greaterEqual, add, subtract, join, multiply,
    divide, remainder]

def kind : InfixOp → Kind
  | and => .keyword .and | or => .keyword .or
  | equal => .symbol .equals | notEqual => .symbol .notEquals
  | less => .symbol .less | lessEqual => .symbol .lessEquals
  | greater => .symbol .greater | greaterEqual => .symbol .greaterEquals
  | add => .symbol .plus | subtract => .symbol .dash | join => .symbol .ampersand
  | multiply => .symbol .star | divide => .symbol .slash | remainder => .symbol .percent

def ofKind? (k : Kind) : Option InfixOp :=
  all.find? fun op => op.kind == k

def spelling (op : InfixOp) : String :=
  op.kind.spelling

end InfixOp

namespace PostfixOp

def all : List PostfixOp := [increment, decrement]

def kind : PostfixOp → Kind
  | increment => .symbol .increment
  | decrement => .symbol .decrement

def ofKind? (k : Kind) : Option PostfixOp :=
  all.find? fun op => op.kind == k

def spelling (op : PostfixOp) : String :=
  op.kind.spelling

end PostfixOp

namespace AssignOp

def all : List AssignOp := [set, add, subtract, multiply, divide, remainder]

def kind : AssignOp → Kind
  | set => .symbol .assign
  | add => .symbol .plusAssign
  | subtract => .symbol .dashAssign
  | multiply => .symbol .starAssign
  | divide => .symbol .slashAssign
  | remainder => .symbol .percentAssign

def ofKind? (k : Kind) : Option AssignOp :=
  all.find? fun op => op.kind == k

/-- The operator that an update applies. -/
def infix? : AssignOp → Option InfixOp
  | set => none
  | add => some .add
  | subtract => some .subtract
  | multiply => some .multiply
  | divide => some .divide
  | remainder => some .remainder

end AssignOp

end Uwu
