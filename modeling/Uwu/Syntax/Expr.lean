import Uwu.Source.Position
import Uwu.Syntax.Operator

/-! Expressions. -/

namespace Uwu

/-- A value and its place in the source text. -/
structure Located (α : Type) where
  value : α
  span : Span
  deriving DecidableEq

abbrev Name := Located String

inductive Literal where
  | int (n : Nat)
  /-- A binary64 number, by its bits. -/
  | float (bits : UInt64)
  | str (s : String)
  | bool (b : Bool)
  | nuww
  deriving DecidableEq

mutual

inductive Expr where
  | literal (value : Literal) (span : Span)
  /-- A string with expressions between its texts. -/
  | format (segments : List Segment) (span : Span)
  | input (prompt : Option Expr) (span : Span)
  | array (elements : List Expr) (span : Span)
  | prefixed (op : Located PrefixOp) (operand : Expr) (span : Span)
  | infixed (left : Expr) (op : Located InfixOp) (right : Expr) (span : Span)
  | postfixed (target : Place) (op : Located PostfixOp) (span : Span)
  | place (p : Place)

inductive Segment where
  | text (s : String)
  | expr (e : Expr)

/-- A name with its indices or arguments: one step of an access path. -/
inductive Link where
  | name (n : Name)
  | indexed (n : Name) (indices : List Expr) (span : Span)
  | call (n : Name) (args : List Expr) (span : Span)

/-- An access path: a link or a new object, and members of it from left to right. -/
inductive Place where
  | link (l : Link)
  | construct (cls : Name) (args : List Expr) (span : Span)
  | member (object : Place) (member : Link) (span : Span)

end

namespace Link

def head : Link → Name
  | name n | indexed n _ _ | call n _ _ => n

def span : Link → Span
  | name n => n.span
  | indexed _ _ s | call _ _ s => s

/-- The link is where a value is kept, and not the result of a call. -/
def isAssignable : Link → Bool
  | name _ | indexed _ _ _ => true
  | call _ _ _ => false

end Link

namespace Place

def span : Place → Span
  | link l => l.span
  | construct _ _ s | member _ _ s => s

/-- The name that a path starts from. -/
def root : Place → Name
  | link l => l.head
  | construct c _ _ => c
  | member o _ _ => o.root

/-- The path leads to where a value is kept: it does not end in a call or a new object. -/
def isAssignable : Place → Bool
  | link l | member _ l _ => l.isAssignable
  | construct _ _ _ => false

end Place

namespace Expr

def span : Expr → Span
  | literal _ s | format _ s | input _ s | array _ s | prefixed _ _ s | infixed _ _ _ s
  | postfixed _ _ s => s
  | place p => p.span

end Expr

mutual

/-- How deep array literals are nested directly in one another. -/
def Expr.arrayDepth : Expr → Nat
  | .array es _ => 1 + arrayDepths es
  | _ => 0

def arrayDepths : List Expr → Nat
  | [] => 0
  | e :: es => max e.arrayDepth (arrayDepths es)

end

end Uwu
