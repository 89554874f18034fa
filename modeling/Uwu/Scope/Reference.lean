import Uwu.Role
import Uwu.Syntax.Stmt

/-! The names that expressions and types refer to, in source order. The name of a member is none of
them: what it refers to depends on a type. -/

namespace Uwu

/-- A name in use, and the role it is used in. -/
structure Reference where
  name : Name
  role : Role
  deriving DecidableEq

mutual

def Expr.references : Expr → List Reference
  | .literal _ _ => []
  | .format segments _ => segmentReferences segments
  | .input none _ => []
  | .input (some prompt) _ => prompt.references
  | .array elements _ => exprReferences elements
  | .prefixed _ operand _ => operand.references
  | .infixed left _ right _ => left.references ++ right.references
  | .postfixed target _ _ => target.references
  | .place p => p.references

def exprReferences : List Expr → List Reference
  | [] => []
  | e :: es => e.references ++ exprReferences es

def segmentReferences : List Segment → List Reference
  | [] => []
  | .text _ :: ss => segmentReferences ss
  | .expr e :: ss => e.references ++ segmentReferences ss

/-- Of a link that begins a path. -/
def Link.references : Link → List Reference
  | .name n => [⟨n, .globalVariable⟩]
  | .indexed n indices _ => ⟨n, .globalVariable⟩ :: exprReferences indices
  | .call n args _ => ⟨n, .function⟩ :: exprReferences args

/-- Of a link that is a member: those of its indices or arguments. -/
def Link.memberReferences : Link → List Reference
  | .name _ => []
  | .indexed _ es _ | .call _ es _ => exprReferences es

def Place.references : Place → List Reference
  | .link l => l.references
  | .construct cls args _ => ⟨cls, .classType⟩ :: exprReferences args
  | .member object l _ => object.references ++ l.memberReferences

end

/-- The class that a type at `site` refers to. -/
def DataType.references (site : Span) (t : DataType) : List Reference :=
  match t.base with
  | .cls _ name => [⟨⟨name, site⟩, .classType⟩]
  | _ => []

def Declaration.valueReferences (d : Declaration) : List Reference :=
  (d.value.map Expr.references).getD []

def Assignment.references (a : Assignment) : List Reference :=
  a.target.references ++ a.value.references

def LoopUpdate.references : LoopUpdate → List Reference
  | assign a => a.references
  | postfixed target _ _ => target.references

end Uwu
