import Uwu.Diagnostic.Basic
import Uwu.Scope.Basic
import Uwu.Scope.Reference
import Uwu.Syntax.Program

/-! Name resolution in bodies: every name in use has to be visible, and no name may be declared
where it is. Inside a class the global table, as `outer`, gives functions and classes only. -/

namespace Uwu

namespace Scope

/-- The mistake in using a name that is not visible. -/
def unresolved? (outer : Option Scope) (s : Scope) (r : Reference) : Option Diagnostic :=
  let isGlobal := (r.role == .function || r.role == .classType) &&
    outer.any fun globals => globals.has r.name.value r.role
  if s.contains r.name.value || isGlobal then none
  else some ⟨.undefined r.name.value r.role, r.name.span⟩

def unresolved (outer : Option Scope) (s : Scope) (rs : List Reference) : List Diagnostic :=
  rs.filterMap (s.unresolved? outer)

/-- The mistake in declaring a name that is visible. -/
def duplicate (s : Scope) (e : Entry) : List Diagnostic :=
  match s.get? e.name.value with
  | none => []
  | some first => [⟨.duplicate e.name.value first.site first.role e.role, e.name.span⟩]

/-- The mistakes in declaring names one after the other. -/
def duplicates (s : Scope) : List Entry → List Diagnostic
  | [] => []
  | e :: es => s.duplicate e ++ (s.declare e).duplicates es

end Scope

/-! ### What is declared -/

def Declaration.entry (d : Declaration) (role : Role) : Entry :=
  ⟨d.name, d.type, role⟩

def Param.entry (p : Param) : Entry :=
  ⟨p.name, p.type, .localVariable⟩

def Stmt.entries : Stmt → List Entry
  | declare d => [d.entry .localVariable]
  | _ => []

def LoopStart.entries : LoopStart → List Entry
  | declare d => [d.entry .localVariable]
  | assign _ => []

/-! ### Bodies -/

variable (outer : Option Scope)

/-- The value does not see the name that it is given to. -/
def Declaration.resolve (d : Declaration) (s : Scope) : List Diagnostic :=
  s.unresolved outer (d.valueReferences ++ d.type.references d.name.span) ++
    s.duplicate (d.entry .localVariable)

def LoopStart.resolve (start : LoopStart) (s : Scope) : List Diagnostic :=
  match start with
  | declare d => d.resolve outer s
  | assign a => s.unresolved outer a.references

mutual

/-- The mistakes of a statement in a scope. -/
def Stmt.resolve : Stmt → Scope → List Diagnostic
  | .declare d, s => d.resolve outer s
  | .assign a, s => s.unresolved outer a.references
  | .evaluate e _, s => s.unresolved outer e.references
  | .print args _, s => s.unresolved outer (exprReferences args)
  | .branch condition body elseIfs elseBody _, s =>
    s.unresolved outer condition.references ++ body.resolve s ++ resolveElseIfs elseIfs s ++
      match elseBody with
      | none => []
      | some b => b.resolve s
  | .repeatWhile _ condition body _, s =>
    s.unresolved outer condition.references ++ body.resolve s
  | .count start condition update body _, s =>
    let inner := s.declareAll start.entries
    start.resolve outer s ++ inner.unresolved outer (condition.references ++ update.references) ++
      body.resolve inner
  | .leave none _, _ => []
  | .leave (some value) _, s => s.unresolved outer value.references
  | .stop _, _ => []

/-- What a block declares ends with it. -/
def Block.resolve : Block → Scope → List Diagnostic
  | ⟨body, _⟩, s => resolveStmts body s

def resolveStmts : List Stmt → Scope → List Diagnostic
  | [], _ => []
  | st :: sts, s => st.resolve s ++ resolveStmts sts (s.declareAll st.entries)

def resolveElseIfs : List ElseIf → Scope → List Diagnostic
  | [], _ => []
  | ⟨condition, body, _⟩ :: es, s =>
    s.unresolved outer condition.references ++ body.resolve s ++ resolveElseIfs es s

end

/-- A parameter is declared before the type of the next one is looked at. -/
def resolveParams : List Param → Scope → List Diagnostic
  | [], _ => []
  | p :: ps, s =>
    s.unresolved outer (p.type.references p.span) ++ s.duplicate p.entry ++
      resolveParams ps (s.declare p.entry)

def Function.resolve (f : Function) (s : Scope) : List Diagnostic :=
  s.unresolved outer (f.returnType.references f.name.span) ++ resolveParams outer f.params s ++
    f.body.resolve outer (s.declareAll (f.params.map Param.entry))

end Uwu
