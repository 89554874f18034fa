import Uwu.Scope.Program
import Uwu.Typing.Program

/-! Bodies as points. A point is a part of a body without blocks in it, with the declarations that
stand before it in the same or an enclosing block. Name resolution and the check of types both go
through the points of a body in their order, each with its own table of these declarations. -/

namespace Uwu

open Typing

/-- A part of a body without blocks in it. -/
inductive Clause where
  | declare (d : Declaration)
  | assign (a : Assignment)
  | evaluate (e : Expr)
  | print (args : List Expr)
  | start (s : LoopStart)
  | update (u : LoopUpdate)
  | leave (value : Option Expr) (span : Span)
  | stop
  /-- Behind the last statement of a block. -/
  | blockEnd

structure Point where
  /-- The declarations before the point in the same or an enclosing block, in their order. -/
  before : List Declaration
  clause : Clause

/-! ### The points of a body -/

def Stmt.declarations : Stmt → List Declaration
  | declare d => [d]
  | _ => []

/-- In a counting loop its variable is no constant. -/
def LoopStart.declarations : LoopStart → List Declaration
  | declare d => [loopVariable d]
  | assign _ => []

namespace Point

def here (c : Clause) : Point :=
  ⟨[], c⟩

/-- The point with more declarations before it. -/
def behind (ds : List Declaration) (pt : Point) : Point :=
  { pt with before := ds ++ pt.before }

end Point

mutual

def Stmt.points : Stmt → List Point
  | .declare d => [.here (.declare d)]
  | .assign a => [.here (.assign a)]
  | .evaluate e _ => [.here (.evaluate e)]
  | .print args _ => [.here (.print args)]
  | .branch condition body elseIfs elseBody _ =>
    .here (.evaluate condition) :: (body.points ++ elseIfPoints elseIfs ++
      match elseBody with
      | none => []
      | some b => b.points)
  | .repeatWhile _ condition body _ => .here (.evaluate condition) :: body.points
  | .count start condition update body _ =>
    .here (.start start) ::
      (.here (.evaluate condition) :: .here (.update update) :: body.points).map
        (Point.behind start.declarations)
  | .leave value span => [.here (.leave value span)]
  | .stop _ => [.here .stop]

def Block.points : Block → List Point
  | ⟨body, _⟩ => stmtsPoints body

def stmtsPoints : List Stmt → List Point
  | [] => [.here .blockEnd]
  | st :: sts => st.points ++ (stmtsPoints sts).map (Point.behind st.declarations)

def elseIfPoints : List ElseIf → List Point
  | [] => []
  | ⟨condition, body, _⟩ :: es =>
    .here (.evaluate condition) :: (body.points ++ elseIfPoints es)

end

/-! ### Tables at a point -/

namespace Point

/-- The names that are visible at a point of a body that begins with `s`. -/
def scope (s : Scope) (pt : Point) : Scope :=
  s.declareAll (pt.before.map (·.entry .localVariable))

/-- The variables at a point of a body that begins with `vars`. -/
def vars (vars : Variables) (pt : Point) : Variables :=
  pt.before.foldl Variables.declare vars

@[simp]
theorem scope_here (s : Scope) (c : Clause) : (here c).scope s = s := rfl

@[simp]
theorem vars_here (vars : Variables) (c : Clause) : (here c).vars vars = vars := rfl

@[simp]
theorem clause_here (c : Clause) : (here c).clause = c := rfl

@[simp]
theorem clause_behind (ds : List Declaration) (pt : Point) :
    (pt.behind ds).clause = pt.clause := rfl

@[simp]
theorem scope_behind (s : Scope) (ds : List Declaration) (pt : Point) :
    (pt.behind ds).scope s = pt.scope (s.declareAll (ds.map (·.entry .localVariable))) := by
  simp [scope, behind, Scope.declareAll]

@[simp]
theorem vars_behind (vars : Variables) (ds : List Declaration) (pt : Point) :
    (pt.behind ds).vars vars = pt.vars (ds.foldl Variables.declare vars) := by
  simp [Point.vars, behind]

end Point

theorem Stmt.entries_eq (st : Stmt) :
    st.entries = st.declarations.map (·.entry .localVariable) := by
  cases st <;> rfl

theorem LoopStart.entries_eq (start : LoopStart) :
    start.entries = start.declarations.map (·.entry .localVariable) := by
  cases start <;> rfl

theorem Typing.Variables.after_eq (vars : Variables) (st : Stmt) :
    vars.after st = st.declarations.foldl declare vars := by
  cases st <;> rfl

theorem Typing.Variables.inLoop_eq (vars : Variables) (start : LoopStart) :
    vars.inLoop start = start.declarations.foldl declare vars := by
  cases start <;> rfl

/-! ### Name resolution -/

section Resolve

variable (outer : Option Scope)

/-- The mistakes in the names of a clause. -/
def Clause.resolve : Clause → Scope → List Diagnostic
  | declare d, s => d.resolve outer s
  | assign a, s => s.unresolved outer a.references
  | evaluate e, s => s.unresolved outer e.references
  | print args, s => s.unresolved outer (exprReferences args)
  | start st, s => st.resolve outer s
  | update u, s => s.unresolved outer u.references
  | leave value _, s => s.unresolved outer ((value.map Expr.references).getD [])
  | stop, _ | blockEnd, _ => []

theorem Scope.unresolved_append (s : Scope) (rs qs : List Reference) :
    s.unresolved outer (rs ++ qs) = s.unresolved outer rs ++ s.unresolved outer qs :=
  List.filterMap_append

def Point.resolve (s : Scope) (pt : Point) : List Diagnostic :=
  pt.clause.resolve outer (pt.scope s)

@[simp]
theorem Point.resolve_here (s : Scope) (c : Clause) :
    (Point.here c).resolve outer s = c.resolve outer s := rfl

@[simp]
theorem Point.resolve_behind (s : Scope) (ds : List Declaration) (pt : Point) :
    (pt.behind ds).resolve outer s =
      pt.resolve outer (s.declareAll (ds.map (·.entry .localVariable))) := by
  simp [Point.resolve]

mutual

/-- The mistakes of a statement are those at its points. -/
theorem Stmt.resolve_eq : ∀ (st : Stmt) (s : Scope),
    st.resolve outer s = st.points.flatMap (Point.resolve outer s)
  | .declare d, s => by simp [Stmt.resolve, Stmt.points, Clause.resolve]
  | .assign a, s => by simp [Stmt.resolve, Stmt.points, Clause.resolve]
  | .evaluate e _, s => by simp [Stmt.resolve, Stmt.points, Clause.resolve]
  | .print args _, s => by simp [Stmt.resolve, Stmt.points, Clause.resolve]
  | .branch condition body elseIfs none _, s => by
    simp [Stmt.resolve, Stmt.points, Clause.resolve, Block.resolve_eq body s,
      resolveElseIfs_eq elseIfs s]
  | .branch condition body elseIfs (some b) _, s => by
    simp [Stmt.resolve, Stmt.points, Clause.resolve, Block.resolve_eq body s,
      resolveElseIfs_eq elseIfs s, Block.resolve_eq b s]
  | .repeatWhile _ condition body _, s => by
    simp [Stmt.resolve, Stmt.points, Clause.resolve, Block.resolve_eq body s]
  | .count start condition update body _, s => by
    simp [Stmt.resolve, Stmt.points, Clause.resolve, LoopStart.entries_eq,
      Scope.unresolved_append, List.flatMap_map, Block.resolve_eq body]
  | .leave none _, s => by
    simp [Stmt.resolve, Stmt.points, Clause.resolve, Scope.unresolved]
  | .leave (some value) _, s => by simp [Stmt.resolve, Stmt.points, Clause.resolve]
  | .stop _, s => by simp [Stmt.resolve, Stmt.points, Clause.resolve]

theorem Block.resolve_eq : ∀ (b : Block) (s : Scope),
    b.resolve outer s = b.points.flatMap (Point.resolve outer s)
  | ⟨body, _⟩, s => by
    rw [Block.resolve, Block.points]
    exact resolveStmts_eq body s

theorem resolveStmts_eq : ∀ (sts : List Stmt) (s : Scope),
    resolveStmts outer sts s = (stmtsPoints sts).flatMap (Point.resolve outer s)
  | [], s => by simp [resolveStmts, stmtsPoints, Clause.resolve]
  | st :: sts, s => by
    simp [resolveStmts, stmtsPoints, List.flatMap_map, Stmt.entries_eq, Stmt.resolve_eq st s,
      resolveStmts_eq sts]

theorem resolveElseIfs_eq : ∀ (es : List ElseIf) (s : Scope),
    resolveElseIfs outer es s = (elseIfPoints es).flatMap (Point.resolve outer s)
  | [], s => by simp [resolveElseIfs, elseIfPoints]
  | ⟨condition, body, _⟩ :: es, s => by
    simp [resolveElseIfs, elseIfPoints, Clause.resolve, Block.resolve_eq body s,
      resolveElseIfs_eq es s]

end

end Resolve

/-! ### The check of types -/

section Check

variable (setting : Setting) (result : Result)

def Clause.check : Clause → Variables → Check Unit
  | declare d, vars => checkDeclaration setting d vars
  | assign a, vars => checkAssignment setting a vars
  | evaluate e, vars => checkExpr setting vars e
  | print args, vars => do
    let _ ← infer setting vars fun env => typesOf env args
  | start st, vars => checkLoopStart setting st vars
  | update u, vars => checkLoopUpdate setting u vars
  | leave value span, vars => checkLeave setting result vars span value
  | stop, _ | blockEnd, _ => return

def Point.check (vars : Variables) (pt : Point) : Check Unit :=
  pt.clause.check setting result (pt.vars vars)

@[simp]
theorem Point.check_here (vars : Variables) (c : Clause) :
    (Point.here c).check setting result vars = c.check setting result vars := rfl

@[simp]
theorem Point.check_behind (vars : Variables) (ds : List Declaration) (pt : Point) :
    (pt.behind ds).check setting result vars =
      pt.check setting result (ds.foldl Variables.declare vars) := by
  simp [Point.check]

mutual

/-- A statement is checked point by point. -/
theorem checkStmt_eq : ∀ (st : Stmt) (vars : Variables),
    checkStmt setting result st vars = st.points.forM (Point.check setting result vars)
  | .declare d, vars => by simp [checkStmt, Stmt.points, Clause.check]
  | .assign a, vars => by simp [checkStmt, Stmt.points, Clause.check]
  | .evaluate e _, vars => by simp [checkStmt, Stmt.points, Clause.check]
  | .print args _, vars => by simp [checkStmt, Stmt.points, Clause.check]
  | .branch condition body elseIfs none _, vars => by
    simp [checkStmt, Stmt.points, Clause.check, checkBlock_eq body vars,
      checkElseIfs_eq elseIfs vars]
  | .branch condition body elseIfs (some b) _, vars => by
    simp [checkStmt, Stmt.points, Clause.check, checkBlock_eq body vars,
      checkElseIfs_eq elseIfs vars, checkBlock_eq b vars]
  | .repeatWhile _ condition body _, vars => by
    simp [checkStmt, Stmt.points, Clause.check, checkBlock_eq body vars]
  | .count start condition update body _, vars => by
    simp [checkStmt, Stmt.points, Clause.check, Variables.inLoop_eq,
      checkBlock_eq body]
  | .leave value _, vars => by simp [checkStmt, Stmt.points, Clause.check]
  | .stop _, vars => by simp [checkStmt, Stmt.points, Clause.check]

theorem checkBlock_eq : ∀ (b : Block) (vars : Variables),
    checkBlock setting result b vars = b.points.forM (Point.check setting result vars)
  | ⟨body, _⟩, vars => by
    rw [checkBlock, Block.points]
    exact checkStmts_eq body vars

theorem checkStmts_eq : ∀ (sts : List Stmt) (vars : Variables),
    checkStmts setting result sts vars = (stmtsPoints sts).forM (Point.check setting result vars)
  | [], vars => by simp [checkStmts, stmtsPoints, Clause.check]
  | st :: sts, vars => by
    simp [checkStmts, stmtsPoints, Variables.after_eq,
      checkStmt_eq st vars, checkStmts_eq sts]

theorem checkElseIfs_eq : ∀ (es : List ElseIf) (vars : Variables),
    checkElseIfs setting result es vars =
      (elseIfPoints es).forM (Point.check setting result vars)
  | [], vars => by simp [checkElseIfs, elseIfPoints]
  | ⟨condition, body, _⟩ :: es, vars => by
    simp [checkElseIfs, elseIfPoints, Clause.check, checkBlock_eq body vars,
      checkElseIfs_eq es vars]

end

end Check

end Uwu
