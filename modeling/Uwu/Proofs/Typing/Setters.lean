import Uwu.Proofs.Typing.Visits

/-! Setters: the declarations and assignments of a program, wherever they stand. The check of types
meets each of them once, in this order. -/

namespace Uwu

/-- A declaration or an assignment. -/
inductive Setter where
  | declare (d : Declaration)
  | assign (a : Assignment)

namespace Setter

def value? : Setter → Option Expr
  | declare d => d.value
  | assign a => some a.value

/-- The site of the variable that is declared. -/
def site? : Setter → Option Span
  | declare d => some d.name.span
  | assign _ => none

end Setter

/-! ### The setters of a program -/

def LoopStart.setter : LoopStart → Setter
  | declare d => .declare d
  | assign a => .assign a

def LoopUpdate.setter? : LoopUpdate → Option Setter
  | assign a => some (.assign a)
  | postfixed _ _ _ => none

mutual

def Stmt.setters : Stmt → List Setter
  | .declare d => [.declare d]
  | .assign a => [.assign a]
  | .branch _ body elseIfs elseBody _ =>
    body.setters ++ elseIfSetters elseIfs ++
      match elseBody with
      | none => []
      | some b => b.setters
  | .repeatWhile _ _ body _ => body.setters
  | .count start _ update body _ => start.setter :: (update.setter?.toList ++ body.setters)
  | .evaluate _ _ | .print _ _ | .leave _ _ | .stop _ => []

def Block.setters : Block → List Setter
  | ⟨body, _⟩ => stmtsSetters body

def stmtsSetters : List Stmt → List Setter
  | [] => []
  | st :: sts => st.setters ++ stmtsSetters sts

def elseIfSetters : List ElseIf → List Setter
  | [] => []
  | ⟨_, body, _⟩ :: es => body.setters ++ elseIfSetters es

end

def Class.setters (c : Class) : List Setter :=
  c.properties.map .declare ++ c.methods.flatMap fun f => f.body.setters

namespace Program

variable (p : Program)

/-- Globals, functions and the entry, and classes. -/
def setters : List Setter :=
  p.globals.map .declare ++
    (p.functionsAndEntry.flatMap (fun f => f.body.setters) ++ p.classes.flatMap Class.setters)

/-- The values that are given to variables and members. -/
def values : List Expr :=
  p.setters.filterMap Setter.value?

end Program

/-! ### Sites of variables -/

def Function.variableSites (f : Function) : List Span :=
  f.params.map (fun q => q.name.span) ++ f.body.setters.filterMap Setter.site?

def Class.variableSites (c : Class) : List Span :=
  c.params.map (fun q => q.name.span) ++ (c.properties.map (fun d => d.name.span) ++
    c.methods.flatMap Function.variableSites)

/-- Where the variables, parameters and properties of a program are declared. -/
def Program.variableSites (p : Program) : List Span :=
  p.globals.map (fun d => d.name.span) ++
    (p.functionsAndEntry.flatMap Function.variableSites ++ p.classes.flatMap Class.variableSites)

/-! ### Setters at views -/

/-- The declaration or assignment that a clause is. -/
def Clause.setter? : Clause → Option Setter
  | declare d => some (.declare d)
  | assign a => some (.assign a)
  | start s => some s.setter
  | update u => u.setter?
  | evaluate _ | print _ | leave _ _ | stop | blockEnd => none

def Point.setter? (pt : Point) : Option Setter :=
  pt.clause.setter?

def View.setter? (v : View) : Option Setter :=
  v.clause.setter?

theorem setters_behind (ds : List Declaration) (pts : List Point) :
    (pts.map (Point.behind ds)).filterMap Point.setter? = pts.filterMap Point.setter? :=
  List.filterMap_map

mutual

theorem Stmt.setters_points : ∀ st : Stmt, st.points.filterMap Point.setter? = st.setters
  | .declare _ | .assign _ | .evaluate _ _ | .print _ _ | .leave _ _ | .stop _ => by
    rw [Stmt.points, Stmt.setters]
    rfl
  | .branch condition body elseIfs none _ => by
    rw [Stmt.points, Stmt.setters, List.append_nil, List.append_nil,
      List.filterMap_cons_none rfl, List.filterMap_append, Block.setters_points body,
      elseIfSetters_points elseIfs]
  | .branch condition body elseIfs (some b) _ => by
    rw [Stmt.points, Stmt.setters, List.filterMap_cons_none rfl, List.filterMap_append,
      List.filterMap_append, Block.setters_points body, elseIfSetters_points elseIfs,
      Block.setters_points b]
  | .repeatWhile _ condition body _ => by
    rw [Stmt.points, Stmt.setters, List.filterMap_cons_none rfl, Block.setters_points body]
  | .count start condition update body _ => by
    have hstart : Point.setter? (.here (.start start)) = some start.setter := rfl
    have hupdate : Point.setter? (.here (.update update)) = update.setter? := rfl
    rw [Stmt.points, Stmt.setters, List.filterMap_cons_some hstart, setters_behind,
      List.filterMap_cons_none rfl, List.filterMap_cons, hupdate, Block.setters_points body]
    cases update <;> rfl

theorem Block.setters_points : ∀ b : Block, b.points.filterMap Point.setter? = b.setters
  | ⟨body, _⟩ => by
    rw [Block.points, Block.setters]
    exact stmtsSetters_points body

theorem stmtsSetters_points : ∀ sts : List Stmt,
    (stmtsPoints sts).filterMap Point.setter? = stmtsSetters sts
  | [] => by
    rw [stmtsPoints, stmtsSetters]
    rfl
  | st :: sts => by
    rw [stmtsPoints, stmtsSetters, List.filterMap_append, setters_behind, Stmt.setters_points st,
      stmtsSetters_points sts]

theorem elseIfSetters_points : ∀ es : List ElseIf,
    (elseIfPoints es).filterMap Point.setter? = elseIfSetters es
  | [] => by
    rw [elseIfPoints, elseIfSetters]
    rfl
  | ⟨condition, body, _⟩ :: es => by
    rw [elseIfPoints, elseIfSetters, List.filterMap_cons_none rfl, List.filterMap_append,
      Block.setters_points body, elseIfSetters_points es]

end

theorem Body.setters_views (p : Program) (b : Body) :
    (b.views p).filterMap View.setter? = b.function.body.setters := by
  rw [Body.views, List.filterMap_map]
  exact Block.setters_points b.function.body

theorem setters_initialisers (cls : Option Class) (scope : Scope) (ds : List Declaration)
    (vars : Typing.Variables) :
    (initialiserViews cls scope ds vars).filterMap View.setter? = ds.map .declare := by
  induction ds generalizing vars with
  | nil => rfl
  | cons d ds ih =>
    have hd : View.setter? ⟨cls, none, scope, vars, .declare d⟩ = some (.declare d) := rfl
    rw [initialiserViews, List.filterMap_cons_some hd, ih, List.map_cons]

theorem setters_bodies (p : Program) (cls : Option Class) (fs : List Function) :
    ((fs.map fun f => (⟨f, cls⟩ : Body)).flatMap (Body.views p)).filterMap View.setter? =
      fs.flatMap fun f => f.body.setters := by
  rw [List.filterMap_flatMap, List.flatMap_map]
  simp only [Body.setters_views]

theorem Class.setters_views (p : Program) (c : Class) :
    (c.initialisers ++ c.bodies.flatMap (Body.views p)).filterMap View.setter? = c.setters := by
  rw [List.filterMap_append, Class.initialisers, setters_initialisers, Class.bodies, setters_bodies,
    Class.setters]

/-- The views of a program hold its setters in their order. -/
theorem Program.setters_views (p : Program) : p.views.filterMap View.setter? = p.setters := by
  rw [Program.views, List.filterMap_append, List.filterMap_append, Program.initialisers,
    setters_initialisers, Program.functionBodies, setters_bodies, List.filterMap_flatMap]
  simp only [Class.setters_views]
  rfl

end Uwu
