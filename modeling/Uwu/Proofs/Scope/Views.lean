import Uwu.Proofs.Scope.Sites
import Uwu.Proofs.Typing.Writes

/-! Views: the places of a program where names are looked up, each with the scope that name
resolution has there and the variables that the check of types has there. The check of a program
goes through its views in their order. -/

namespace Uwu

open Typing

structure View where
  /-- The class around the place. -/
  cls : Option Class
  /-- The function around it; none in the value of a global or of a property. -/
  function : Option Function
  scope : Scope
  vars : Variables
  clause : Clause

/-- A function, the entry or a method. -/
structure Body where
  function : Function
  cls : Option Class

/-- What the check of a program does, one thing after the other. -/
inductive Step where
  /-- Parameters hold a value from here on. -/
  | enter (ps : List Param)
  | view (v : View)
  /-- The function has to give back a value somewhere. -/
  | leave (f : Function)

/-! ### What is visible everywhere -/

namespace Program

variable (p : Program) (cls : Option Class)

/-- The global table, for places in a class. -/
def outerIn : Option Scope :=
  cls.map fun _ => p.scope

/-- The names that are visible everywhere in a class, or else in the program. -/
def scopeIn : Scope :=
  (cls.map Class.scope).getD p.scope

/-- The variables that bodies of a class, or else of the program, begin with. -/
def varsIn : Variables :=
  (cls.map Class.vars).getD p.globalVars

def settingIn : Setting :=
  ⟨Signatures.ofProgram p, cls.map fun c => c.name.value⟩

end Program

namespace View

variable (p : Program) (v : View)

/-- Outside of functions nothing is given back. -/
def result : Result :=
  match v.function with
  | some f => ⟨f.name.value, f.returnType⟩
  | none => ⟨"", .san⟩

/-- The mistakes in the names of a clause in a body. -/
def resolve : List Diagnostic :=
  v.clause.resolve (p.outerIn v.cls) v.scope

def check : Check Unit :=
  v.clause.check (p.settingIn v.cls) v.result v.vars

end View

def checkReturn (f : Function) : Check Unit := do
  if !f.returnType.isNothing && !f.body.returns then
    mistake (.missingReturn f.name.value f.returnType.shown) f.name.span

def Step.run (p : Program) : Step → Check Unit
  | enter ps => enterParams ps
  | view v => v.check p
  | leave f => checkReturn f

/-! ### Bodies -/

namespace Body

variable (p : Program) (b : Body)

def view (pt : Point) : View :=
  ⟨b.cls, some b.function,
    pt.scope ((p.scopeIn b.cls).declareAll (b.function.params.map Param.entry)),
    pt.vars (b.function.params.foldl Variables.declareParam (p.varsIn b.cls)), pt.clause⟩

/-- The points of a body with the tables there. -/
def views : List View :=
  b.function.body.points.map (b.view p)

def steps : List Step :=
  .enter b.function.params :: ((b.views p).map .view ++ [.leave b.function])

/-- The mistakes in the names of a body: in the type it gives back, in its parameters, and at its
views. -/
theorem resolve_eq : b.function.resolve (p.outerIn b.cls) (p.scopeIn b.cls) =
    (p.scopeIn b.cls).unresolved (p.outerIn b.cls)
        (b.function.returnType.references b.function.name.span) ++
      resolveParams (p.outerIn b.cls) b.function.params (p.scopeIn b.cls) ++
      (b.views p).flatMap (View.resolve p) := by
  rw [Function.resolve, Block.resolve_eq, views, List.flatMap_map]
  rfl

/-- A body is checked view by view. -/
theorem check_eq : checkFunction (p.settingIn b.cls) (p.varsIn b.cls) b.function =
    (b.steps p).forM (Step.run p) := by
  have hv (pt : Point) : (b.view p pt).check p =
      pt.check (p.settingIn b.cls) ⟨b.function.name.value, b.function.returnType⟩
        (b.function.params.foldl Variables.declareParam (p.varsIn b.cls)) := rfl
  simp only [checkFunction, checkBlock_eq, steps, views, List.forM_eq_forM, List.forM_cons,
    List.forM_append, List.forM_map, List.forM_nil, Step.run, hv, checkReturn, bind_pure_unit]

end Body

/-! ### Initialisers -/

/-- The values of globals or properties. All names of the table are visible in them; checked are
the variables that are declared before. -/
def initialiserViews (cls : Option Class) (scope : Scope) : List Declaration → Variables → List View
  | [], _ => []
  | d :: ds, vars =>
    ⟨cls, none, scope, vars, .declare d⟩ :: initialiserViews cls scope ds (vars.declare d)

theorem checkDeclarations_eq (p : Program) (cls : Option Class) (scope : Scope)
    (ds : List Declaration) (vars : Variables) :
    checkDeclarations (p.settingIn cls) ds vars =
      ((initialiserViews cls scope ds vars).map Step.view).forM (Step.run p) := by
  induction ds generalizing vars with
  | nil => rfl
  | cons d ds ih =>
    rw [checkDeclarations, initialiserViews, List.map_cons, List.forM_eq_forM, List.forM_cons,
      ← List.forM_eq_forM, ← ih]
    rfl

/-! ### Programs -/

namespace Class

def bodies (c : Class) : List Body :=
  c.methods.map fun f => ⟨f, some c⟩

def initialisers (c : Class) : List View :=
  initialiserViews (some c) c.scope c.properties c.paramVars

def steps (p : Program) (c : Class) : List Step :=
  .enter c.params :: (c.initialisers.map .view ++ c.bodies.flatMap (Body.steps p))

end Class

namespace Program

variable (p : Program)

/-- The bodies of functions and of the entry. -/
def functionBodies : List Body :=
  p.functionsAndEntry.map fun f => ⟨f, none⟩

def bodies : List Body :=
  p.functionBodies ++ p.classes.flatMap Class.bodies

def initialisers : List View :=
  initialiserViews none p.scope p.globals .empty

/-- All views, in the order in which they are checked. -/
def views : List View :=
  p.initialisers ++ (p.functionBodies.flatMap (Body.views p) ++
    p.classes.flatMap fun c => c.initialisers ++ c.bodies.flatMap (Body.views p))

def steps : List Step :=
  p.initialisers.map .view ++
    (p.functionBodies.flatMap (Body.steps p) ++ p.classes.flatMap (Class.steps p))

end Program

theorem forM_flatMap_steps {α : Type} (p : Program) (steps : α → List Step) (xs : List α) :
    (xs.flatMap steps).forM (Step.run p) = xs.forM fun x => (steps x).forM (Step.run p) := by
  simp only [List.forM_eq_forM]
  induction xs with
  | nil => rfl
  | cons x xs ih => rw [List.flatMap_cons, List.forM_append, List.forM_cons, ih]

theorem forM_bodies (p : Program) (cls : Option Class) (fs : List Function) :
    ((fs.map fun f => (⟨f, cls⟩ : Body)).flatMap (Body.steps p)).forM (Step.run p) =
      fs.forM (checkFunction (p.settingIn cls) (p.varsIn cls)) := by
  rw [forM_flatMap_steps]
  simp only [List.forM_eq_forM, List.forM_map]
  congr 1
  exact funext fun f => (Body.check_eq p ⟨f, cls⟩).symm

theorem checkClass_eq (p : Program) (c : Class) :
    checkClass (Signatures.ofProgram p) c = (c.steps p).forM (Step.run p) := by
  have hd : checkDeclarations ⟨Signatures.ofProgram p, some c.name.value⟩ c.properties c.paramVars =
      (c.initialisers.map Step.view).forM (Step.run p) :=
    checkDeclarations_eq p (some c) c.scope c.properties c.paramVars
  have hb : (c.bodies.flatMap (Body.steps p)).forM (Step.run p) =
      c.methods.forM (checkFunction ⟨Signatures.ofProgram p, some c.name.value⟩ c.vars) :=
    forM_bodies p (some c) c.methods
  simp only [Class.steps, List.forM_eq_forM] at hd hb ⊢
  rw [List.forM_cons, List.forM_append, hb, ← hd]
  rfl

/-- The types of a program are checked view by view. -/
theorem checkProgram_eq (p : Program) : checkProgram p = p.steps.forM (Step.run p) := by
  have hd : checkDeclarations ⟨Signatures.ofProgram p, none⟩ p.globals .empty =
      (p.initialisers.map Step.view).forM (Step.run p) :=
    checkDeclarations_eq p none p.scope p.globals .empty
  have hb : (p.functionBodies.flatMap (Body.steps p)).forM (Step.run p) =
      p.functionsAndEntry.forM (checkFunction ⟨Signatures.ofProgram p, none⟩ p.globalVars) :=
    forM_bodies p none p.functionsAndEntry
  have hc : (p.classes.flatMap (Class.steps p)).forM (Step.run p) =
      p.classes.forM (checkClass (Signatures.ofProgram p)) := by
    rw [forM_flatMap_steps]
    congr 1
    exact funext fun c => (checkClass_eq p c).symm
  simp only [Program.steps, List.forM_eq_forM] at hd hb hc ⊢
  rw [List.forM_append, List.forM_append, hb, hc, ← hd]
  rfl

end Uwu
