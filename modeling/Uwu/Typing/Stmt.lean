import Uwu.Typing.Expr

/-! Statements: the types of their expressions, and which variables hold a value after them. A
variable whose value has a mistake holds none, so that its uses are no further mistakes. -/

namespace Uwu.Typing

abbrev Variables := Table String Variable

def Variables.declare (vars : Variables) (d : Declaration) : Variables :=
  vars.addNew d.name.value ⟨d.type, d.isConst, d.name.span⟩

/-- The variables after a statement. What a block declares ends with it. -/
def Variables.after (vars : Variables) : Stmt → Variables
  | .declare d => vars.declare d
  | _ => vars

/-- The declaration that a counting loop begins with. In the loop its variable is no constant. -/
def loopVariable (d : Declaration) : Declaration :=
  { d with isConst := false }

/-- The variables in a counting loop. -/
def Variables.inLoop (vars : Variables) : LoopStart → Variables
  | .declare d => vars.declare (loopVariable d)
  | .assign _ => vars

/-- What stays the same within a function. -/
structure Setting where
  signatures : Signatures
  cls : Option String

/-- What the checks so far have found. -/
structure State where
  /-- The sites of the variables that hold a value. -/
  valued : List Span
  /-- The types of values given to variables and members, by the span of the value. -/
  annotations : List (Span × DataType)
  mistakes : List Diagnostic

def State.initial : State :=
  ⟨[], [], []⟩

abbrev Check := StateM State

def Setting.env (setting : Setting) (vars : Variables) (s : State) : Env :=
  ⟨setting.signatures, setting.cls, vars, s.valued⟩

/-- Runs a check of expressions; all its mistakes come along. -/
def infer {α : Type} (setting : Setting) (vars : Variables) (check : Env → Checked α) :
    Check (Checked α) := fun s =>
  let c := check (setting.env vars s)
  (c, { s with mistakes := s.mistakes ++ c.mistakes })

def mistake (cause : Cause) (span : Span) : Check Unit :=
  modify fun s => { s with mistakes := s.mistakes ++ [⟨cause, span⟩] }

def annotate (span : Span) (t : DataType) : Check Unit :=
  modify fun s =>
    { s with annotations := s.annotations.filter (fun a => a.1 != span) ++ [(span, t)] }

/-- Notes whether the variable declared at a site holds a value. -/
def setValued (site : Span) (holds : Bool) : Check Unit :=
  modify fun s =>
    let others := s.valued.filter (· != site)
    { s with valued := if holds then others ++ [site] else others }

/-! ### Values -/

/-- The type of a value for a declaration. -/
def valueFor (expected : DataType) (e : Expr) (env : Env) : Checked DataType := do
  let t ← typeOf env e
  if !t.fits expected false then report (.typeMismatch expected.shown t.shown) e.span
  return t

/-- The type of a value assigned to a target; with an operator, what it gives has to fit. -/
def valueTo (target : DataType) (a : Assignment) (env : Env) : Checked DataType := do
  let t ← typeOf env a.value
  let given ←
    match a.op.value.infix? with
    | some op => arithmetic op.spelling [(target, a.target.span), (t, a.value.span)]
    | none => pure t
  if !target.isNothing && !given.fits target false then
    report (.typeMismatch target.shown given.shown) a.value.span
  return t

variable (setting : Setting)

def checkExpr (vars : Variables) (e : Expr) : Check Unit := do
  let _ ← infer setting vars fun env => typeOf env e

def checkDeclaration (d : Declaration) (vars : Variables) : Check Unit := do
  let holds ←
    match d.value with
    | none => pure false
    | some e => do
      let t ← infer setting vars (valueFor d.type e)
      annotate e.span t.value
      pure t.mistakes.isEmpty
  setValued d.name.span holds

/-- The variable that an assignment gives a value to. -/
def assignedVariable? (vars : Variables) : Place → Option Variable
  | .link (.name n) => vars.get? n.value
  | _ => none

def checkAssignment (a : Assignment) (vars : Variables) : Check Unit := do
  let target ← infer setting vars fun env => typeOfPlace env .write a.target
  let t ← infer setting vars (valueTo target.value a)
  annotate a.value.span t.value
  match assignedVariable? vars a.target with
  | some v => setValued v.site t.mistakes.isEmpty
  | none => return

/-! ### Statements -/

/-- A loop variable that is a constant is a mistake. -/
def checkLoopStart (start : LoopStart) (vars : Variables) : Check Unit := do
  match start with
  | .declare d =>
    if d.isConst then mistake (.constantLoopVariable d.name.value) d.name.span
    checkDeclaration setting (loopVariable d) vars
  | .assign a => checkAssignment setting a vars

def checkLoopUpdate (update : LoopUpdate) (vars : Variables) : Check Unit := do
  match update with
  | .assign a => checkAssignment setting a vars
  | .postfixed target op span => checkExpr setting vars (.postfixed target op span)

/-- A function's name and what it returns. -/
structure Result where
  function : String
  type : DataType

def checkLeave (result : Result) (vars : Variables) (span : Span) :
    Option Expr → Check Unit
  | none => do
    if !result.type.isNothing then
      mistake (.returnMismatch result.function result.type.shown DataType.san.shown) span
  | some e => do
    let t ← infer setting vars fun env => typeOf env e
    if !t.value.fits result.type false then
      mistake (.returnMismatch result.function result.type.shown t.value.shown) e.span

variable (result : Result)

mutual

def checkStmt : Stmt → Variables → Check Unit
  | .declare d, vars => checkDeclaration setting d vars
  | .assign a, vars => checkAssignment setting a vars
  | .evaluate e _, vars => checkExpr setting vars e
  | .print args _, vars => do
    let _ ← infer setting vars fun env => typesOf env args
  | .branch condition body elseIfs elseBody _, vars => do
    checkExpr setting vars condition
    checkBlock body vars
    checkElseIfs elseIfs vars
    match elseBody with
    | none => return
    | some b => checkBlock b vars
  | .repeatWhile _ condition body _, vars => do
    checkExpr setting vars condition
    checkBlock body vars
  | .count start condition update body _, vars => do
    checkLoopStart setting start vars
    checkExpr setting (vars.inLoop start) condition
    checkLoopUpdate setting update (vars.inLoop start)
    checkBlock body (vars.inLoop start)
  | .leave value span, vars => checkLeave setting result vars span value
  | .stop _, _ => return

def checkBlock : Block → Variables → Check Unit
  | ⟨body, _⟩, vars => checkStmts body vars

def checkStmts : List Stmt → Variables → Check Unit
  | [], _ => return
  | st :: sts, vars => do
    checkStmt st vars
    checkStmts sts (vars.after st)

def checkElseIfs : List ElseIf → Variables → Check Unit
  | [], _ => return
  | ⟨condition, body, _⟩ :: es, vars => do
    checkExpr setting vars condition
    checkBlock body vars
    checkElseIfs es vars

end

end Uwu.Typing
