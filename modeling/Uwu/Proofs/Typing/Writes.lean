import Uwu.Typing.Program

/-! What a program writes: the targets of its assignments, `++` and `--` wherever they stand, with
the declarations that are visible there, and which of them are constants. -/

namespace Uwu.Typing

/-! ### Targets -/

mutual

/-- The paths that `++` and `--` write anywhere in an expression. -/
def exprTargets : Expr → List Place
  | .literal _ _ => []
  | .format segments _ => segmentTargets segments
  | .input none _ => []
  | .input (some prompt) _ => exprTargets prompt
  | .array elements _ => listTargets elements
  | .prefixed _ operand _ => exprTargets operand
  | .infixed left _ right _ => exprTargets left ++ exprTargets right
  | .postfixed target _ _ => target :: placeTargets target
  | .place p => placeTargets p

def listTargets : List Expr → List Place
  | [] => []
  | e :: es => exprTargets e ++ listTargets es

def segmentTargets : List Segment → List Place
  | [] => []
  | .text _ :: ss => segmentTargets ss
  | .expr e :: ss => exprTargets e ++ segmentTargets ss

def linkTargets : Link → List Place
  | .name _ => []
  | .indexed _ es _ | .call _ es _ => listTargets es

/-- Those in the indices and arguments along a path. -/
def placeTargets : Place → List Place
  | .link l => linkTargets l
  | .construct _ args _ => listTargets args
  | .member object l _ => placeTargets object ++ linkTargets l

end

def declarationTargets (d : Declaration) : List Place :=
  (d.value.map exprTargets).getD []

def assignmentTargets (a : Assignment) : List Place :=
  a.target :: (placeTargets a.target ++ exprTargets a.value)

def startTargets : LoopStart → List Place
  | .declare d => declarationTargets d
  | .assign a => assignmentTargets a

def updateTargets : LoopUpdate → List Place
  | .assign a => assignmentTargets a
  | .postfixed target _ _ => target :: placeTargets target

/-! ### What a path leads to -/

def indexed (t : DataType) : DataType :=
  if t.isString then .senpai else if t.isArray then t.elementOf 1 else .san

def indexedBy : List Expr → DataType → DataType
  | [], t => t
  | _ :: es, t => indexedBy es (indexed t)

/-- The type of a link to what was found under its name; `san` where that is none such. -/
def linkType : Link → Option Member → DataType
  | .name _, some (.property t _ _) => t
  | .indexed _ es _, some (.property t _ _) => indexedBy es t
  | .call _ _ _, some (.method sig) => sig.returnType
  | _, _ => .san

/-- What the class of a value, or else its type, has under a name. -/
def memberOf? (signatures : Signatures) (owner : DataType) (name : String) : Option Member :=
  if owner.isClass then signatures.member? owner.base.shown name
  else (methodOf? owner name).map .method

section Paths

variable (signatures : Signatures) (cls : Option String) (vars : Variables)

/-- What the first link of a path stands for: a variable, or for a call a method of the class
around it or else a function. -/
def rootOf? : Link → Option Member
  | .call n _ _ =>
    match cls.bind fun c => signatures.member? c n.value with
    | some (.method sig) => some (.method sig)
    | _ => (signatures.functions.get? n.value).map .method
  | l => (vars.get? l.head.value).map fun v => .property v.type v.isConst v.site

/-- The type of a path by the declarations of what it is made of. -/
def pathType : Place → DataType
  | .link l => linkType l (rootOf? signatures cls vars l)
  | .construct c _ _ => ((signatures.classes.get? c.value).map Signature.returnType).getD .san
  | .member object l _ => linkType l (memberOf? signatures (pathType object) l.head.value)

/-- The declaration of what a path ends in. -/
def declarationOf? : Place → Option Member
  | .link l => rootOf? signatures cls vars l
  | .construct _ _ _ => none
  | .member object l _ => memberOf? signatures (pathType signatures cls vars object) l.head.value

/-- The path is a bare or indexed name that is declared a constant, or ends in a constant property
of the class of its object. -/
def endsInConstant (p : Place) : Bool :=
  match declarationOf? signatures cls vars p with
  | some (.property _ isConst _) => isConst
  | _ => false

end Paths

/-- The variable that a path starts from, if it starts from one. -/
def rootVariable? : Place → Option Name
  | .link (.name n) | .link (.indexed n _ _) => some n
  | .link (.call _ _ _) | .construct _ _ _ => none
  | .member object _ _ => rootVariable? object

/-! ### Writes -/

structure Write where
  target : Place
  /-- The class around it. -/
  cls : Option String
  /-- The variables that are visible. -/
  vars : Variables
  /-- Those of them that are declared before. -/
  earlier : Variables

namespace Write

def hitsConstant (p : Program) (w : Write) : Bool :=
  endsInConstant (Signatures.ofProgram p) w.cls w.vars w.target

/-- The path starts from a variable that is not declared before. -/
def isForward (w : Write) : Bool :=
  (rootVariable? w.target).any fun n => !w.earlier.contains n.value

end Write

/-! ### Bodies -/

def Variables.started (vars : Variables) : LoopStart → Variables
  | .declare d => vars.declare d
  | .assign _ => vars

section Bodies

variable (cls : Option String)

/-- In a body what is visible is declared before. -/
def writesTo (vars : Variables) (targets : List Place) : List Write :=
  targets.map fun target => ⟨target, cls, vars, vars⟩

mutual

def stmtWrites : Stmt → Variables → List Write
  | .declare d, vars => writesTo cls vars (declarationTargets d)
  | .assign a, vars => writesTo cls vars (assignmentTargets a)
  | .evaluate e _, vars => writesTo cls vars (exprTargets e)
  | .print args _, vars => writesTo cls vars (listTargets args)
  | .branch condition body elseIfs elseBody _, vars =>
    writesTo cls vars (exprTargets condition) ++ blockWrites body vars ++
      elseIfWrites elseIfs vars ++
      match elseBody with
      | none => []
      | some b => blockWrites b vars
  | .repeatWhile _ condition body _, vars =>
    writesTo cls vars (exprTargets condition) ++ blockWrites body vars
  | .count start condition update body _, vars =>
    writesTo cls vars (startTargets start) ++
      writesTo cls (vars.started start) (exprTargets condition ++ updateTargets update) ++
      blockWrites body (vars.started start)
  | .leave none _, _ => []
  | .leave (some e) _, vars => writesTo cls vars (exprTargets e)
  | .stop _, _ => []

def blockWrites : Block → Variables → List Write
  | ⟨body, _⟩, vars => stmtsWrites body vars

def stmtsWrites : List Stmt → Variables → List Write
  | [], _ => []
  | st :: sts, vars => stmtWrites st vars ++ stmtsWrites sts (vars.after st)

def elseIfWrites : List ElseIf → Variables → List Write
  | [], _ => []
  | ⟨condition, body, _⟩ :: es, vars =>
    writesTo cls vars (exprTargets condition) ++ blockWrites body vars ++ elseIfWrites es vars

end

def functionWrites (vars : Variables) (f : Function) : List Write :=
  blockWrites cls f.body (f.params.foldl Variables.declareParam vars)

/-! ### Initialisers -/

/-- All of `vars` are visible in the values of globals and properties, those that are declared
later too. -/
def initialiserWrites (vars : Variables) : List Declaration → Variables → List Write
  | [], _ => []
  | d :: ds, earlier =>
    (declarationTargets d).map (fun target => ⟨target, cls, vars, earlier⟩) ++
      initialiserWrites vars ds (earlier.declare d)

end Bodies

end Uwu.Typing

namespace Uwu

open Typing

/-! ### Classes and programs -/

namespace Class

def paramVars (c : Class) : Variables :=
  c.params.foldl Variables.declareParam .empty

def vars (c : Class) : Variables :=
  c.properties.foldl Variables.declare c.paramVars

end Class

namespace Program

def globalVars (p : Program) : Variables :=
  p.globals.foldl Variables.declare .empty

/-- The writes in the values of globals and of properties. -/
def initialiserWrites (p : Program) : List Write :=
  Typing.initialiserWrites none p.globalVars p.globals .empty ++
    p.classes.flatMap fun c =>
      Typing.initialiserWrites (some c.name.value) c.vars c.properties c.paramVars

/-- The writes in functions, in the entry and in methods. -/
def bodyWrites (p : Program) : List Write :=
  p.functionsAndEntry.flatMap (functionWrites none p.globalVars) ++
    p.classes.flatMap fun c => c.methods.flatMap (functionWrites (some c.name.value) c.vars)

def writes (p : Program) : List Write :=
  p.initialiserWrites ++ p.bodyWrites

end Program

end Uwu
