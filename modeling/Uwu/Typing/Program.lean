import Uwu.Typing.Stmt

/-! Functions, classes and whole programs. -/

namespace Uwu

namespace Typing

def Variables.declareParam (vars : Variables) (p : Param) : Variables :=
  vars.addNew p.name.value ⟨p.type, false, p.name.span⟩

/-- Parameters hold a value from the start. -/
def enterParams (ps : List Param) : Check Unit :=
  ps.forM fun p => setValued p.name.span true

variable (setting : Setting)

def checkFunction (vars : Variables) (f : Function) : Check Unit := do
  enterParams f.params
  checkBlock setting ⟨f.name.value, f.returnType⟩ f.body (f.params.foldl Variables.declareParam vars)
  if !f.returnType.isNothing && !f.body.returns then
    mistake (.missingReturn f.name.value f.returnType.shown) f.name.span

/-- Each declaration sees the variables declared before it. -/
def checkDeclarations : List Declaration → Variables → Check Unit
  | [], _ => return
  | d :: ds, vars => do
    checkDeclaration setting d vars
    checkDeclarations ds (vars.declare d)

/-- A class sees its own parameters and properties, and no global variables. -/
def checkClass (signatures : Signatures) (c : Class) : Check Unit := do
  let setting : Setting := ⟨signatures, some c.name.value⟩
  let params : Variables := c.params.foldl Variables.declareParam .empty
  enterParams c.params
  checkDeclarations setting c.properties params
  c.methods.forM (checkFunction setting (c.properties.foldl Variables.declare params))

def checkProgram (p : Program) : Check Unit := do
  let signatures := Signatures.ofProgram p
  let setting : Setting := ⟨signatures, none⟩
  checkDeclarations setting p.globals .empty
  p.functionsAndEntry.forM (checkFunction setting (p.globals.foldl Variables.declare .empty))
  p.classes.forM (checkClass signatures)

end Typing

/-- The mistakes in the types of a program, and the types of the values in it. -/
def Program.checkTypes (p : Program) : Typing.State :=
  ((Typing.checkProgram p).run .initial).2

end Uwu
