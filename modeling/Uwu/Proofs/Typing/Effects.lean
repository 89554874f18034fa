import Uwu.Proofs.Typing.Visits

/-! What a clause does: the mistakes that it adds, and the variable that it gives a value or takes it
from. Both depend on no more than the types of expressions there, so what two runs of the check have
in common is settled clause by clause. -/

namespace Uwu

namespace Typing

/-- What the check of a clause adds to the state. -/
structure Effect where
  mistakes : List Diagnostic
  /-- The site of a variable, and whether it holds a value from here on. -/
  note : Option (Span × Bool)

/-- The variables with a value, after a note. -/
def noted (valued : List Span) : Option (Span × Bool) → List Span
  | none => valued
  | some (site, holds) =>
    let others := valued.filter (· != site)
    if holds then others ++ [site] else others

theorem mem_noted {valued : List Span} {note : Option (Span × Bool)} {site : Span} :
    site ∈ noted valued note ↔
      note = some (site, true) ∨ (site ∈ valued ∧ ∀ holds, note ≠ some (site, holds)) := by
  cases note with
  | none => simp [noted]
  | some b =>
    obtain ⟨x, holds⟩ := b
    by_cases hx : x = site
    · subst hx
      cases holds <;> simp [noted]
    · have hne : site ≠ x := fun h => hx h.symm
      cases holds <;> simp [noted, hx, hne]

/-! ### Effects of clauses -/

def declarationEffect (d : Declaration) (env : Env) : Effect :=
  match d.value with
  | none => ⟨[], some (d.name.span, false)⟩
  | some e =>
    let t := valueFor d.type e env
    ⟨t.mistakes, some (d.name.span, t.mistakes.isEmpty)⟩

theorem declarationEffect_note (d : Declaration) (env : Env) :
    ∃ holds, (declarationEffect d env).note = some (d.name.span, holds) := by
  unfold declarationEffect
  cases d.value with
  | none => exact ⟨_, rfl⟩
  | some e => exact ⟨_, rfl⟩

def assignmentEffect (a : Assignment) (env : Env) : Effect :=
  let target := typeOfPlace env .write a.target
  let t := valueTo target.value a env
  ⟨target.mistakes ++ t.mistakes,
    (assignedVariable? env.vars a.target).map fun v => (v.site, t.mistakes.isEmpty)⟩

def constantLoopMistakes (d : Declaration) : List Diagnostic :=
  if d.isConst then [⟨.constantLoopVariable d.name.value, d.name.span⟩] else []

def loopStartEffect (start : LoopStart) (env : Env) : Effect :=
  match start with
  | .declare d =>
    let effect := declarationEffect (loopVariable d) env
    ⟨constantLoopMistakes d ++ effect.mistakes, effect.note⟩
  | .assign a => assignmentEffect a env

def loopUpdateEffect (update : LoopUpdate) (env : Env) : Effect :=
  match update with
  | .assign a => assignmentEffect a env
  | .postfixed target op span => ⟨(typeOf env (.postfixed target op span)).mistakes, none⟩

/-- The mistakes in what a function gives back. -/
def leaveMistakes (result : Result) (value : Option Expr) (span : Span) (env : Env) :
    List Diagnostic :=
  match value with
  | none =>
    if !result.type.isNothing then
      [⟨.returnMismatch result.function result.type.shown DataType.san.shown, span⟩]
    else []
  | some e =>
    let t := typeOf env e
    t.mistakes ++
      if !t.value.fits result.type false then
        [⟨.returnMismatch result.function result.type.shown t.value.shown, e.span⟩]
      else []

end Typing

open Typing

def Clause.effect (c : Clause) (result : Result) (env : Env) : Effect :=
  match c with
  | declare d => declarationEffect d env
  | assign a => assignmentEffect a env
  | evaluate e => ⟨(typeOf env e).mistakes, none⟩
  | print args => ⟨(typesOf env args).mistakes, none⟩
  | start st => loopStartEffect st env
  | update u => loopUpdateEffect u env
  | leave value span => ⟨leaveMistakes result value span env, none⟩
  | stop | blockEnd => ⟨[], none⟩

namespace Typing

/-! ### The check of a clause -/

/-- Where `c` runs, the effect comes about. -/
def Brings (setting : Setting) (vars : Variables) (c : Check Unit) (effect : Env → Effect) : Prop :=
  ∀ s, let found := effect (setting.env vars s)
    (c s).2.mistakes = s.mistakes ++ found.mistakes ∧ (c s).2.valued = noted s.valued found.note

section Clauses

variable (setting : Setting) (vars : Variables)

theorem checkExpr_brings (e : Expr) :
    Brings setting vars (checkExpr setting vars e) fun env => ⟨(typeOf env e).mistakes, none⟩ :=
  fun _ => ⟨rfl, rfl⟩

theorem checkDeclaration_brings (d : Declaration) :
    Brings setting vars (checkDeclaration setting d vars) (declarationEffect d) := by
  intro s
  obtain ⟨name, type, isConst, value, span⟩ := d
  cases value with
  | none => exact ⟨(List.append_nil _).symm, rfl⟩
  | some e => exact ⟨rfl, rfl⟩

theorem checkAssignment_brings (a : Assignment) :
    Brings setting vars (checkAssignment setting a vars) (assignmentEffect a) := by
  intro s
  unfold checkAssignment assignmentEffect
  have hvars : (setting.env vars s).vars = vars := rfl
  dsimp only
  rw [hvars]
  cases assignedVariable? vars a.target with
  | none => exact ⟨List.append_assoc .., rfl⟩
  | some v => exact ⟨List.append_assoc .., rfl⟩

theorem checkLoopStart_brings (start : LoopStart) :
    Brings setting vars (checkLoopStart setting start vars) (loopStartEffect start) := by
  intro s
  cases start with
  | assign a => exact checkAssignment_brings setting vars a s
  | declare d =>
    unfold checkLoopStart loopStartEffect constantLoopMistakes
    dsimp only
    cases d.isConst with
    | false => exact checkDeclaration_brings setting vars (loopVariable d) s
    | true =>
      obtain ⟨hm, hv⟩ := checkDeclaration_brings setting vars (loopVariable d)
        { s with mistakes := s.mistakes ++ [⟨.constantLoopVariable d.name.value, d.name.span⟩] }
      exact ⟨hm.trans (List.append_assoc ..), hv⟩

theorem checkLoopUpdate_brings (update : LoopUpdate) :
    Brings setting vars (checkLoopUpdate setting update vars) (loopUpdateEffect update) := by
  cases update with
  | assign a => exact checkAssignment_brings setting vars a
  | postfixed target op span => exact checkExpr_brings setting vars (.postfixed target op span)

theorem checkLeave_brings (result : Result) (span : Span) (value : Option Expr) :
    Brings setting vars (checkLeave setting result vars span value)
      fun env => ⟨leaveMistakes result value span env, none⟩ := by
  intro s
  cases value with
  | none =>
    unfold checkLeave leaveMistakes
    dsimp only
    split
    next => exact ⟨rfl, rfl⟩
    next => exact ⟨(List.append_nil _).symm, rfl⟩
  | some e =>
    have hrun : checkLeave setting result vars span (some e) s =
        (if !(typeOf (setting.env vars s) e).value.fits result.type false then
          mistake (.returnMismatch result.function result.type.shown
            (typeOf (setting.env vars s) e).value.shown) e.span
        else pure ()) { s with mistakes := s.mistakes ++ (typeOf (setting.env vars s) e).mistakes } :=
      rfl
    rw [hrun]
    unfold leaveMistakes
    dsimp only
    split
    next => exact ⟨List.append_assoc .., rfl⟩
    next => exact ⟨by rw [List.append_nil]; rfl, rfl⟩

theorem Clause.check_brings (result : Result) (c : Clause) :
    Brings setting vars (c.check setting result vars) (c.effect result) := by
  cases c with
  | declare d => exact checkDeclaration_brings setting vars d
  | assign a => exact checkAssignment_brings setting vars a
  | evaluate e => exact checkExpr_brings setting vars e
  | print args => exact fun _ => ⟨rfl, rfl⟩
  | start st => exact checkLoopStart_brings setting vars st
  | update u => exact checkLoopUpdate_brings setting vars u
  | leave value span => exact checkLeave_brings setting vars result span value
  | stop | blockEnd => exact fun _ => ⟨(List.append_nil _).symm, rfl⟩

end Clauses

/-! ### Parameters and returns -/

/-- The variables with a value where a function begins. -/
def entered (ps : List Param) (valued : List Span) : List Span :=
  ps.foldl (fun valued q => noted valued (some (q.name.span, true))) valued

theorem enterParams_run (ps : List Param) (s : State) :
    (enterParams ps s).2 = { s with valued := entered ps s.valued } := by
  induction ps generalizing s with
  | nil => rfl
  | cons q ps ih => exact ih (setValued q.name.span true s).2

def returnMistakes (f : Function) : List Diagnostic :=
  if !f.returnType.isNothing && !f.body.returns then
    [⟨.missingReturn f.name.value f.returnType.shown, f.name.span⟩]
  else []

theorem checkReturn_run (f : Function) (s : State) :
    (checkReturn f s).2 = { s with mistakes := s.mistakes ++ returnMistakes f } := by
  unfold checkReturn returnMistakes
  split
  next => rfl
  next => exact congrArg (fun mistakes => { s with mistakes }) (List.append_nil _).symm

end Typing

/-! ### Views -/

theorem View.check_brings (p : Program) (v : View) :
    Brings (p.settingIn v.cls) v.vars (v.check p) (v.clause.effect v.result) :=
  Clause.check_brings (p.settingIn v.cls) v.vars v.result v.clause

end Uwu
