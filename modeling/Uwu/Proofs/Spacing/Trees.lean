import Uwu.Grammar.Item
import Uwu.Proofs.Grammar.Words

/-! Syntax trees without their spans. Two trees are the same up to spans if these are equal. -/

namespace Uwu

open Grammar

/-- No place: what is left of a span. -/
def Span.erase (_ : Span) : Span :=
  default

/-! ### Expressions -/

theorem Grammar.eraseAll_eq : List.map eraseExpr = eraseAll := by
  funext es
  induction es with
  | nil => rfl
  | cons e es ih => rw [List.map_cons, ih, eraseAll]

theorem Link.span_erase (l : Link) : (eraseLink l).span = default := by
  cases l <;> rfl

theorem Place.span_erase (p : Place) : (erasePlace p).span = default := by
  cases p with
  | link l => exact l.span_erase
  | _ => rfl

theorem Expr.span_erase (e : Expr) : (eraseExpr e).span = default := by
  cases e with
  | place p => exact p.span_erase
  | _ => rfl

theorem Link.isAssignable_erase (l : Link) : (eraseLink l).isAssignable = l.isAssignable := by
  cases l <;> rfl

theorem Place.isAssignable_erase (p : Place) : (erasePlace p).isAssignable = p.isAssignable := by
  cases p with
  | construct => rfl
  | link l | member o l => exact l.isAssignable_erase

/-! ### Statements -/

def Declaration.erase (d : Declaration) : Declaration :=
  ⟨unplaced d.name, d.type, d.isConst, erasePrompt d.value, default⟩

def Assignment.erase (a : Assignment) : Assignment :=
  ⟨erasePlace a.target, unplaced a.op, eraseExpr a.value, default⟩

def LoopStart.erase : LoopStart → LoopStart
  | declare d => declare d.erase
  | assign a => assign a.erase

def LoopUpdate.erase : LoopUpdate → LoopUpdate
  | assign a => assign a.erase
  | postfixed p op _ => postfixed (erasePlace p) (unplaced op) default

mutual

/-- The statement without its spans. -/
def Stmt.erase : Stmt → Stmt
  | .declare d => .declare d.erase
  | .assign a => .assign a.erase
  | .evaluate e _ => .evaluate (eraseExpr e) default
  | .print es _ => .print (eraseAll es) default
  | .branch condition body elseIfs elseBody _ =>
    .branch (eraseExpr condition) body.erase (eraseElseIfs elseIfs)
      (match elseBody with
      | none => none
      | some b => some b.erase) default
  | .repeatWhile bodyFirst condition body _ =>
    .repeatWhile bodyFirst (eraseExpr condition) body.erase default
  | .count start condition update body _ =>
    .count start.erase (eraseExpr condition) update.erase body.erase default
  | .leave value _ => .leave (erasePrompt value) default
  | .stop _ => .stop default

def Block.erase : Block → Block
  | ⟨body, _⟩ => ⟨eraseStmts body, default⟩

def eraseStmts : List Stmt → List Stmt
  | [] => []
  | st :: sts => st.erase :: eraseStmts sts

def ElseIf.erase : ElseIf → ElseIf
  | ⟨condition, body, _⟩ => ⟨eraseExpr condition, body.erase, default⟩

def eraseElseIfs : List ElseIf → List ElseIf
  | [] => []
  | e :: es => e.erase :: eraseElseIfs es

end

theorem eraseStmts_eq : List.map Stmt.erase = eraseStmts := by
  funext sts
  induction sts with
  | nil => rfl
  | cons st sts ih => rw [List.map_cons, ih, eraseStmts]

theorem eraseElseIfs_eq : List.map ElseIf.erase = eraseElseIfs := by
  funext es
  induction es with
  | nil => rfl
  | cons e es ih => rw [List.map_cons, ih, eraseElseIfs]

theorem Block.span_erase (b : Block) : b.erase.span = default := by
  obtain ⟨body, span⟩ := b
  rfl

theorem ElseIf.span_erase (e : ElseIf) : e.erase.span = default := by
  obtain ⟨condition, body, span⟩ := e
  rfl

theorem Stmt.erase_branch (condition : Expr) (body : Block) (elseIfs : List ElseIf)
    (elseBody : Option Block) (span : Span) :
    (branch condition body elseIfs elseBody span).erase =
      branch (eraseExpr condition) body.erase (elseIfs.map ElseIf.erase)
        (elseBody.map Block.erase) default := by
  cases elseBody <;> rw [erase, eraseElseIfs_eq] <;> rfl

/-! ### Programs -/

def Param.erase (p : Param) : Param :=
  ⟨unplaced p.name, p.type, default⟩

def Function.erase (f : Function) : Function :=
  ⟨unplaced f.name, f.returnType, f.params.map Param.erase, f.body.erase, default⟩

def Class.erase (c : Class) : Class where
  name := unplaced c.name
  type := c.type
  params := c.params.map Param.erase
  properties := c.properties.map Declaration.erase
  methods := c.methods.map Function.erase
  span := default

/-- The program without its spans. -/
def Program.erase (p : Program) : Program where
  globals := p.globals.map Declaration.erase
  functions := p.functions.map Function.erase
  classes := p.classes.map Class.erase
  entry := p.entry.erase

end Uwu
