import Mathlib.Algebra.Group.Nat.Defs
import Uwu.Proofs.Grammar.Words
import Uwu.Syntax.Program

/-! Well-formed programs: what the stages behind the parser take for granted. The syntax trees
rule a part of it out: an access path is a first link or a new object, and members of it from left
to right, each of them a link. The rest is stated here, at every depth. -/

namespace Uwu

open Grammar

/-! ### Expressions -/

/-- A number without a sign fits into 64 bits with one. -/
def Literal.InRange : Literal → Prop
  | .int n => n < 2 ^ 63
  | _ => True

mutual

def Expr.WellFormed : Expr → Prop
  | .literal value _ => value.InRange
  | .format ss _ => (∃ e, .expr e ∈ ss) ∧ textsApart false ss ∧ SegmentsWellFormed ss
  | .input none _ => True
  | .input (some e) _ => e.WellFormed
  | .array es _ => ExprsWellFormed es
  | .prefixed _ operand _ => operand.WellFormed
  | .infixed left _ right _ => left.WellFormed ∧ right.WellFormed
  | .postfixed target _ _ => target.WellFormed
  | .place p => p.WellFormed

def ExprsWellFormed : List Expr → Prop
  | [] => True
  | e :: es => e.WellFormed ∧ ExprsWellFormed es

def SegmentsWellFormed : List Segment → Prop
  | [] => True
  | .text _ :: ss => SegmentsWellFormed ss
  | .expr e :: ss => e.WellFormed ∧ SegmentsWellFormed ss

def Link.WellFormed : Link → Prop
  | .name _ => True
  | .indexed _ indices _ => indices ≠ [] ∧ ExprsWellFormed indices
  | .call _ args _ => ExprsWellFormed args

def Place.WellFormed : Place → Prop
  | .link l => l.WellFormed
  | .construct _ args _ => ExprsWellFormed args
  | .member object l _ => object.WellFormed ∧ l.WellFormed

end

/-- A value, if there is one. -/
def ValueWellFormed (value : Option Expr) : Prop :=
  ∀ e ∈ value, e.WellFormed

theorem valueWellFormed_none : ValueWellFormed none := by
  rintro e ⟨⟩

theorem valueWellFormed_some (e : Expr) (h : e.WellFormed) : ValueWellFormed (some e) := by
  rintro x ⟨⟩
  exact h

theorem exprsWellFormed_iff {es : List Expr} : ExprsWellFormed es ↔ ∀ e ∈ es, e.WellFormed := by
  induction es with
  | nil => exact iff_of_true trivial (List.forall_mem_nil _)
  | cons e es ih => rw [ExprsWellFormed, ih, List.forall_mem_cons]

theorem segmentsWellFormed_append {ss rest : List Segment} :
    SegmentsWellFormed (ss ++ rest) ↔ SegmentsWellFormed ss ∧ SegmentsWellFormed rest := by
  induction ss with
  | nil => exact (and_iff_right trivial).symm
  | cons segment ss ih =>
    cases segment with
    | text => exact ih
    | expr e => rw [List.cons_append, SegmentsWellFormed, SegmentsWellFormed, ih, and_assoc]

/-! ### Types -/

/-- If it is of a class, the type is written behind the dash that follows the name at `site`: its
name is the lexeme of the token there, and its number is that of the token. -/
def DataType.WrittenAt (ts : List Token) (site : Span) (type : DataType) : Prop :=
  ∀ id name, type.base = .cls id name → ∃ declared dash cls, [declared, dash, cls] <:+: ts ∧
    declared.span = site ∧ dash.kind = .symbol .dash ∧ cls.kind = .classId id ∧ cls.lexeme = name

/-! ### Statements -/

structure Declaration.WellFormed (ts : List Token) (d : Declaration) : Prop where
  type : d.type.WrittenAt ts d.name.span
  const : d.isConst → d.value.isSome
  value : ValueWellFormed d.value

structure Assignment.WellFormed (a : Assignment) : Prop where
  assignable : a.target.isAssignable
  target : a.target.WellFormed
  value : a.value.WellFormed

def LoopStart.WellFormed (ts : List Token) : LoopStart → Prop
  | .declare d => d.WellFormed ts
  | .assign a => a.WellFormed

def LoopUpdate.WellFormed : LoopUpdate → Prop
  | .assign a => a.WellFormed
  | .postfixed target _ _ => target.WellFormed

mutual

/-- A statement with so many loops of its function around it. -/
def Stmt.WellFormed (ts : List Token) (loops : Nat) : Stmt → Prop
  | .declare d => d.WellFormed ts
  | .assign a => a.WellFormed
  | .evaluate e _ => e.WellFormed
  | .print args _ => ExprsWellFormed args
  | .branch condition body elseIfs none _ =>
    condition.WellFormed ∧ body.WellFormed ts loops ∧ ElseIfsWellFormed ts loops elseIfs
  | .branch condition body elseIfs (some elseBody) _ =>
    condition.WellFormed ∧ body.WellFormed ts loops ∧ ElseIfsWellFormed ts loops elseIfs ∧
      elseBody.WellFormed ts loops
  | .repeatWhile _ condition body _ => condition.WellFormed ∧ body.WellFormed ts (loops + 1)
  | .count start condition update body _ =>
    start.WellFormed ts ∧ condition.WellFormed ∧ update.WellFormed ∧ body.WellFormed ts (loops + 1)
  | .leave value _ => ValueWellFormed value
  | .stop _ => 0 < loops

def Block.WellFormed (ts : List Token) (loops : Nat) : Block → Prop
  | ⟨body, _⟩ => StmtsWellFormed ts loops body

def StmtsWellFormed (ts : List Token) (loops : Nat) : List Stmt → Prop
  | [] => True
  | s :: ss => s.WellFormed ts loops ∧ StmtsWellFormed ts loops ss

def ElseIfsWellFormed (ts : List Token) (loops : Nat) : List ElseIf → Prop
  | [] => True
  | ⟨condition, body, _⟩ :: es =>
    condition.WellFormed ∧ body.WellFormed ts loops ∧ ElseIfsWellFormed ts loops es

end

theorem stmtsWellFormed_iff {ts : List Token} {loops : Nat} {ss : List Stmt} :
    StmtsWellFormed ts loops ss ↔ ∀ s ∈ ss, s.WellFormed ts loops := by
  induction ss with
  | nil => exact iff_of_true trivial (List.forall_mem_nil _)
  | cons s ss ih => rw [StmtsWellFormed, ih, List.forall_mem_cons]

theorem elseIfsWellFormed_iff {ts : List Token} {loops : Nat} {es : List ElseIf} :
    ElseIfsWellFormed ts loops es ↔
      ∀ e ∈ es, e.condition.WellFormed ∧ e.body.WellFormed ts loops := by
  induction es with
  | nil => exact iff_of_true trivial (List.forall_mem_nil _)
  | cons e es ih =>
    obtain ⟨condition, body, span⟩ := e
    rw [ElseIfsWellFormed, ih, List.forall_mem_cons, and_assoc]

/-! ### Programs -/

def Param.WellFormed (ts : List Token) (p : Param) : Prop :=
  p.type.WrittenAt ts p.name.span

/-- No loop around the function counts inside of it. -/
structure Function.WellFormed (ts : List Token) (f : Function) : Prop where
  returnType : f.returnType.WrittenAt ts f.name.span
  params : ∀ p ∈ f.params, p.WellFormed ts
  body : f.body.WellFormed ts 0

/-- The type of the objects has the name and the number of the token that names the class. -/
structure Class.WellFormed (ts : List Token) (c : Class) : Prop where
  type : ∃ t ∈ ts, ∃ id, t.kind = .classId id ∧ c.name = ⟨t.lexeme, t.span⟩ ∧
    c.type = ⟨.cls id t.lexeme, 0⟩
  params : ∀ p ∈ c.params, p.WellFormed ts
  properties : ∀ d ∈ c.properties, d.WellFormed ts
  methods : ∀ f ∈ c.methods, f.WellFormed ts

structure Program.WellFormed (ts : List Token) (p : Program) : Prop where
  globals : ∀ d ∈ p.globals, d.WellFormed ts
  functions : ∀ f ∈ p.functionsAndEntry, f.WellFormed ts
  classes : ∀ c ∈ p.classes, c.WellFormed ts

end Uwu
