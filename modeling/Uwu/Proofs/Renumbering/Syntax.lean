import Mathlib.Logic.Function.Basic
import Uwu.Grammar.Item

/-! Programs with other numbers for their classes. The name of a class stays in its type, so what
is shown of a type stays the same, and two types stay apart if no two numbers fall together. -/

namespace Uwu

/-! ### Types -/

section Types

variable (f : Nat → Nat)

def BaseType.renumber : BaseType → BaseType
  | .cls id name => .cls (f id) name
  | b => b

def DataType.renumber (t : DataType) : DataType :=
  { t with base := t.base.renumber f }

@[simp]
theorem BaseType.shown_renumber (b : BaseType) : (b.renumber f).shown = b.shown := by
  cases b <;> rfl

/-- Only the types of classes have numbers. -/
theorem BaseType.renumber_eq_iff {b c : BaseType} (h : ∀ id name, c ≠ .cls id name) :
    b.renumber f = c ↔ b = c := by
  cases b with
  | cls id name =>
    exact iff_of_false (fun he => h _ _ he.symm) fun he => h _ _ he.symm
  | _ => rfl

theorem BaseType.renumber_injective (hf : f.Injective) : (BaseType.renumber f).Injective := by
  intro b c h
  cases b <;> cases c <;> simp_all [renumber, hf.eq_iff]

namespace DataType

@[simp]
theorem base_renumber (t : DataType) : (t.renumber f).base = t.base.renumber f := rfl

@[simp]
theorem dimension_renumber (t : DataType) : (t.renumber f).dimension = t.dimension := rfl

@[simp]
theorem shown_renumber (t : DataType) : (t.renumber f).shown = t.shown := by
  simp [shown]

@[simp]
theorem isArray_renumber (t : DataType) : (t.renumber f).isArray = t.isArray := rfl

theorem beq_base_renumber (t : DataType) {c : BaseType} (h : ∀ id name, c ≠ .cls id name) :
    (t.base.renumber f == c) = (t.base == c) := by
  rw [Bool.eq_iff_iff, beq_iff_eq, beq_iff_eq, BaseType.renumber_eq_iff f h]

@[simp]
theorem isNothing_renumber (t : DataType) : (t.renumber f).isNothing = t.isNothing := by
  simp [isNothing, beq_base_renumber]

@[simp]
theorem isBlankArray_renumber (t : DataType) : (t.renumber f).isBlankArray = t.isBlankArray := by
  have h := beq_base_renumber f t (c := .san) (by simp)
  rw [isBlankArray, base_renumber, h]
  rfl

@[simp]
theorem isNumeric_renumber (t : DataType) : (t.renumber f).isNumeric = t.isNumeric := by
  simp [isNumeric, beq_base_renumber]

@[simp]
theorem isClass_renumber (t : DataType) : (t.renumber f).isClass = t.isClass := by
  obtain ⟨base, dimension⟩ := t
  cases base <;> rfl

/-- A type without a number is no other type's with a new number. -/
theorem renumber_eq_iff {t u : DataType} (h : ∀ id name, u.base ≠ .cls id name) :
    t.renumber f = u ↔ t = u := by
  obtain ⟨b, n⟩ := t
  obtain ⟨c, m⟩ := u
  simp only [renumber, DataType.mk.injEq]
  rw [BaseType.renumber_eq_iff f h]

@[simp]
theorem isString_renumber (t : DataType) : (t.renumber f).isString = t.isString := by
  rw [Bool.eq_iff_iff, isString, isString, beq_iff_eq, beq_iff_eq]
  exact renumber_eq_iff f (by simp [senpai])

@[simp]
theorem isInput_renumber (t : DataType) : (t.renumber f).isInput = t.isInput := by
  rw [Bool.eq_iff_iff, isInput, isInput, beq_iff_eq, beq_iff_eq]
  exact renumber_eq_iff f (by simp [input])

theorem renumber_injective (hf : f.Injective) : (DataType.renumber f).Injective := by
  rintro ⟨b, n⟩ ⟨c, m⟩ h
  simp only [renumber, mk.injEq] at h ⊢
  exact ⟨BaseType.renumber_injective f hf h.1, h.2⟩

end DataType

end Types

/-! ### Programs -/

section Programs

variable (f : Nat → Nat)

def Declaration.renumber (d : Declaration) : Declaration :=
  { d with type := d.type.renumber f }

def LoopStart.renumber : LoopStart → LoopStart
  | declare d => declare (d.renumber f)
  | assign a => assign a

mutual

def Stmt.renumber : Stmt → Stmt
  | .declare d => .declare (d.renumber f)
  | .branch condition body elseIfs elseBody span =>
    .branch condition body.renumber (renumberElseIfs elseIfs)
      (match elseBody with
      | none => none
      | some b => some b.renumber) span
  | .repeatWhile bodyFirst condition body span =>
    .repeatWhile bodyFirst condition body.renumber span
  | .count start condition update body span =>
    .count (start.renumber f) condition update body.renumber span
  | .assign a => .assign a
  | .evaluate e span => .evaluate e span
  | .print args span => .print args span
  | .leave value span => .leave value span
  | .stop span => .stop span

def Block.renumber : Block → Block
  | ⟨body, span⟩ => ⟨renumberStmts body, span⟩

def renumberStmts : List Stmt → List Stmt
  | [] => []
  | st :: sts => st.renumber :: renumberStmts sts

def ElseIf.renumber : ElseIf → ElseIf
  | ⟨condition, body, span⟩ => ⟨condition, body.renumber, span⟩

def renumberElseIfs : List ElseIf → List ElseIf
  | [] => []
  | e :: es => e.renumber :: renumberElseIfs es

end

theorem renumberStmts_eq (sts : List Stmt) :
    renumberStmts f sts = sts.map (Stmt.renumber f) := by
  induction sts with
  | nil => rfl
  | cons st sts ih => rw [renumberStmts, ih, List.map_cons]

theorem renumberElseIfs_eq (es : List ElseIf) :
    renumberElseIfs f es = es.map (ElseIf.renumber f) := by
  induction es with
  | nil => rfl
  | cons e es ih => rw [renumberElseIfs, ih, List.map_cons]

@[simp]
theorem Block.span_renumber (b : Block) : (b.renumber f).span = b.span := by
  obtain ⟨body, span⟩ := b
  rfl

@[simp]
theorem ElseIf.span_renumber (e : ElseIf) : (e.renumber f).span = e.span := by
  obtain ⟨condition, body, span⟩ := e
  rfl

theorem Stmt.renumber_branch (condition : Expr) (body : Block) (elseIfs : List ElseIf)
    (elseBody : Option Block) (span : Span) :
    (Stmt.branch condition body elseIfs elseBody span).renumber f =
      .branch condition (body.renumber f) (elseIfs.map (ElseIf.renumber f))
        (elseBody.map (Block.renumber f)) span := by
  cases elseBody <;> rw [Stmt.renumber, renumberElseIfs_eq] <;> rfl

mutual

theorem Block.returns_renumber : ∀ b : Block, (b.renumber f).returns = b.returns
  | ⟨body, _⟩ => anyReturns_renumber body

theorem anyReturns_renumber : ∀ sts : List Stmt, anyReturns (renumberStmts f sts) = anyReturns sts
  | [] => rfl
  | st :: sts => by
    simp [renumberStmts, anyReturns, Stmt.returns_renumber st, anyReturns_renumber sts]

theorem Stmt.returns_renumber : ∀ st : Stmt, (st.renumber f).returns = st.returns
  | .declare _ | .assign _ | .evaluate _ _ | .print _ _ | .leave _ _ | .stop _ => rfl
  | .branch _ body elseIfs none _ => by
    simp [Stmt.renumber, Stmt.returns, Block.returns_renumber body,
      anyElseIfReturns_renumber elseIfs]
  | .branch _ body elseIfs (some b) _ => by
    simp [Stmt.renumber, Stmt.returns, Block.returns_renumber body,
      anyElseIfReturns_renumber elseIfs, Block.returns_renumber b]
  | .repeatWhile _ _ body _ | .count _ _ _ body _ => by
    simp [Stmt.renumber, Stmt.returns, Block.returns_renumber body]

theorem anyElseIfReturns_renumber : ∀ es : List ElseIf,
    anyElseIfReturns (renumberElseIfs f es) = anyElseIfReturns es
  | [] => rfl
  | ⟨_, body, _⟩ :: es => by
    simp [renumberElseIfs, ElseIf.renumber, anyElseIfReturns, Block.returns_renumber body,
      anyElseIfReturns_renumber es]

end

def Param.renumber (p : Param) : Param :=
  { p with type := p.type.renumber f }

def Function.renumber (g : Function) : Function :=
  { g with
    returnType := g.returnType.renumber f
    params := g.params.map (Param.renumber f)
    body := g.body.renumber f }

def Class.renumber (c : Class) : Class :=
  { c with
    type := c.type.renumber f
    params := c.params.map (Param.renumber f)
    properties := c.properties.map (Declaration.renumber f)
    methods := c.methods.map (Function.renumber f) }

def Program.renumber (p : Program) : Program where
  globals := p.globals.map (Declaration.renumber f)
  functions := p.functions.map (Function.renumber f)
  classes := p.classes.map (Class.renumber f)
  entry := p.entry.renumber f

@[simp]
theorem Function.paramTypes_renumber (g : Function) :
    (g.renumber f).paramTypes = g.paramTypes.map (DataType.renumber f) := by
  rw [paramTypes, paramTypes, renumber, List.map_map, List.map_map]
  rfl

@[simp]
theorem Class.paramTypes_renumber (c : Class) :
    (c.renumber f).paramTypes = c.paramTypes.map (DataType.renumber f) := by
  rw [paramTypes, paramTypes, renumber, List.map_map, List.map_map]
  rfl

@[simp]
theorem Program.functionsAndEntry_renumber (p : Program) :
    (p.renumber f).functionsAndEntry = p.functionsAndEntry.map (Function.renumber f) := by
  simp [functionsAndEntry, renumber]

end Programs

end Uwu
