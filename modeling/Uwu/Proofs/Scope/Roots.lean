import Uwu.Proofs.Scope.Points

/-! Where names are used in bodies. Every access path of an expression, at any depth, begins with a
root, and the roots are all that name resolution looks up in expressions. Beside them it looks up
the classes that the types of what is declared name. -/

namespace Uwu

/-- What an access path begins with. -/
inductive Root where
  | link (l : Link)
  | construct (cls : Name) (args : List Expr)

/-- The name of a root, and the role that it is used in. -/
def Root.reference : Root → Reference
  | link (.call n _ _) => ⟨n, .function⟩
  | link l => ⟨l.head, .globalVariable⟩
  | construct cls _ => ⟨cls, .classType⟩

mutual

/-- The roots of the access paths anywhere in an expression. -/
def Expr.roots : Expr → List Root
  | .literal _ _ => []
  | .format segments _ => segmentRoots segments
  | .input none _ => []
  | .input (some prompt) _ => prompt.roots
  | .array elements _ => exprRoots elements
  | .prefixed _ operand _ => operand.roots
  | .infixed left _ right _ => left.roots ++ right.roots
  | .postfixed target _ _ => target.roots
  | .place p => p.roots

def exprRoots : List Expr → List Root
  | [] => []
  | e :: es => e.roots ++ exprRoots es

def segmentRoots : List Segment → List Root
  | [] => []
  | .text _ :: ss => segmentRoots ss
  | .expr e :: ss => e.roots ++ segmentRoots ss

/-- Those in the indices or arguments of a link. -/
def Link.operandRoots : Link → List Root
  | .name _ => []
  | .indexed _ es _ | .call _ es _ => exprRoots es

def Place.roots : Place → List Root
  | .link l => .link l :: l.operandRoots
  | .construct cls args _ => .construct cls args :: exprRoots args
  | .member object l _ => object.roots ++ l.operandRoots

end

/-- The class of which a type, or an array of it at any depth, is. -/
def DataType.className? (t : DataType) : Option String :=
  match t.base with
  | .cls _ name => some name
  | _ => none

/-- The use of a class as a type that belongs to the name at `site`. -/
def DataType.classUses (site : Span) (t : DataType) : List Reference :=
  t.className?.toList.map fun name => ⟨⟨name, site⟩, .classType⟩

/-! ### References -/

theorem DataType.references_eq (site : Span) (t : DataType) :
    t.references site = t.classUses site := by
  obtain ⟨base, dimension⟩ := t
  cases base <;> rfl

theorem Link.references_eq (l : Link) :
    l.references = (Root.link l).reference :: l.memberReferences := by
  cases l <;> rfl

mutual

theorem Expr.references_eq : ∀ e : Expr, e.references = e.roots.map Root.reference
  | .literal _ _ => rfl
  | .format segments _ => segmentReferences_eq segments
  | .input none _ => rfl
  | .input (some prompt) _ => Expr.references_eq prompt
  | .array elements _ => exprReferences_eq elements
  | .prefixed _ operand _ => Expr.references_eq operand
  | .infixed left _ right _ => by
    rw [Expr.references, Expr.roots, List.map_append, Expr.references_eq left,
      Expr.references_eq right]
  | .postfixed target _ _ => Place.references_eq target
  | .place p => Place.references_eq p

theorem exprReferences_eq : ∀ es : List Expr, exprReferences es = (exprRoots es).map Root.reference
  | [] => rfl
  | e :: es => by
    rw [exprReferences, exprRoots, List.map_append, Expr.references_eq e, exprReferences_eq es]

theorem segmentReferences_eq : ∀ ss : List Segment,
    segmentReferences ss = (segmentRoots ss).map Root.reference
  | [] => rfl
  | .text _ :: ss => segmentReferences_eq ss
  | .expr e :: ss => by
    rw [segmentReferences, segmentRoots, List.map_append, Expr.references_eq e,
      segmentReferences_eq ss]

theorem Link.memberReferences_eq : ∀ l : Link,
    l.memberReferences = l.operandRoots.map Root.reference
  | .name _ => rfl
  | .indexed _ es _ => exprReferences_eq es
  | .call _ es _ => exprReferences_eq es

theorem Place.references_eq : ∀ p : Place, p.references = p.roots.map Root.reference
  | .link l => by
    rw [Place.references, Place.roots, List.map_cons, Link.references_eq,
      Link.memberReferences_eq l]
  | .construct cls args _ => by
    rw [Place.references, Place.roots, List.map_cons, exprReferences_eq args]
    rfl
  | .member object l _ => by
    rw [Place.references, Place.roots, List.map_append, Place.references_eq object,
      Link.memberReferences_eq l]

end

/-! ### Clauses -/

def Declaration.roots (d : Declaration) : List Root :=
  (d.value.map Expr.roots).getD []

def Assignment.roots (a : Assignment) : List Root :=
  a.target.roots ++ a.value.roots

def LoopStart.roots : LoopStart → List Root
  | declare d => d.roots
  | assign a => a.roots

def LoopUpdate.roots : LoopUpdate → List Root
  | assign a => a.roots
  | postfixed target _ _ => target.roots

namespace Clause

def roots : Clause → List Root
  | declare d => d.roots
  | assign a => a.roots
  | evaluate e => e.roots
  | print args => exprRoots args
  | start s => s.roots
  | update u => u.roots
  | leave value _ => (value.map Expr.roots).getD []
  | stop | blockEnd => []

/-- What the clause declares. -/
def declarations : Clause → List Declaration
  | declare d => [d]
  | start s => s.declarations
  | _ => []

/-- The names that the clause uses: in its expressions, and as the class of what it declares. -/
def references (c : Clause) : List Reference :=
  c.roots.map Root.reference ++ c.declarations.flatMap fun d => d.type.classUses d.name.span

end Clause

theorem Declaration.valueReferences_eq (d : Declaration) :
    d.valueReferences = d.roots.map Root.reference := by
  rw [valueReferences, roots]
  cases d.value with
  | none => rfl
  | some e => exact Expr.references_eq e

theorem Assignment.references_eq (a : Assignment) :
    a.references = a.roots.map Root.reference := by
  rw [references, roots, List.map_append, Place.references_eq, Expr.references_eq]

theorem LoopUpdate.references_eq (u : LoopUpdate) : u.references = u.roots.map Root.reference := by
  cases u with
  | assign a => exact a.references_eq
  | postfixed target op span => exact Place.references_eq target

/-- The mistakes of a clause: uses of names that are not visible, and then a name that is declared
where it is. -/
theorem Clause.resolve_eq (outer : Option Scope) (c : Clause) (s : Scope) :
    c.resolve outer s = s.unresolved outer c.references ++
      s.duplicates (c.declarations.map (·.entry .localVariable)) := by
  cases c with
  | declare d =>
    simp [resolve, Declaration.resolve, references, roots, declarations, Scope.duplicates,
      Declaration.valueReferences_eq, DataType.references_eq]
  | start st =>
    cases st with
    | declare d =>
      simp [resolve, LoopStart.resolve, Declaration.resolve, references, roots, LoopStart.roots,
        declarations, LoopStart.declarations, Scope.duplicates, Declaration.valueReferences_eq,
        DataType.references_eq, Declaration.entry, Typing.loopVariable]
    | assign a =>
      simp [resolve, LoopStart.resolve, references, roots, LoopStart.roots, declarations,
        LoopStart.declarations, Scope.duplicates, Assignment.references_eq]
  | assign a =>
    simp [resolve, references, roots, declarations, Scope.duplicates, Assignment.references_eq]
  | evaluate e =>
    simp [resolve, references, roots, declarations, Scope.duplicates, Expr.references_eq]
  | print args =>
    simp [resolve, references, roots, declarations, Scope.duplicates, exprReferences_eq]
  | update u =>
    simp [resolve, references, roots, declarations, Scope.duplicates, LoopUpdate.references_eq]
  | leave value span =>
    cases value with
    | none =>
      simp [resolve, references, roots, declarations, Scope.duplicates]
    | some e =>
      simp [resolve, references, roots, declarations, Scope.duplicates, Expr.references_eq]
  | stop | blockEnd =>
    simp [resolve, references, roots, declarations, Scope.duplicates, Scope.unresolved]

end Uwu
