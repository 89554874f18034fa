import Uwu.Proofs.Renumbering.Syntax
import Uwu.Proofs.Scope.Points

/-! The names of a program with other numbers for its classes: the tables hold the same names in
the same roles, and the same mistakes are found. -/

namespace Uwu

/-! ### Tables and sorting -/

namespace Table

variable {κ ν μ : Type} [BEq κ]

def mapValues (g : ν → μ) (t : Table κ ν) : Table κ μ :=
  ⟨t.toList.map (Prod.map id g)⟩

variable (g : ν → μ) (t : Table κ ν)

@[simp]
theorem get?_mapValues (k : κ) : (t.mapValues g).get? k = (t.get? k).map g := by
  obtain ⟨l⟩ := t
  change (l.map (Prod.map id g)).lookup k = (l.lookup k).map g
  induction l with
  | nil => rfl
  | cons x l ih =>
    obtain ⟨k', v⟩ := x
    cases hk : k == k' <;> simp [List.lookup_cons, hk, ih]

@[simp]
theorem contains_mapValues (k : κ) : (t.mapValues g).contains k = t.contains k := by
  rw [contains, get?_mapValues, Option.isSome_map, contains]

theorem addNew_mapValues (k : κ) (v : ν) :
    (t.mapValues g).addNew k (g v) = (t.addNew k v).mapValues g := by
  rw [addNew, addNew, contains_mapValues]
  split
  next => rfl
  next => simp [mapValues]

end Table

theorem insertBy_map {α β : Type} {le : α → α → Bool} {le' : β → β → Bool} {g : α → β}
    (h : ∀ x y, le' (g x) (g y) = le x y) (x : α) (ys : List α) :
    insertBy le' (g x) (ys.map g) = (insertBy le x ys).map g := by
  induction ys with
  | nil => rfl
  | cons y ys ih =>
    rw [List.map_cons, insertBy, insertBy, h, ih]
    split <;> rfl

theorem sortBy_map {α β : Type} {le : α → α → Bool} {le' : β → β → Bool} {g : α → β}
    (h : ∀ x y, le' (g x) (g y) = le x y) (xs : List α) :
    sortBy le' (xs.map g) = (sortBy le xs).map g := by
  induction xs with
  | nil => rfl
  | cons x xs ih =>
    change insertBy le' (g x) (sortBy le' (xs.map g)) = (insertBy le x (sortBy le xs)).map g
    rw [ih, insertBy_map h]

/-! ### Bodies -/

section Bodies

variable (f : Nat → Nat)

def Clause.renumber : Clause → Clause
  | declare d => declare (d.renumber f)
  | start s => start (s.renumber f)
  | c => c

def Point.renumber (pt : Point) : Point :=
  ⟨pt.before.map (Declaration.renumber f), pt.clause.renumber f⟩

@[simp]
theorem Point.renumber_here (c : Clause) : (here c).renumber f = here (c.renumber f) := rfl

@[simp]
theorem Point.renumber_behind (ds : List Declaration) (pt : Point) :
    (pt.behind ds).renumber f = (pt.renumber f).behind (ds.map (Declaration.renumber f)) := by
  simp [behind, renumber]

theorem LoopStart.declarations_renumber (s : LoopStart) :
    (s.renumber f).declarations = s.declarations.map (Declaration.renumber f) := by
  cases s <;> rfl

theorem Stmt.declarations_renumber (st : Stmt) :
    (st.renumber f).declarations = st.declarations.map (Declaration.renumber f) := by
  cases st <;> simp [Stmt.renumber, declarations]

mutual

theorem Stmt.points_renumber : ∀ st : Stmt,
    (st.renumber f).points = st.points.map (Point.renumber f)
  | .declare _ | .assign _ | .evaluate _ _ | .print _ _ | .leave _ _ | .stop _ => rfl
  | .branch condition body elseIfs none _ => by
    simp [Stmt.renumber, Stmt.points, Clause.renumber, Block.points_renumber body,
      elseIfPoints_renumber elseIfs]
  | .branch condition body elseIfs (some b) _ => by
    simp [Stmt.renumber, Stmt.points, Clause.renumber, Block.points_renumber body,
      elseIfPoints_renumber elseIfs, Block.points_renumber b]
  | .repeatWhile _ condition body _ => by
    simp [Stmt.renumber, Stmt.points, Clause.renumber, Block.points_renumber body]
  | .count start condition update body _ => by
    simp [Stmt.renumber, Stmt.points, Clause.renumber, LoopStart.declarations_renumber,
      Block.points_renumber body]

theorem Block.points_renumber : ∀ b : Block,
    (b.renumber f).points = b.points.map (Point.renumber f)
  | ⟨body, _⟩ => stmtsPoints_renumber body

theorem stmtsPoints_renumber : ∀ sts : List Stmt,
    stmtsPoints (renumberStmts f sts) = (stmtsPoints sts).map (Point.renumber f)
  | [] => rfl
  | st :: sts => by
    simp [renumberStmts, stmtsPoints, Stmt.points_renumber st, Stmt.declarations_renumber,
      stmtsPoints_renumber sts]

theorem elseIfPoints_renumber : ∀ es : List ElseIf,
    elseIfPoints (renumberElseIfs f es) = (elseIfPoints es).map (Point.renumber f)
  | [] => rfl
  | ⟨condition, body, _⟩ :: es => by
    simp [renumberElseIfs, ElseIf.renumber, elseIfPoints, Clause.renumber,
      Block.points_renumber body, elseIfPoints_renumber es]

end

end Bodies

/-! ### Scopes -/

section Scopes

variable (f : Nat → Nat)

def Binding.renumber (b : Binding) : Binding :=
  { b with type := b.type.renumber f }

def Entry.renumber (e : Entry) : Entry :=
  { e with type := e.type.renumber f }

namespace Scope

def renumber (s : Scope) : Scope :=
  s.mapValues (Binding.renumber f)

variable (outer : Option Scope) (s : Scope)

theorem declareAll_renumber (es : List Entry) :
    (s.renumber f).declareAll (es.map (Entry.renumber f)) = (s.declareAll es).renumber f := by
  have hdeclare (s : Scope) (e : Entry) :
      (s.renumber f).declare (e.renumber f) = (s.declare e).renumber f :=
    Table.addNew_mapValues (Binding.renumber f) s e.name.value ⟨e.name.span, e.type, e.role⟩
  induction es generalizing s with
  | nil => rfl
  | cons e es ih =>
    change ((s.renumber f).declare (e.renumber f)).declareAll (es.map (Entry.renumber f)) = _
    rw [hdeclare, ih]
    rfl

@[simp]
theorem has_renumber (name : String) (role : Role) :
    (s.renumber f).has name role = s.has name role := by
  rw [has, renumber, Table.get?_mapValues, has, Option.any_map]
  rfl

theorem unresolved_renumber (rs : List Reference) :
    (s.renumber f).unresolved (outer.map (renumber f)) rs = s.unresolved outer rs := by
  have hcontains (name : String) : (s.renumber f).contains name = s.contains name :=
    Table.contains_mapValues _ s name
  refine congrArg (List.filterMap · rs) (funext fun r => ?_)
  simp [unresolved?, Option.any_map, hcontains]

theorem duplicate_renumber (e : Entry) :
    (s.renumber f).duplicate (e.renumber f) = s.duplicate e := by
  have hget : (s.renumber f).get? (e.renumber f).name.value =
      (s.get? e.name.value).map (Binding.renumber f) :=
    Table.get?_mapValues _ s e.name.value
  rw [duplicate, duplicate, hget]
  cases s.get? e.name.value <;> rfl

theorem duplicates_renumber (es : List Entry) :
    (s.renumber f).duplicates (es.map (Entry.renumber f)) = s.duplicates es := by
  induction es generalizing s with
  | nil => rfl
  | cons e es ih =>
    have hdeclare := declareAll_renumber f s [e]
    rw [List.map_cons, duplicates, duplicates, duplicate_renumber]
    exact congrArg _ ((congrArg (duplicates · _) hdeclare).trans (ih (s.declare e)))

end Scope

/-! ### The mistakes in names -/

theorem DataType.references_renumber (site : Span) (t : DataType) :
    (t.renumber f).references site = t.references site := by
  obtain ⟨base, dimension⟩ := t
  cases base <;> rfl

variable (outer : Option Scope) (s : Scope)

theorem Declaration.resolve_renumber (d : Declaration) :
    (d.renumber f).resolve (outer.map (Scope.renumber f)) (s.renumber f) = d.resolve outer s := by
  have htype : (d.renumber f).type.references d.name.span = d.type.references d.name.span :=
    DataType.references_renumber f _ _
  rw [resolve, resolve, Scope.unresolved_renumber, ← s.duplicate_renumber f, ← htype]
  rfl

theorem Clause.resolve_renumber (c : Clause) :
    (c.renumber f).resolve (outer.map (Scope.renumber f)) (s.renumber f) = c.resolve outer s := by
  cases c with
  | declare d => exact d.resolve_renumber f outer s
  | start st =>
    cases st with
    | declare d => exact d.resolve_renumber f outer s
    | assign a => exact Scope.unresolved_renumber f outer s _
  | assign _ | evaluate _ | print _ | update _ | leave _ _ =>
    exact Scope.unresolved_renumber f outer s _
  | stop | blockEnd => rfl

theorem Point.resolve_renumber (pt : Point) :
    (pt.renumber f).resolve (outer.map (Scope.renumber f)) (s.renumber f) = pt.resolve outer s := by
  have hscope : (pt.renumber f).scope (s.renumber f) = (pt.scope s).renumber f := by
    rw [scope, scope, ← Scope.declareAll_renumber, List.map_map]
    simp [renumber, Function.comp_def]
    rfl
  rw [resolve, resolve, hscope]
  exact Clause.resolve_renumber f outer _ _

theorem Block.resolve_renumber (b : Block) :
    (b.renumber f).resolve (outer.map (Scope.renumber f)) (s.renumber f) = b.resolve outer s := by
  rw [Block.resolve_eq, Block.resolve_eq, Block.points_renumber, List.flatMap_map]
  exact congrArg (List.flatMap · b.points) (funext (Point.resolve_renumber f outer s))

theorem resolveParams_renumber (ps : List Param) :
    resolveParams (outer.map (Scope.renumber f)) (ps.map (Param.renumber f)) (s.renumber f) =
      resolveParams outer ps s := by
  induction ps generalizing s with
  | nil => rfl
  | cons p ps ih =>
    have htype : (p.renumber f).type.references p.span = p.type.references p.span :=
      DataType.references_renumber f _ _
    have hdeclare := s.declareAll_renumber f [p.entry]
    rw [resolveParams, ← ih (s.declare p.entry), ← s.duplicate_renumber f, ← htype,
      ← Scope.unresolved_renumber f]
    exact congrArg (_ ++ resolveParams _ _ ·) hdeclare

theorem Function.resolve_renumber (g : Function) :
    (g.renumber f).resolve (outer.map (Scope.renumber f)) (s.renumber f) = g.resolve outer s := by
  have htype : (g.returnType.renumber f).references g.name.span =
      g.returnType.references g.name.span :=
    DataType.references_renumber f _ _
  have hparams : (g.params.map (Param.renumber f)).map Param.entry =
      (g.params.map Param.entry).map (Entry.renumber f) := by
    rw [List.map_map, List.map_map]
    rfl
  simp only [resolve, renumber, hparams, htype, Scope.unresolved_renumber,
    Scope.declareAll_renumber, resolveParams_renumber, Block.resolve_renumber]

theorem Class.entries_renumber (c : Class) :
    (c.renumber f).entries = c.entries.map (Entry.renumber f) := by
  simp only [entries, renumber, List.map_append, List.map_map]
  rfl

theorem Class.resolve_renumber (c : Class) (globals : Scope) :
    (c.renumber f).resolve (globals.renumber f) = c.resolve globals := by
  have hscope : (c.renumber f).scope = c.scope.renumber f := by
    rw [scope, entries_renumber]
    exact Scope.declareAll_renumber f .empty c.entries
  have hduplicates : Scope.duplicates .empty (c.entries.map (Entry.renumber f)) =
      Scope.duplicates .empty c.entries :=
    Scope.duplicates_renumber f .empty c.entries
  have hproperties : (c.renumber f).properties.flatMap Declaration.valueReferences =
      c.properties.flatMap Declaration.valueReferences :=
    List.flatMap_map _ _ _
  have hmethods : ((c.renumber f).methods.flatMap fun g =>
      g.resolve (some (globals.renumber f)) (c.scope.renumber f)) =
        c.methods.flatMap fun g => g.resolve (some globals) c.scope := by
    rw [renumber, List.flatMap_map]
    exact congrArg (List.flatMap · c.methods)
      (funext (Function.resolve_renumber f (some globals) c.scope))
  rw [resolve, entries_renumber, hduplicates, hscope, hproperties, hmethods]
  exact congrArg (_ ++ · ++ _) (Scope.unresolved_renumber f (some globals) c.scope _)

theorem Program.entries_renumber (p : Program) :
    (p.renumber f).entries = p.entries.map (Entry.renumber f) := by
  have hsort (es : List Entry) :
      sortBy (fun a b => a.name.span.start ≤ b.name.span.start) (es.map (Entry.renumber f)) =
        (sortBy (fun a b => a.name.span.start ≤ b.name.span.start) es).map (Entry.renumber f) :=
    sortBy_map (fun _ _ => rfl) es
  rw [entries, entries, ← hsort]
  simp only [renumber, List.map_append, List.map_map]
  rfl

/-- The mistakes in the names of a program do not depend on the numbers of its classes. -/
theorem Program.checkNames_renumber (p : Program) : (p.renumber f).checkNames = p.checkNames := by
  have hscope : (p.renumber f).scope = p.scope.renumber f := by
    rw [scope, entries_renumber]
    exact Scope.declareAll_renumber f .empty p.entries
  have hduplicates : Scope.duplicates .empty (p.entries.map (Entry.renumber f)) =
      Scope.duplicates .empty p.entries :=
    Scope.duplicates_renumber f .empty p.entries
  have hglobals : (p.renumber f).globals.flatMap Declaration.valueReferences =
      p.globals.flatMap Declaration.valueReferences :=
    List.flatMap_map _ _ _
  have hfunctions : ((p.renumber f).functionsAndEntry.flatMap fun g =>
      g.resolve none (p.scope.renumber f)) =
        p.functionsAndEntry.flatMap fun g => g.resolve none p.scope := by
    rw [functionsAndEntry_renumber, List.flatMap_map]
    exact congrArg (List.flatMap · p.functionsAndEntry)
      (funext (Function.resolve_renumber f none p.scope))
  have hclasses : ((p.renumber f).classes.flatMap fun c => c.resolve (p.scope.renumber f)) =
      p.classes.flatMap fun c => c.resolve p.scope := by
    rw [renumber, List.flatMap_map]
    exact congrArg (List.flatMap · p.classes)
      (funext fun c => Class.resolve_renumber f c p.scope)
  rw [checkNames, entries_renumber, hduplicates, hscope, hglobals, hfunctions, hclasses]
  exact congrArg (_ ++ · ++ _ ++ _) (Scope.unresolved_renumber f none p.scope _)

end Scopes

end Uwu
