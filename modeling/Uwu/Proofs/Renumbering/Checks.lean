import Uwu.Proofs.Renumbering.Types

/-! The check of types in a program with other numbers for its classes. It notes the types with the
new numbers, and finds the same mistakes. -/

namespace Uwu

namespace Typing

variable {f : Nat → Nat}

/-! ### States -/

variable (f) in
def State.renumber (s : State) : State :=
  { s with annotations := s.annotations.map (Prod.map id (DataType.renumber f)) }

variable (f) in
def Setting.renumber (setting : Setting) : Setting :=
  { setting with signatures := setting.signatures.renumber f }

variable (f) in
def Variables.renumber (vars : Variables) : Variables :=
  vars.mapValues (Variable.renumber f)

/-- On a state with new numbers `q` does what `p` does on the old one, and gives `g` of what `p`
gives. -/
def Tracks (f : Nat → Nat) {α β : Type} (g : α → β) (p : Check α) (q : Check β) : Prop :=
  ∀ s : State, q (s.renumber f) = (g (p s).1, (p s).2.renumber f)

section Rules

variable {α β α' β' : Type} {g : α → β} {g' : α' → β'} {p : Check α} {q : Check β}

theorem tracks_pure {a : α} {b : β} (hab : g a = b) : Tracks f g (pure a) (pure b) := by
  subst hab
  exact fun _ => rfl

theorem Tracks.bind {k : α → Check α'} {l : β → Check β'} (hp : Tracks f g p q)
    (hk : ∀ a, Tracks f g' (k a) (l (g a))) : Tracks f g' (p >>= k) (q >>= l) := by
  intro s
  change l (q (s.renumber f)).1 (q (s.renumber f)).2 = _
  rw [hp s]
  exact hk (p s).1 (p s).2

theorem tracks_mistake (cause : Cause) (span : Span) :
    Tracks f id (mistake cause span) (mistake cause span) :=
  fun _ => rfl

theorem tracks_annotate (span : Span) (t : DataType) :
    Tracks f id (annotate span t) (annotate span (t.renumber f)) := by
  intro s
  have hannotations : (s.renumber f).annotations.filter (fun a => a.1 != span) ++
      [(span, t.renumber f)] =
        (s.annotations.filter (fun a => a.1 != span) ++ [(span, t)]).map
          (Prod.map id (DataType.renumber f)) := by
    simp [State.renumber, List.filter_map, Function.comp_def]
  exact congrArg (fun annotations => ((), { s with annotations })) hannotations

theorem tracks_setValued (site : Span) (holds : Bool) :
    Tracks f id (setValued site holds) (setValued site holds) :=
  fun _ => rfl

theorem tracks_infer {setting : Setting} {vars : Variables} {check : Env → Checked α}
    {check' : Env → Checked β}
    (h : ∀ env : Env, check' (env.renumber f) = (check env).mapValue g) :
    Tracks f (Checked.mapValue g) (infer setting vars check)
      (infer (setting.renumber f) (vars.renumber f) check') := by
  intro s
  have henv : (setting.renumber f).env (vars.renumber f) (s.renumber f) =
      (setting.env vars s).renumber f := rfl
  rw [infer, henv, h]
  rfl

theorem tracks_forM {γ δ : Type} {r : γ → δ} {check : γ → Check Unit} {check' : δ → Check Unit}
    (h : ∀ x, Tracks f id (check x) (check' (r x))) (xs : List γ) :
    Tracks f id (xs.forM check) ((xs.map r).forM check') := by
  induction xs with
  | nil => exact tracks_pure rfl
  | cons x xs ih => exact (h x).bind fun _ => ih

end Rules

/-! ### Values -/

section Values

variable (hf : f.Injective)
include hf

theorem valueFor_renumber (expected : DataType) (e : Expr) (env : Env) :
    valueFor (expected.renumber f) e (env.renumber f) =
      (valueFor expected e env).mapValue (DataType.renumber f) := by
  refine Checked.bind_eq_mapValue (typeOf_renumber f env hf e) fun t => ?_
  simp only [DataType.fits_renumber f hf, DataType.shown_renumber, Checked.mapValue_ite]
  rfl

theorem valueTo_renumber (target : DataType) (a : Assignment) (env : Env) :
    valueTo (target.renumber f) a (env.renumber f) =
      (valueTo target a env).mapValue (DataType.renumber f) := by
  refine Checked.bind_eq_mapValue (typeOf_renumber f env hf a.value) fun t => ?_
  have rest (given : DataType) :
      (do
        if !(target.renumber f).isNothing && !(given.renumber f).fits (target.renumber f) false then
          report (.typeMismatch (target.renumber f).shown (given.renumber f).shown) a.value.span
        return t.renumber f) =
      Checked.mapValue (DataType.renumber f) (do
        if !target.isNothing && !given.fits target false then
          report (.typeMismatch target.shown given.shown) a.value.span
        return t) := by
    simp only [DataType.isNothing_renumber, DataType.fits_renumber f hf, DataType.shown_renumber,
      Checked.mapValue_ite]
    rfl
  cases a.op.value.infix? with
  | none => exact Checked.bind_eq_mapValue (c := pure t) rfl rest
  | some op =>
    exact Checked.bind_eq_mapValue
      (arithmetic_renumber f _ [(target, a.target.span), (t, a.value.span)]) rest

variable (setting : Setting) (vars : Variables)

theorem tracks_checkExpr (e : Expr) :
    Tracks f id (checkExpr setting vars e)
      (checkExpr (setting.renumber f) (vars.renumber f) e) :=
  (tracks_infer fun env => typeOf_renumber f env hf e).bind fun _ => tracks_pure rfl

theorem tracks_checkDeclaration (d : Declaration) :
    Tracks f id (checkDeclaration setting d vars)
      (checkDeclaration (setting.renumber f) (d.renumber f) (vars.renumber f)) := by
  have rest (holds : Bool) : Tracks f id (setValued d.name.span holds)
      (setValued (d.renumber f).name.span holds) :=
    tracks_setValued _ _
  obtain ⟨name, type, isConst, value, span⟩ := d
  cases value with
  | none => exact (tracks_pure (g := id) rfl).bind rest
  | some e =>
    exact (tracks_infer fun env => valueFor_renumber hf type e env).bind fun t =>
      (tracks_annotate e.span t.value).bind fun _ => (tracks_pure (g := id) rfl).bind rest

theorem tracks_checkAssignment (a : Assignment) :
    Tracks f id (checkAssignment setting a vars)
      (checkAssignment (setting.renumber f) a (vars.renumber f)) := by
  refine (tracks_infer fun env => typeOfPlace_renumber f env hf .write a.target).bind fun target =>
    (tracks_infer fun env => valueTo_renumber hf target.value a env).bind fun t =>
      (tracks_annotate a.value.span t.value).bind fun _ => ?_
  have hassigned : assignedVariable? (vars.renumber f) a.target =
      (assignedVariable? vars a.target).map (Variable.renumber f) := by
    unfold assignedVariable?
    split
    next => exact Table.get?_mapValues _ _ _
    next => rfl
  rw [hassigned]
  cases assignedVariable? vars a.target with
  | none => exact tracks_pure rfl
  | some v => exact tracks_setValued _ _

/-! ### Statements -/

theorem tracks_checkLoopStart (start : LoopStart) :
    Tracks f id (checkLoopStart setting start vars)
      (checkLoopStart (setting.renumber f) (start.renumber f) (vars.renumber f)) := by
  cases start with
  | assign a => exact tracks_checkAssignment hf setting vars a
  | declare d =>
    have rest := tracks_checkDeclaration hf setting vars (loopVariable d)
    change Tracks f id (if d.isConst then _ else _) (if d.isConst then _ else _)
    split
    next => exact (tracks_mistake _ _).bind fun _ => rest
    next => exact rest

theorem tracks_checkLeave (result : Result) (span : Span) (value : Option Expr) :
    Tracks f id (checkLeave setting result vars span value)
      (checkLeave (setting.renumber f) ⟨result.function, result.type.renumber f⟩
        (vars.renumber f) span value) := by
  cases value with
  | none =>
    simp only [checkLeave, DataType.isNothing_renumber, DataType.shown_renumber]
    split
    next => exact tracks_mistake _ _
    next => exact tracks_pure rfl
  | some e =>
    refine (tracks_infer fun env => typeOf_renumber f env hf e).bind fun t => ?_
    simp only [Checked.mapValue, DataType.fits_renumber f hf, DataType.shown_renumber]
    split
    next => exact tracks_mistake _ _
    next => exact tracks_pure rfl

theorem tracks_check (result : Result) (c : Clause) :
    Tracks f id (c.check setting result vars)
      ((c.renumber f).check (setting.renumber f) ⟨result.function, result.type.renumber f⟩
        (vars.renumber f)) := by
  cases c with
  | declare d => exact tracks_checkDeclaration hf setting vars d
  | assign a => exact tracks_checkAssignment hf setting vars a
  | evaluate e => exact tracks_checkExpr hf setting vars e
  | print args =>
    exact (tracks_infer fun env => typesOf_renumber f env hf args).bind fun _ => tracks_pure rfl
  | start s => exact tracks_checkLoopStart hf setting vars s
  | update u =>
    cases u with
    | assign a => exact tracks_checkAssignment hf setting vars a
    | postfixed target op span => exact tracks_checkExpr hf setting vars _
  | leave value span => exact tracks_checkLeave hf setting vars result span value
  | stop | blockEnd => exact tracks_pure rfl

omit hf in
theorem Variables.declareAll_renumber (ds : List Declaration) :
    (ds.map (Declaration.renumber f)).foldl Variables.declare (vars.renumber f) =
      (ds.foldl Variables.declare vars).renumber f := by
  rw [List.foldl_map]
  exact List.foldl_hom (Variables.renumber f) fun vars d =>
    Table.addNew_mapValues (Variable.renumber f) vars d.name.value ⟨d.type, d.isConst, d.name.span⟩

omit hf in
theorem Variables.declareParams_renumber (ps : List Param) :
    (ps.map (Param.renumber f)).foldl Variables.declareParam (vars.renumber f) =
      (ps.foldl Variables.declareParam vars).renumber f := by
  rw [List.foldl_map]
  exact List.foldl_hom (Variables.renumber f) fun vars p =>
    Table.addNew_mapValues (Variable.renumber f) vars p.name.value ⟨p.type, false, p.name.span⟩

theorem tracks_checkBlock (result : Result) (b : Block) :
    Tracks f id (checkBlock setting result b vars)
      (checkBlock (setting.renumber f) ⟨result.function, result.type.renumber f⟩ (b.renumber f)
        (vars.renumber f)) := by
  rw [checkBlock_eq, checkBlock_eq, Block.points_renumber]
  refine tracks_forM (fun pt => ?_) b.points
  have hvars : (pt.renumber f).vars (vars.renumber f) = (pt.vars vars).renumber f :=
    Variables.declareAll_renumber vars pt.before
  rw [Point.check, Point.check, hvars]
  exact tracks_check hf setting _ result pt.clause

/-! ### Functions and classes -/

omit hf in
theorem tracks_enterParams (ps : List Param) :
    Tracks f id (enterParams ps) (enterParams (ps.map (Param.renumber f))) :=
  tracks_forM (r := Param.renumber f) (fun _ => tracks_setValued _ _) ps

theorem tracks_checkFunction (g : Function) :
    Tracks f id (checkFunction setting vars g)
      (checkFunction (setting.renumber f) (vars.renumber f) (g.renumber f)) := by
  have hblock := tracks_checkBlock hf setting (g.params.foldl Variables.declareParam vars)
    ⟨g.name.value, g.returnType⟩ g.body
  rw [← Variables.declareParams_renumber] at hblock
  refine (tracks_enterParams g.params).bind fun _ => hblock.bind fun _ => ?_
  have hreturns : (!(g.renumber f).returnType.isNothing && !(g.renumber f).body.returns) =
      (!g.returnType.isNothing && !g.body.returns) :=
    congrArg₂ (!· && !·) (DataType.isNothing_renumber f _) (Block.returns_renumber f _)
  have hshown : (g.renumber f).returnType.shown = g.returnType.shown :=
    DataType.shown_renumber f _
  rw [hreturns, hshown]
  split
  next => exact tracks_mistake _ _
  next => exact tracks_pure rfl

theorem tracks_checkDeclarations (ds : List Declaration) :
    Tracks f id (checkDeclarations setting ds vars)
      (checkDeclarations (setting.renumber f) (ds.map (Declaration.renumber f))
        (vars.renumber f)) := by
  induction ds generalizing vars with
  | nil => exact tracks_pure rfl
  | cons d ds ih =>
    have hrest := ih (vars.declare d)
    rw [← show (vars.renumber f).declare (d.renumber f) = (vars.declare d).renumber f from
      Variables.declareAll_renumber vars [d]] at hrest
    exact (tracks_checkDeclaration hf setting vars d).bind fun _ => hrest

omit setting vars in
theorem tracks_checkClass (signatures : Signatures) (c : Class) :
    Tracks f id (checkClass signatures c) (checkClass (signatures.renumber f) (c.renumber f)) := by
  have hparams : (c.renumber f).params.foldl Variables.declareParam .empty =
      (c.params.foldl Variables.declareParam .empty).renumber f :=
    Variables.declareParams_renumber .empty c.params
  have hvars : (c.renumber f).properties.foldl Variables.declare
      ((c.params.foldl Variables.declareParam .empty).renumber f) =
        (c.properties.foldl Variables.declare
          (c.params.foldl Variables.declareParam .empty)).renumber f :=
    Variables.declareAll_renumber _ c.properties
  rw [checkClass, checkClass, hparams, hvars]
  exact (tracks_enterParams c.params).bind fun _ =>
    (tracks_checkDeclarations hf ⟨signatures, some c.name.value⟩ _ c.properties).bind fun _ =>
      tracks_forM (tracks_checkFunction hf ⟨signatures, some c.name.value⟩ _) c.methods

end Values

/-! ### Programs -/

theorem tracks_checkProgram (hf : f.Injective) (p : Program) :
    Tracks f id (checkProgram p) (checkProgram (p.renumber f)) := by
  have hvars : (p.renumber f).globals.foldl Variables.declare .empty =
      (p.globals.foldl Variables.declare .empty).renumber f :=
    Variables.declareAll_renumber .empty p.globals
  rw [checkProgram, checkProgram, Signatures.ofProgram_renumber,
    Program.functionsAndEntry_renumber, hvars]
  exact (tracks_checkDeclarations hf ⟨Signatures.ofProgram p, none⟩ .empty p.globals).bind fun _ =>
    (tracks_forM (tracks_checkFunction hf ⟨Signatures.ofProgram p, none⟩ _)
      p.functionsAndEntry).bind fun _ => tracks_forM (tracks_checkClass hf _) p.classes

end Typing

theorem Program.checkTypes_renumber {f : Nat → Nat} (hf : f.Injective) (p : Program) :
    (p.renumber f).checkTypes = p.checkTypes.renumber f :=
  congrArg Prod.snd (Typing.tracks_checkProgram hf p .initial)

end Uwu
