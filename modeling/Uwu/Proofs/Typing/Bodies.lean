import Uwu.Proofs.Typing.Paths

/-! The checks of statements, functions and classes. Where they find no mistake, every write in them
spares the constants that are declared before it. -/

namespace Uwu.Typing

/-! ### Checks without mistakes -/

section Ensures

variable {α β : Type} {P Q : Prop}

/-- Where `c` ends without mistakes it began without any, and `P` holds. -/
def Ensures (c : Check α) (P : Prop) : Prop :=
  ∀ s, (c s).2.mistakes = [] → s.mistakes = [] ∧ P

namespace Ensures

theorem mono {c : Check α} (h : Ensures c P) (hpq : P → Q) : Ensures c Q :=
  fun s hs => ⟨(h s hs).1, hpq (h s hs).2⟩

theorem pure (a : α) : Ensures (pure a : Check α) True :=
  fun _ hs => ⟨hs, trivial⟩

theorem bind {c : Check α} {f : α → Check β} (h : Ensures c P) (hf : ∀ a, Ensures (f a) Q) :
    Ensures (c >>= f) (P ∧ Q) := by
  intro s hs
  obtain ⟨hc, hq⟩ := hf (c s).1 (c s).2 hs
  obtain ⟨hb, hp⟩ := h s hc
  exact ⟨hb, hp, hq⟩

/-- A step after `c` of which nothing is asked. -/
theorem followedBy {c : Check α} {f : α → Check β} (h : Ensures c P)
    (hf : ∀ a, Ensures (f a) True) : Ensures (c >>= f) P :=
  (h.bind hf).mono And.left

/-- A step `c` of which nothing is asked. -/
theorem skip {c : Check α} {f : α → Check β} (h : Ensures c True)
    (hf : ∀ a, Ensures (f a) P) : Ensures (c >>= f) P :=
  (h.bind hf).mono And.right

theorem forM {xs : List α} {f : α → Check Unit} {R : α → Prop} (h : ∀ x ∈ xs, Ensures (f x) (R x)) :
    Ensures (xs.forM f) (∀ x ∈ xs, R x) := by
  induction xs with
  | nil => exact (pure ()).mono fun _ => List.forall_mem_nil R
  | cons x xs ih =>
    have hx := h x List.mem_cons_self
    have hxs := ih fun y hy => h y (List.mem_cons_of_mem x hy)
    exact (hx.bind fun _ => hxs).mono List.forall_mem_cons.2

theorem infer {setting : Setting} {vars : Variables} {check : Env → Checked α}
    (h : ∀ valued, (check ⟨setting.signatures, setting.cls, vars, valued⟩).mistakes = [] → P) :
    Ensures (infer setting vars check) P := by
  intro s hs
  obtain ⟨hb, hc⟩ := List.append_eq_nil_iff.1 hs
  exact ⟨hb, h s.valued hc⟩

theorem mistake (cause : Cause) (span : Span) : Ensures (mistake cause span) False := by
  intro s hs
  cases (List.append_eq_nil_iff.1 hs).2

theorem annotate (span : Span) (t : DataType) : Ensures (annotate span t) True :=
  fun _ hs => ⟨hs, trivial⟩

theorem setValued (site : Span) (holds : Bool) : Ensures (setValued site holds) True :=
  fun _ hs => ⟨hs, trivial⟩

end Ensures

end Ensures

/-! ### Writes -/

/-- None of the writes hits what is a constant by the declarations before it. -/
def Kept (signatures : Signatures) (ws : List Write) : Prop :=
  ∀ w ∈ ws, endsInConstant signatures w.cls w.earlier w.target = false

section Kept

variable {signatures : Signatures} {cls : Option String} {vars : Variables}

theorem kept_nil : Kept signatures [] :=
  List.forall_mem_nil _

theorem kept_append {ws vs : List Write} :
    Kept signatures (ws ++ vs) ↔ Kept signatures ws ∧ Kept signatures vs :=
  List.forall_mem_append

theorem kept_flatMap {α : Type} {xs : List α} {writes : α → List Write} :
    Kept signatures (xs.flatMap writes) ↔ ∀ x ∈ xs, Kept signatures (writes x) :=
  List.forall_mem_flatMap

theorem Spares.kept {targets : List Place} (h : Spares signatures cls vars targets)
    (visible : Variables) :
    Kept signatures (targets.map fun target => ⟨target, cls, visible, vars⟩) :=
  List.forall_mem_map.2 h

end Kept

/-! ### Values -/

variable {setting : Setting}

theorem infer_spares (vars : Variables) (e : Expr) :
    Ensures (infer setting vars fun env => typeOf env e)
      (Spares setting.signatures setting.cls vars (exprTargets e)) := by
  refine .infer fun valued h => ?_
  have hs := spares_typeOf h
  exact hs

theorem checkExpr_spares (vars : Variables) (e : Expr) :
    Ensures (checkExpr setting vars e)
      (Spares setting.signatures setting.cls vars (exprTargets e)) := by
  unfold checkExpr
  exact (infer_spares vars e).followedBy fun _ => .pure ()

theorem checkDeclaration_spares (d : Declaration) (vars : Variables) :
    Ensures (checkDeclaration setting d vars)
      (Spares setting.signatures setting.cls vars (declarationTargets d)) := by
  unfold checkDeclaration declarationTargets
  cases d.value with
  | none => exact ((Ensures.pure false).skip fun _ => .setValued _ _).mono fun _ => spares_nil
  | some e =>
    have hi : Ensures (infer setting vars (valueFor d.type e))
        (Spares setting.signatures setting.cls vars (exprTargets e)) :=
      .infer fun valued h => spares_typeOf (bind_mistakes_eq_nil.1 h).1
    exact hi.followedBy fun _ => (Ensures.annotate _ _).skip fun _ =>
      (Ensures.pure _).skip fun _ => .setValued _ _

theorem checkAssignment_spares (a : Assignment) (vars : Variables) :
    Ensures (checkAssignment setting a vars)
      (Spares setting.signatures setting.cls vars (assignmentTargets a)) := by
  unfold checkAssignment
  have ht : Ensures (infer setting vars fun env => typeOfPlace env .write a.target)
      (Spares setting.signatures setting.cls vars (a.target :: placeTargets a.target)) :=
    .infer fun valued h => spares_cons (endsInConstant_eq_false h) (spares_typeOfPlace h)
  have hv (target : Checked DataType) : Ensures (infer setting vars (valueTo target.value a))
      (Spares setting.signatures setting.cls vars (exprTargets a.value)) :=
    .infer fun valued h => spares_typeOf (bind_mistakes_eq_nil.1 h).1
  refine (ht.bind fun target => (hv target).followedBy fun t => ?_).mono
    fun ⟨ht, hv⟩ => spares_append ht hv
  refine (Ensures.annotate _ _).skip fun _ => ?_
  cases assignedVariable? vars a.target with
  | none => exact .pure ()
  | some v => exact .setValued _ _

/-- A loop that starts without mistakes declares no constant. -/
theorem checkLoopStart_spares (start : LoopStart) (vars : Variables) :
    Ensures (checkLoopStart setting start vars)
      (Spares setting.signatures setting.cls vars (startTargets start) ∧
        vars.inLoop start = vars.started start) := by
  unfold checkLoopStart
  cases start with
  | assign a => exact (checkAssignment_spares a vars).mono fun h => ⟨h, rfl⟩
  | declare d =>
    dsimp only
    by_cases hc : d.isConst
    · rw [if_pos hc]
      exact ((Ensures.mistake _ _).bind fun _ => checkDeclaration_spares _ vars).mono
        fun h => h.1.elim
    · rw [if_neg hc]
      have hd : loopVariable d = d := by
        rw [loopVariable, ← eq_false_of_ne_true hc]
      rw [hd, Variables.inLoop, hd]
      exact (checkDeclaration_spares d vars).mono fun h => ⟨h, rfl⟩

theorem checkLoopUpdate_spares (update : LoopUpdate) (vars : Variables) :
    Ensures (checkLoopUpdate setting update vars)
      (Spares setting.signatures setting.cls vars (updateTargets update)) := by
  unfold checkLoopUpdate
  cases update with
  | assign a => exact checkAssignment_spares a vars
  | postfixed target op span => exact checkExpr_spares vars (.postfixed target op span)

theorem checkLeave_spares (result : Result) (vars : Variables) (span : Span) (value : Option Expr) :
    Ensures (checkLeave setting result vars span value)
      (Spares setting.signatures setting.cls vars ((value.map exprTargets).getD [])) := by
  unfold checkLeave
  cases value with
  | none =>
    dsimp only
    split
    next => exact (Ensures.mistake _ _).mono False.elim
    next => exact (Ensures.pure ()).mono fun _ => spares_nil
  | some e =>
    refine (infer_spares vars e).followedBy fun t => ?_
    split
    next => exact (Ensures.mistake _ _).mono False.elim
    next => exact .pure ()

/-! ### Statements -/

section Statements

variable {result : Result}

mutual

theorem checkStmt_kept : ∀ (st : Stmt) (vars : Variables),
    Ensures (checkStmt setting result st vars)
      (Kept setting.signatures (stmtWrites setting.cls st vars))
  | .declare d, vars => by
    rw [checkStmt, stmtWrites]
    exact (checkDeclaration_spares d vars).mono fun h => h.kept vars
  | .assign a, vars => by
    rw [checkStmt, stmtWrites]
    exact (checkAssignment_spares a vars).mono fun h => h.kept vars
  | .evaluate e _, vars => by
    rw [checkStmt, stmtWrites]
    exact (checkExpr_spares vars e).mono fun h => h.kept vars
  | .print args _, vars => by
    rw [checkStmt, stmtWrites]
    have hi : Ensures (infer setting vars fun env => typesOf env args)
        (Spares setting.signatures setting.cls vars (listTargets args)) :=
      .infer fun valued h => spares_typesOf h
    exact (hi.followedBy fun _ => .pure ()).mono fun h => h.kept vars
  | .branch condition body elseIfs none _, vars => by
    rw [checkStmt, stmtWrites, List.append_nil]
    refine ((checkExpr_spares vars condition).bind fun _ => (checkBlock_kept body vars).bind
      fun _ => (checkElseIfs_kept elseIfs vars).followedBy fun _ => .pure ()).mono ?_
    rintro ⟨hc, hb, he⟩
    exact kept_append.2 ⟨kept_append.2 ⟨hc.kept vars, hb⟩, he⟩
  | .branch condition body elseIfs (some elseBody) _, vars => by
    rw [checkStmt, stmtWrites]
    refine ((checkExpr_spares vars condition).bind fun _ => (checkBlock_kept body vars).bind
      fun _ => (checkElseIfs_kept elseIfs vars).bind fun _ => checkBlock_kept elseBody vars).mono ?_
    rintro ⟨hc, hb, he, hl⟩
    exact kept_append.2 ⟨kept_append.2 ⟨kept_append.2 ⟨hc.kept vars, hb⟩, he⟩, hl⟩
  | .repeatWhile _ condition body _, vars => by
    rw [checkStmt, stmtWrites]
    refine ((checkExpr_spares vars condition).bind fun _ => checkBlock_kept body vars).mono ?_
    rintro ⟨hc, hb⟩
    exact kept_append.2 ⟨hc.kept vars, hb⟩
  | .count start condition update body _, vars => by
    rw [checkStmt, stmtWrites]
    refine ((checkLoopStart_spares start vars).bind fun _ =>
      (checkExpr_spares (vars.inLoop start) condition).bind fun _ =>
      (checkLoopUpdate_spares update (vars.inLoop start)).bind fun _ =>
      checkBlock_kept body (vars.inLoop start)).mono ?_
    rintro ⟨⟨hs, hv⟩, hc, hu, hb⟩
    rw [hv] at hc hu hb
    exact kept_append.2 ⟨kept_append.2 ⟨hs.kept vars, (spares_append hc hu).kept _⟩, hb⟩
  | .leave none _, vars => by
    rw [checkStmt, stmtWrites]
    exact (checkLeave_spares result vars _ none).mono fun _ => kept_nil
  | .leave (some e) _, vars => by
    rw [checkStmt, stmtWrites]
    exact (checkLeave_spares result vars _ (some e)).mono fun h => h.kept vars
  | .stop _, vars => by
    rw [checkStmt, stmtWrites]
    exact (Ensures.pure ()).mono fun _ => kept_nil

theorem checkBlock_kept : ∀ (b : Block) (vars : Variables),
    Ensures (checkBlock setting result b vars)
      (Kept setting.signatures (blockWrites setting.cls b vars))
  | ⟨body, _⟩, vars => by
    rw [checkBlock, blockWrites]
    exact checkStmts_kept body vars

theorem checkStmts_kept : ∀ (sts : List Stmt) (vars : Variables),
    Ensures (checkStmts setting result sts vars)
      (Kept setting.signatures (stmtsWrites setting.cls sts vars))
  | [], vars => by
    rw [checkStmts, stmtsWrites]
    exact (Ensures.pure ()).mono fun _ => kept_nil
  | st :: sts, vars => by
    rw [checkStmts, stmtsWrites]
    exact ((checkStmt_kept st vars).bind fun _ => checkStmts_kept sts (vars.after st)).mono
      kept_append.2

theorem checkElseIfs_kept : ∀ (es : List ElseIf) (vars : Variables),
    Ensures (checkElseIfs setting result es vars)
      (Kept setting.signatures (elseIfWrites setting.cls es vars))
  | [], vars => by
    rw [checkElseIfs, elseIfWrites]
    exact (Ensures.pure ()).mono fun _ => kept_nil
  | ⟨condition, body, _⟩ :: es, vars => by
    rw [checkElseIfs, elseIfWrites]
    refine ((checkExpr_spares vars condition).bind fun _ => (checkBlock_kept body vars).bind
      fun _ => checkElseIfs_kept es vars).mono ?_
    rintro ⟨hc, hb, hes⟩
    exact kept_append.2 ⟨kept_append.2 ⟨hc.kept vars, hb⟩, hes⟩

end

end Statements

/-! ### Functions and classes -/

theorem enterParams_true (ps : List Param) : Ensures (enterParams ps) True :=
  (Ensures.forM fun _ _ => .setValued _ true).mono fun _ => trivial

theorem checkFunction_kept (vars : Variables) (f : Function) :
    Ensures (checkFunction setting vars f)
      (Kept setting.signatures (functionWrites setting.cls vars f)) := by
  unfold checkFunction
  refine (enterParams_true f.params).skip fun _ => (checkBlock_kept f.body _).followedBy fun _ => ?_
  split
  next => exact (Ensures.mistake _ _).mono False.elim
  next => exact .pure ()

/-- A value spares the constants among the variables that are declared before it. -/
theorem checkDeclarations_kept (visible : Variables) (ds : List Declaration) (vars : Variables) :
    Ensures (checkDeclarations setting ds vars)
      (Kept setting.signatures (initialiserWrites setting.cls visible ds vars)) := by
  induction ds generalizing vars with
  | nil => exact (Ensures.pure ()).mono fun _ => kept_nil
  | cons d ds ih =>
    rw [checkDeclarations, initialiserWrites]
    refine ((checkDeclaration_spares d vars).bind fun _ => ih (vars.declare d)).mono ?_
    rintro ⟨hd, hds⟩
    exact kept_append.2 ⟨hd.kept visible, hds⟩

theorem checkClass_kept (signatures : Signatures) (c : Class) :
    Ensures (checkClass signatures c)
      (Kept signatures
          (initialiserWrites (some c.name.value) c.vars c.properties c.paramVars) ∧
        Kept signatures (c.methods.flatMap (functionWrites (some c.name.value) c.vars))) := by
  unfold checkClass
  refine (enterParams_true c.params).skip fun _ =>
    (checkDeclarations_kept c.vars c.properties c.paramVars).bind fun _ => ?_
  refine (Ensures.forM fun f _ => checkFunction_kept c.vars f).mono fun h => ?_
  exact kept_flatMap.2 h

theorem checkProgram_kept (p : Program) :
    Ensures (checkProgram p) (Kept (Signatures.ofProgram p) p.writes) := by
  unfold checkProgram
  refine ((checkDeclarations_kept p.globalVars p.globals .empty).bind fun _ =>
    (Ensures.forM fun f _ => checkFunction_kept p.globalVars f).bind fun _ =>
    Ensures.forM fun c _ => checkClass_kept (Signatures.ofProgram p) c).mono ?_
  rintro ⟨hg, hf, hc⟩
  refine kept_append.2 ⟨kept_append.2 ⟨hg, ?_⟩, kept_append.2 ⟨kept_flatMap.2 hf, ?_⟩⟩
  · exact kept_flatMap.2 fun c h => (hc c h).1
  · exact kept_flatMap.2 fun c h => (hc c h).2

end Uwu.Typing
