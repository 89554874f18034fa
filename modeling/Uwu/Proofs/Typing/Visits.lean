import Uwu.Proofs.Scope.Views
import Uwu.Proofs.Typing.Bodies
import Uwu.Proofs.Typing.Links

/-! Visits: the views of a program in the order in which they are checked, each with the variables
that hold a value there. Where the check of a program finds no mistake, there is none at a visit. -/

namespace Uwu

namespace Typing

/-! ### Checks of a clause -/

section Finds

variable {α β : Type} {P Q : List Span → Prop}

/-- Where `c` ends without mistakes it began without any, and `P` holds of the variables with a
value where it began. -/
def Finds (c : Check α) (P : List Span → Prop) : Prop :=
  ∀ s, (c s).2.mistakes = [] → s.mistakes = [] ∧ P s.valued

/-- No variable is given a value or loses it. -/
def Still (c : Check α) : Prop :=
  ∀ s, (c s).2.valued = s.valued

namespace Finds

theorem mono {c : Check α} (h : Finds c P) (hpq : ∀ valued, P valued → Q valued) : Finds c Q :=
  fun s hs => ⟨(h s hs).1, hpq _ (h s hs).2⟩

theorem of_ensures {c : Check α} (h : Ensures c True) (hp : ∀ valued, P valued) : Finds c P :=
  fun s hs => ⟨(h s hs).1, hp _⟩

theorem infer {setting : Setting} {vars : Variables} {check : Env → Checked α}
    (h : ∀ valued, (check ⟨setting.signatures, setting.cls, vars, valued⟩).mistakes = [] →
      P valued) : Finds (infer setting vars check) P := by
  intro s hs
  obtain ⟨hb, hc⟩ := List.append_eq_nil_iff.1 hs
  exact ⟨hb, h s.valued hc⟩

theorem bind {c : Check α} {f : α → Check β} (h : Finds c P) (hc : Still c)
    (hf : ∀ a, Finds (f a) Q) : Finds (c >>= f) fun valued => P valued ∧ Q valued := by
  intro s hs
  obtain ⟨hm, hq⟩ := hf (c s).1 (c s).2 hs
  obtain ⟨hb, hp⟩ := h s hm
  rw [hc s] at hq
  exact ⟨hb, hp, hq⟩

/-- A step after `c` of which nothing is asked. -/
theorem followedBy {c : Check α} {f : α → Check β} (h : Finds c P)
    (hf : ∀ a, Ensures (f a) True) : Finds (c >>= f) P := by
  intro s hs
  exact h s (hf (c s).1 (c s).2 hs).1

/-- A step `c` of which nothing is asked. -/
theorem skip {c : Check α} {f : α → Check β} (h : Ensures c True) (hc : Still c)
    (hf : ∀ a, Finds (f a) Q) : Finds (c >>= f) Q := by
  intro s hs
  obtain ⟨hm, hq⟩ := hf (c s).1 (c s).2 hs
  rw [hc s] at hq
  exact ⟨(h s hm).1, hq⟩

end Finds

theorem still_infer (setting : Setting) (vars : Variables) (check : Env → Checked α) :
    Still (infer setting vars check) :=
  fun _ => rfl

end Finds

section Clauses

variable {setting : Setting}

/-- The roots are clean wherever the variables with a value are these. -/
def CleanAt (setting : Setting) (vars : Variables) (rs : List Root) (valued : List Span) : Prop :=
  CleanRoots ⟨setting.signatures, setting.cls, vars, valued⟩ rs

theorem checkExpr_finds (vars : Variables) (e : Expr) :
    Finds (checkExpr setting vars e) (CleanAt setting vars e.roots) := by
  unfold checkExpr
  exact (Finds.infer fun _ => clean_typeOf).followedBy fun _ => .pure ()

theorem checkDeclaration_finds (d : Declaration) (vars : Variables) :
    Finds (checkDeclaration setting d vars) (CleanAt setting vars d.roots) := by
  unfold checkDeclaration Declaration.roots
  cases d.value with
  | none =>
    exact Finds.of_ensures ((Ensures.pure false).skip fun _ => .setValued _ _)
      fun _ => cleanRoots_nil
  | some e =>
    have hi : Finds (infer setting vars (valueFor d.type e)) (CleanAt setting vars e.roots) :=
      .infer fun _ h => clean_typeOf (bind_mistakes_eq_nil.1 h).1
    exact hi.followedBy fun _ => (Ensures.annotate _ _).skip fun _ =>
      (Ensures.pure _).skip fun _ => .setValued _ _

theorem checkAssignment_finds (a : Assignment) (vars : Variables) :
    Finds (checkAssignment setting a vars) (CleanAt setting vars a.roots) := by
  unfold checkAssignment
  have ht : Finds (infer setting vars fun env => typeOfPlace env .write a.target)
      (CleanAt setting vars a.target.roots) := .infer fun _ => clean_typeOfPlace
  have hv (target : Checked DataType) : Finds (infer setting vars (valueTo target.value a))
      (CleanAt setting vars a.value.roots) :=
    .infer fun _ h => clean_typeOf (bind_mistakes_eq_nil.1 h).1
  refine (ht.bind (still_infer _ _ _) fun target => (hv target).followedBy fun t => ?_).mono
    fun _ ⟨h, hs⟩ => cleanRoots_append h hs
  refine (Ensures.annotate _ _).skip fun _ => ?_
  split
  next => exact .setValued _ _
  next => exact .pure ()

theorem checkLoopStart_finds (start : LoopStart) (vars : Variables) :
    Finds (checkLoopStart setting start vars) (CleanAt setting vars start.roots) := by
  cases start with
  | assign a => exact checkAssignment_finds a vars
  | declare d =>
    have hd : Finds (checkDeclaration setting (loopVariable d) vars)
        (CleanAt setting vars d.roots) := checkDeclaration_finds (loopVariable d) vars
    unfold checkLoopStart
    dsimp only
    split
    next => exact .skip ((Ensures.mistake _ _).mono False.elim) (fun _ => rfl) fun _ => hd
    next => exact hd

theorem checkLoopUpdate_finds (update : LoopUpdate) (vars : Variables) :
    Finds (checkLoopUpdate setting update vars) (CleanAt setting vars update.roots) := by
  cases update with
  | assign a => exact checkAssignment_finds a vars
  | postfixed target op span => exact checkExpr_finds vars (.postfixed target op span)

theorem checkLeave_finds (result : Result) (vars : Variables) (span : Span) (value : Option Expr) :
    Finds (checkLeave setting result vars span value)
      (CleanAt setting vars ((value.map Expr.roots).getD [])) := by
  unfold checkLeave
  cases value with
  | none =>
    refine .of_ensures ?_ fun _ => cleanRoots_nil
    dsimp only
    split
    next => exact (Ensures.mistake _ _).mono False.elim
    next => exact .pure ()
  | some e =>
    have hi : Finds (infer setting vars fun env => typeOf env e) (CleanAt setting vars e.roots) :=
      .infer fun _ => clean_typeOf
    refine hi.followedBy fun t => ?_
    split
    next => exact (Ensures.mistake _ _).mono False.elim
    next => exact .pure ()

theorem Clause.check_finds (result : Result) (c : Clause) (vars : Variables) :
    Finds (c.check setting result vars) (CleanAt setting vars c.roots) := by
  cases c with
  | declare d => exact checkDeclaration_finds d vars
  | assign a => exact checkAssignment_finds a vars
  | evaluate e => exact checkExpr_finds vars e
  | print args =>
    have hi : Finds (infer setting vars fun env => typesOf env args)
        (CleanAt setting vars (exprRoots args)) := .infer fun _ => clean_typesOf
    exact hi.followedBy fun _ => .pure ()
  | start st => exact checkLoopStart_finds st vars
  | update u => exact checkLoopUpdate_finds u vars
  | leave value span => exact checkLeave_finds result vars span value
  | stop | blockEnd => exact .of_ensures (.pure ()) fun _ => cleanRoots_nil

end Clauses

end Typing

open Typing

/-! ### Visits -/

/-- A view, with the variables that hold a value when it is checked. -/
structure Visit where
  view : View
  valued : List Span

/-- What the types of expressions at a visit depend on. -/
def Visit.env (p : Program) (x : Visit) : Env :=
  ⟨Signatures.ofProgram p, x.view.cls.map fun c => c.name.value, x.view.vars, x.valued⟩

def Step.visits (s : State) : Step → List Visit
  | view v => [⟨v, s.valued⟩]
  | enter _ | leave _ => []

/-- The visits of steps that begin in a state. -/
def visitsFrom (p : Program) : List Step → State → List Visit
  | [], _ => []
  | st :: sts, s => st.visits s ++ visitsFrom p sts (st.run p s).2

def Program.visits (p : Program) : List Visit :=
  visitsFrom p p.steps .initial

section Visits

variable {p : Program}

/-- What one step finds. -/
theorem Step.run_finds (st : Step) : Finds (st.run p) fun valued =>
    ∀ v, st = .view v → CleanRoots (Visit.env p ⟨v, valued⟩) v.clause.roots := by
  cases st with
  | enter ps => exact .of_ensures (enterParams_true ps) fun _ _ hv => nomatch hv
  | view v =>
    refine (Clause.check_finds v.result v.clause v.vars).mono fun valued h => ?_
    rintro u ⟨⟩
    exact h
  | leave f =>
    refine .of_ensures ?_ fun _ _ hv => nomatch hv
    change Ensures (checkReturn f) True
    unfold checkReturn
    split
    next => exact (Ensures.mistake _ _).mono False.elim
    next => exact .pure ()

/-- Where steps end without mistakes, the roots at their visits have none. -/
theorem clean_visitsFrom (sts : List Step) (s : State)
    (h : ((sts.forM (Step.run p)) s).2.mistakes = []) :
    s.mistakes = [] ∧ ∀ x ∈ visitsFrom p sts s, CleanRoots (x.env p) x.view.clause.roots := by
  induction sts generalizing s with
  | nil => exact ⟨h, List.forall_mem_nil _⟩
  | cons st sts ih =>
    obtain ⟨hm, hxs⟩ := ih (st.run p s).2 h
    obtain ⟨hs, hx⟩ := st.run_finds s hm
    refine ⟨hs, List.forall_mem_append.2 ⟨?_, hxs⟩⟩
    cases st with
    | enter | leave => exact List.forall_mem_nil _
    | view v => exact List.forall_mem_singleton.2 (hx v rfl)

theorem clean_visits (h : p.checkTypes.mistakes = []) :
    ∀ x ∈ p.visits, CleanRoots (x.env p) x.view.clause.roots := by
  rw [Program.checkTypes, checkProgram_eq] at h
  exact (clean_visitsFrom p.steps .initial h).2

def Step.view? : Step → Option View
  | view v => some v
  | enter _ | leave _ => none

theorem view_visitsFrom (sts : List Step) (s : State) :
    (visitsFrom p sts s).map Visit.view = sts.filterMap Step.view? := by
  induction sts generalizing s with
  | nil => rfl
  | cons st sts ih =>
    rw [visitsFrom, List.map_append, ih]
    cases st <;> rfl

theorem view?_map (vs : List View) : (vs.map Step.view).filterMap Step.view? = vs := by
  induction vs with
  | nil => rfl
  | cons v vs ih => rw [List.map_cons, List.filterMap_cons, ih]; rfl

/-- Every view is visited, in the order of the check. -/
theorem view_visits : p.visits.map Visit.view = p.views := by
  have hb (bs : List Body) :
      (bs.flatMap (Body.steps p)).filterMap Step.view? = bs.flatMap (Body.views p) := by
    rw [List.filterMap_flatMap]
    congr 1
    refine funext fun b => ?_
    change (((b.views p).map Step.view) ++ [Step.leave b.function]).filterMap Step.view? = b.views p
    rw [List.filterMap_append, view?_map]
    exact List.append_nil _
  have hc (cs : List Class) : (cs.flatMap (Class.steps p)).filterMap Step.view? =
      cs.flatMap fun c => c.initialisers ++ c.bodies.flatMap (Body.views p) := by
    rw [List.filterMap_flatMap]
    congr 1
    refine funext fun c => ?_
    change (c.initialisers.map Step.view ++ c.bodies.flatMap (Body.steps p)).filterMap
      Step.view? = _
    rw [List.filterMap_append, view?_map, hb]
  rw [Program.visits, view_visitsFrom, Program.steps, Program.views, List.filterMap_append,
    List.filterMap_append, view?_map, hb, hc]

end Visits

end Uwu
