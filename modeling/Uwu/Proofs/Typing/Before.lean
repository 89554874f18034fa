import Uwu.Proofs.Typing.Beside
import Uwu.Proofs.Typing.Setters
import Uwu.Proofs.Typing.Signatures

/-! What is declared before a step. Every variable that a view of a program can see is declared by a
step before it: a global, a property or a parameter, or a declaration at a point before it. -/

namespace Uwu

open Typing

/-! ### What comes before -/

/-- What each element needs is at these sites, or is given by the elements before it. -/
def Supplied {α : Type} (needs gives : α → List Span) (sites : List Span) : List α → Prop
  | [] => True
  | x :: xs => needs x ⊆ sites ∧ Supplied needs gives (sites ++ gives x) xs

section Supplied

variable {α : Type} {needs gives : α → List Span} {sites more : List Span} {xs ys : List α}

theorem Supplied.mono (h : Supplied needs gives sites xs) (hs : sites ⊆ more) :
    Supplied needs gives more xs := by
  induction xs generalizing sites more with
  | nil => trivial
  | cons x xs ih =>
    exact ⟨List.Subset.trans h.1 hs, ih h.2 (List.append_subset.2
      ⟨List.subset_append_of_subset_left _ hs, List.subset_append_right _ _⟩)⟩

theorem Supplied.append (h : Supplied needs gives sites xs)
    (hy : Supplied needs gives (sites ++ xs.flatMap gives) ys) :
    Supplied needs gives sites (xs ++ ys) := by
  induction xs generalizing sites with
  | nil => rwa [List.flatMap_nil, List.append_nil] at hy
  | cons x xs ih =>
    rw [List.flatMap_cons, ← List.append_assoc] at hy
    exact ⟨h.1, ih h.2 hy⟩

theorem Supplied.mono_gives {gives' : α → List Span} (h : Supplied needs gives sites xs)
    (hg : ∀ x, gives x ⊆ gives' x) : Supplied needs gives' sites xs := by
  induction xs generalizing sites with
  | nil => trivial
  | cons x xs ih =>
    exact ⟨h.1, ih (h.2.mono (List.append_subset.2
      ⟨List.subset_append_left _ _, List.subset_append_of_subset_right _ (hg x)⟩))⟩

theorem Supplied.needs_subset {x : α} (h : Supplied needs gives sites (xs ++ x :: ys)) :
    needs x ⊆ sites ++ xs.flatMap gives := by
  induction xs generalizing sites with
  | nil =>
    rw [List.flatMap_nil, List.append_nil]
    exact h.1
  | cons y xs ih =>
    rw [List.flatMap_cons, ← List.append_assoc]
    exact ih h.2

end Supplied

/-! ### What is declared before a point -/

/-- The sites of what a clause declares. -/
def Point.declared (pt : Point) : List Span :=
  pt.clause.declarations.map fun d => d.name.span

/-- The sites of what stands before a point. -/
def Point.sitesBefore (pt : Point) : List Span :=
  pt.before.map fun d => d.name.span

/-- What stands before the points is at these sites, or is declared by the points before. -/
abbrev Ordered : List Span → List Point → Prop :=
  Supplied Point.sitesBefore Point.declared

section Points

variable {sites : List Span} {pts : List Point}

theorem ordered_here {c : Clause} (h : ∀ more, Ordered more pts) : Ordered sites (.here c :: pts) :=
  ⟨List.nil_subset _, h _⟩

theorem ordered_single {c : Clause} : Ordered sites [.here c] :=
  ordered_here fun _ => trivial

theorem ordered_behind {ds : List Declaration} (h : Ordered sites pts)
    (hd : (ds.map fun d => d.name.span) ⊆ sites) : Ordered sites (pts.map (Point.behind ds)) := by
  induction pts generalizing sites with
  | nil => trivial
  | cons pt pts ih =>
    refine ⟨?_, ih h.2 (List.subset_append_of_subset_left _ hd)⟩
    rw [Point.sitesBefore, Point.behind, List.map_append]
    exact List.append_subset.2 ⟨hd, h.1⟩

theorem Stmt.declared_points (st : Stmt) :
    (st.declarations.map fun d => d.name.span) ⊆ st.points.flatMap Point.declared := by
  cases st with
  | declare d =>
    rw [Stmt.points]
    exact List.Subset.refl _
  | _ => exact List.nil_subset _

mutual

theorem Stmt.ordered : ∀ (st : Stmt) (sites : List Span), Ordered sites st.points
  | .declare _, _ | .assign _, _ | .evaluate _ _, _ | .print _ _, _ | .leave _ _, _
  | .stop _, _ => by
    rw [Stmt.points]
    exact ordered_single
  | .branch condition body elseIfs none _, sites => by
    rw [Stmt.points, List.append_nil]
    exact ordered_here fun _ => (Block.ordered body _).append (elseIfs_ordered elseIfs _)
  | .branch condition body elseIfs (some b) _, sites => by
    rw [Stmt.points]
    exact ordered_here fun _ =>
      ((Block.ordered body _).append (elseIfs_ordered elseIfs _)).append (Block.ordered b _)
  | .repeatWhile _ condition body _, sites => by
    rw [Stmt.points]
    exact ordered_here (Block.ordered body)
  | .count start condition update body _, sites => by
    rw [Stmt.points]
    have hbody (sites : List Span) : Ordered sites
        (.here (.evaluate condition) :: .here (.update update) :: body.points) :=
      ordered_here fun _ => ordered_here (Block.ordered body)
    exact ⟨List.nil_subset _, ordered_behind (hbody _) (List.subset_append_right _ _)⟩

theorem Block.ordered : ∀ (b : Block) (sites : List Span), Ordered sites b.points
  | ⟨body, _⟩, sites => by
    rw [Block.points]
    exact stmts_ordered body sites

theorem stmts_ordered : ∀ (sts : List Stmt) (sites : List Span), Ordered sites (stmtsPoints sts)
  | [], _ => by
    rw [stmtsPoints]
    exact ordered_single
  | st :: sts, sites => by
    rw [stmtsPoints]
    exact (Stmt.ordered st sites).append (ordered_behind (stmts_ordered sts _)
      (List.subset_append_of_subset_right _ st.declared_points))

theorem elseIfs_ordered : ∀ (es : List ElseIf) (sites : List Span), Ordered sites (elseIfPoints es)
  | [], _ => by
    rw [elseIfPoints]
    trivial
  | ⟨condition, body, _⟩ :: es, sites => by
    rw [elseIfPoints]
    exact ordered_here fun _ => (Block.ordered body _).append (elseIfs_ordered es _)

end

end Points

theorem site_of_declareAll {ds : List Declaration} {vars : Variables} {name : String}
    {v : Variable} (h : (ds.foldl Variables.declare vars).get? name = some v) :
    vars.get? name = some v ∨ v.site ∈ ds.map fun d => d.name.span := by
  have hget := Signatures.mem_of_foldl_addNew (fun d : Declaration => d.name.value)
    (fun d => (⟨d.type, d.isConst, d.name.span⟩ : Variable)) h
  refine hget.imp_right fun hv => ?_
  obtain ⟨d, hd, rfl⟩ := List.mem_map.1 hv
  exact List.mem_map_of_mem hd

theorem site_of_declareParams {ps : List Param} {vars : Variables} {name : String}
    {v : Variable} (h : (ps.foldl Variables.declareParam vars).get? name = some v) :
    vars.get? name = some v ∨ v.site ∈ ps.map fun q => q.name.span := by
  have hget := Signatures.mem_of_foldl_addNew (fun q : Param => q.name.value)
    (fun q => (⟨q.type, false, q.name.span⟩ : Variable)) h
  refine hget.imp_right fun hv => ?_
  obtain ⟨q, hq, rfl⟩ := List.mem_map.1 hv
  exact List.mem_map_of_mem hq

/-! ### What is declared before a step -/

namespace Step

/-- The sites of the variables that a view has under the names that are looked up there. -/
def sees (names : Clause → List String) : Step → List Span
  | view v => (names v.clause).filterMap fun n => (v.vars.get? n).map Variable.site
  | enter _ | leave _ => []

/-- The sites of the variables that a step declares. -/
def declares : Step → List Span
  | enter ps => ps.map fun q => q.name.span
  | view v => v.clause.declarations.map fun d => d.name.span
  | leave _ => []

end Step

section Steps

variable {p : Program} {cls : Option Class} {names : Clause → List String} {sites : List Span}

theorem supplied_points {b : Body} {pts : List Point} (h : Ordered sites pts)
    (hv : ∀ pt ∈ pts, ∀ n ∈ names pt.clause, ∀ v,
      (b.function.params.foldl Variables.declareParam (p.varsIn b.cls)).get? n = some v →
        v.site ∈ sites) :
    Supplied (Step.sees names) Step.declares sites ((pts.map (b.view p)).map .view) := by
  induction pts generalizing sites with
  | nil => trivial
  | cons pt pts ih =>
    refine ⟨?_, ih h.2 fun qt hq n hn v hget =>
      List.mem_append_left _ (hv qt (List.mem_cons_of_mem pt hq) n hn v hget)⟩
    intro site hsite
    obtain ⟨n, hn, hsite⟩ := List.mem_filterMap.1 hsite
    obtain ⟨v, hget, rfl⟩ := Option.map_eq_some_iff.1 hsite
    rcases site_of_declareAll hget with hv' | hd
    · exact hv pt List.mem_cons_self n hn v hv'
    · exact h.1 hd

/-- All that a body sees is declared before, if the variables that it begins with are. -/
theorem supplied_body (b : Body) (h : ∀ pt ∈ b.function.body.points, ∀ n ∈ names pt.clause, ∀ v,
    (p.varsIn b.cls).get? n = some v → v.site ∈ sites) :
    Supplied (Step.sees names) Step.declares sites (b.steps p) := by
  refine ⟨List.nil_subset _, ?_⟩
  have hpoints : Supplied (Step.sees names) Step.declares
      (sites ++ b.function.params.map fun q => q.name.span)
      ((b.function.body.points.map (b.view p)).map .view) :=
    supplied_points (b.function.body.ordered _) fun pt hpt n hn v hget => by
      rcases site_of_declareParams hget with hv | hp
      · exact List.mem_append_left _ (h pt hpt n hn v hv)
      · exact List.mem_append_right _ hp
  exact hpoints.append ⟨List.nil_subset _, trivial⟩

theorem supplied_initialisers (scope : Scope) {ds : List Declaration} {vars : Variables}
    (h : ∀ n v, vars.get? n = some v → v.site ∈ sites) :
    Supplied (Step.sees names) Step.declares sites
      ((initialiserViews cls scope ds vars).map .view) := by
  induction ds generalizing vars sites with
  | nil => trivial
  | cons d ds ih =>
    refine ⟨?_, ih fun n v hget => ?_⟩
    · intro site hsite
      obtain ⟨n, -, hsite⟩ := List.mem_filterMap.1 hsite
      obtain ⟨v, hget, rfl⟩ := Option.map_eq_some_iff.1 hsite
      exact h n v hget
    · have hd : ([d].foldl Variables.declare vars).get? n = some v := hget
      rcases site_of_declareAll hd with hv | hd
      · exact List.mem_append_left _ (h n v hv)
      · exact List.mem_append_right _ hd

theorem supplied_functions (cls : Option Class) {fs : List Function}
    (h : ∀ f ∈ fs, ∀ pt ∈ f.body.points, ∀ n ∈ names pt.clause, ∀ v,
      (p.varsIn cls).get? n = some v → v.site ∈ sites) :
    Supplied (Step.sees names) Step.declares sites (functionSteps p cls fs) := by
  induction fs generalizing sites with
  | nil => trivial
  | cons f fs ih =>
    obtain ⟨hf, hfs⟩ := List.forall_mem_cons.1 h
    exact (supplied_body ⟨f, cls⟩ hf).append (ih fun g hg pt hpt n hn v hget =>
      List.mem_append_left _ (hfs g hg pt hpt n hn v hget))

theorem declares_initialisers (scope : Scope) (ds : List Declaration) (vars : Variables) :
    ((initialiserViews cls scope ds vars).map Step.view).flatMap Step.declares =
      ds.map fun d => d.name.span := by
  induction ds generalizing vars with
  | nil => rfl
  | cons d ds ih =>
    rw [initialiserViews, List.map_cons, List.flatMap_cons, ih]
    rfl

/-- A class sees no more variables than it declares. -/
theorem supplied_class (c : Class) :
    Supplied (Step.sees names) Step.declares sites (c.steps p) := by
  refine ⟨List.nil_subset _, (supplied_initialisers c.scope fun n v hget => ?_).append
    (supplied_functions _ fun f _ _ _ n _ v hget => ?_)⟩
  · have hparams := (site_of_declareParams hget).resolve_left (nomatch ·)
    exact List.mem_append_right _ hparams
  · rw [declares_initialisers]
    rcases site_of_declareAll hget with hv | hd
    · have hparams := (site_of_declareParams hv).resolve_left (nomatch ·)
      exact List.mem_append_left _ (List.mem_append_right _ hparams)
    · exact List.mem_append_right _ hd

theorem supplied_classes (cs : List Class) :
    Supplied (Step.sees names) Step.declares sites (classSteps p cs) := by
  induction cs generalizing sites with
  | nil => trivial
  | cons c cs ih => exact (supplied_class c).append ih

/-- All variables that a view sees are declared before it. -/
theorem supplied_steps (p : Program) :
    Supplied (Step.sees names) Step.declares [] p.steps := by
  have hglobals : Supplied (Step.sees names) Step.declares [] (p.initialisers.map .view) :=
    supplied_initialisers p.scope fun n v hget => nomatch hget
  have hdeclares : (p.initialisers.map Step.view).flatMap Step.declares =
      p.globals.map fun d => d.name.span := declares_initialisers p.scope p.globals .empty
  refine hglobals.append (.append ?_ (supplied_classes p.classes))
  refine supplied_functions none fun f _ _ _ n _ v hget => ?_
  rw [hdeclares]
  exact List.mem_append_right _ ((site_of_declareAll hget).resolve_left (nomatch ·))

theorem Clause.sites_declarations (c : Clause) :
    (c.declarations.map fun d => d.name.span) = (c.setter?.bind Setter.site?).toList := by
  cases c with
  | start st => cases st <;> rfl
  | update u => cases u <;> rfl
  | _ => rfl

theorem declares_body (b : Body) :
    (b.steps p).flatMap Step.declares = b.function.variableSites := by
  have hviews : ((b.views p).map Step.view).flatMap Step.declares =
      b.function.body.setters.filterMap Setter.site? := by
    rw [← Body.setters_views p, List.filterMap_filterMap, List.filterMap_eq_flatMap_toList,
      List.flatMap_map]
    simp only [Step.declares, Clause.sites_declarations, View.setter?]
  rw [Body.steps, List.flatMap_cons, List.flatMap_append, hviews, List.flatMap_singleton]
  exact congrArg _ (List.append_nil _)

theorem declares_functions (cls : Option Class) (fs : List Function) :
    (functionSteps p cls fs).flatMap Step.declares = fs.flatMap Function.variableSites := by
  rw [functionSteps, List.flatMap_map, List.flatMap_assoc]
  simp only [declares_body]

theorem declares_class (c : Class) : (c.steps p).flatMap Step.declares = c.variableSites := by
  have hproperties : (c.initialisers.map Step.view).flatMap Step.declares =
      c.properties.map fun d => d.name.span :=
    declares_initialisers c.scope c.properties c.paramVars
  have hmethods : (c.bodies.flatMap (Body.steps p)).flatMap Step.declares =
      c.methods.flatMap Function.variableSites := declares_functions (some c) c.methods
  rw [Class.steps, List.flatMap_cons, List.flatMap_append, hproperties, hmethods]
  rfl

/-- The steps of a program declare its variables in their order. -/
theorem declares_steps (p : Program) : p.steps.flatMap Step.declares = p.variableSites := by
  have hglobals : (p.initialisers.map Step.view).flatMap Step.declares =
      p.globals.map fun d => d.name.span := declares_initialisers p.scope p.globals .empty
  have hfunctions : (p.functionBodies.flatMap (Body.steps p)).flatMap Step.declares =
      p.functionsAndEntry.flatMap Function.variableSites :=
    declares_functions none p.functionsAndEntry
  rw [Program.steps, List.flatMap_append, List.flatMap_append, hglobals, hfunctions,
    List.flatMap_assoc]
  simp only [declares_class]
  rfl

end Steps

end Uwu
