import Mathlib.Data.List.Forall2
import Uwu.Proofs.Scope.Views

/-! Programs side by side. Places of two programs where the class, the function and the variables are
the same are checked in the same way, whatever else the programs are. -/

namespace Uwu

open Typing

def Function.withBody (f : Function) (body : Block) : Function :=
  { f with body }

/-- The views are at places that are checked in the same way. -/
structure View.Beside (v v' : View) : Prop where
  cls : (v'.cls.map fun c => c.name.value) = v.cls.map fun c => c.name.value
  result : v'.result = v.result
  vars : v'.vars = v.vars

/-- Both steps do the same. -/
inductive Step.Like : Step → Step → Prop
  | enter (ps : List Param) : Step.Like (.enter ps) (.enter ps)
  | view {v v' : View} (h : v.Beside v') (hc : v'.clause = v.clause) :
      Step.Like (.view v) (.view v')
  | leave {f f' : Function} (hn : f'.name = f.name) (ht : f'.returnType = f.returnType)
      (hr : f'.body.returns = f.body.returns) : Step.Like (.leave f) (.leave f')

/-- Bodies of a class, or of none, begin with the same variables in both programs. -/
structure Program.Beside (p p' : Program) (cls cls' : Option Class) : Prop where
  vars : p'.varsIn cls' = p.varsIn cls
  cls : (cls'.map fun c => c.name.value) = cls.map fun c => c.name.value

section Programs

variable {p p' : Program} {cls cls' : Option Class}

theorem Body.view_beside (hp : p.Beside p' cls cls') (f : Function) (body : Block) {pt pt' : Point}
    (hv : ∀ vars, pt'.vars vars = pt.vars vars) :
    (Body.view p ⟨f, cls⟩ pt).Beside (Body.view p' ⟨f.withBody body, cls'⟩ pt') where
  cls := hp.cls
  result := rfl
  vars := by
    change pt'.vars _ = pt.vars _
    rw [hv, hp.vars]
    rfl

theorem Body.steps_like (hp : p.Beside p' cls cls') (f : Function) :
    List.Forall₂ Step.Like (Body.steps p ⟨f, cls⟩) (Body.steps p' ⟨f, cls'⟩) := by
  rw [steps, steps, views, views, List.map_map, List.map_map]
  refine .cons (.enter _) (List.rel_append ?_ (.cons (.leave rfl rfl rfl) .nil))
  rw [List.forall₂_map_left_iff, List.forall₂_map_right_iff]
  exact List.forall₂_same.2 fun pt _ => .view (view_beside hp f f.body fun _ => rfl) rfl

/-! ### Bodies of a class or of none -/

variable (p cls) in
/-- The checks of functions, one after the other. -/
def functionSteps (fs : List Function) : List Step :=
  (fs.map fun f => (⟨f, cls⟩ : Body)).flatMap (Body.steps p)

theorem functionSteps_like (hp : p.Beside p' cls cls') (fs : List Function) :
    List.Forall₂ Step.Like (functionSteps p cls fs) (functionSteps p' cls' fs) := by
  rw [functionSteps, functionSteps, List.flatMap_map, List.flatMap_map]
  refine List.rel_flatMap (R := Eq) (List.forall₂_refl fs) ?_
  rintro f _ rfl
  exact Body.steps_like hp f

theorem functionSteps_append (fs gs : List Function) :
    functionSteps p cls (fs ++ gs) = functionSteps p cls fs ++ functionSteps p cls gs := by
  rw [functionSteps, List.map_append, List.flatMap_append]
  rfl

/-! ### Initialisers -/

theorem initialisers_like (hc : (cls'.map fun c => c.name.value) = cls.map fun c => c.name.value)
    (scope scope' : Scope) (ds : List Declaration) (vars : Variables) :
    List.Forall₂ Step.Like ((initialiserViews cls scope ds vars).map .view)
      ((initialiserViews cls' scope' ds vars).map .view) := by
  induction ds generalizing vars with
  | nil => exact .nil
  | cons d ds ih => exact .cons (.view ⟨hc, rfl, rfl⟩ rfl) (ih (vars.declare d))

/-! ### Classes -/

theorem Class.steps_like (c : Class) : List.Forall₂ Step.Like (c.steps p) (c.steps p') := by
  have hp : p.Beside p' (some c) (some c) := ⟨rfl, rfl⟩
  exact .cons (.enter _) (List.rel_append (initialisers_like rfl _ _ _ _)
    (functionSteps_like hp c.methods))

variable (p) in
def classSteps (cs : List Class) : List Step :=
  cs.flatMap (Class.steps p)

theorem classSteps_like (cs : List Class) :
    List.Forall₂ Step.Like (classSteps p cs) (classSteps p' cs) := by
  refine List.rel_flatMap (R := Eq) (List.forall₂_refl cs) ?_
  rintro c _ rfl
  exact c.steps_like

end Programs

end Uwu
