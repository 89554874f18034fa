import Uwu.Proofs.Grammar.Onsets
import Uwu.Proofs.Typing.Effects

/-! Annotations: the types of values, by the spans of the values. The check of types annotates every
value of a program once, where it visits it, and nothing else. -/

namespace Uwu

open Typing

namespace Typing

/-! ### Annotations of a clause -/

/-- Annotations after one more; it takes the place of another with its span. -/
def annotated (as : List (Span × DataType)) (a : Span × DataType) : List (Span × DataType) :=
  as.filter (fun b => b.1 != a.1) ++ [a]

/-- The annotation of a value where it has its type from `env`. -/
def typedSpan (env : Env) (e : Expr) : Span × DataType :=
  (e.span, (typeOf env e).value)

/-- Where `c` runs, the annotation is added, if there is one. -/
def Annotates (setting : Setting) (vars : Variables) (c : Check Unit)
    (a : Env → Option (Span × DataType)) : Prop :=
  ∀ s, (c s).2.annotations = (a (setting.env vars s)).toList.foldl annotated s.annotations

theorem value_valueFor (expected : DataType) (e : Expr) (env : Env) :
    (valueFor expected e env).value = (typeOf env e).value := by
  rw [valueFor, Checked.value_bind]
  dsimp only
  split <;> rfl

theorem value_valueTo (target : DataType) (a : Assignment) (env : Env) :
    (valueTo target a env).value = (typeOf env a.value).value := by
  rw [valueTo, Checked.value_bind]
  dsimp only
  split
  all_goals
    rw [Checked.value_bind]
    split <;> rfl

section Clauses

variable (setting : Setting) (vars : Variables)

theorem checkExpr_annotates (e : Expr) :
    Annotates setting vars (checkExpr setting vars e) fun _ => none :=
  fun _ => rfl

theorem checkDeclaration_annotates (d : Declaration) :
    Annotates setting vars (checkDeclaration setting d vars)
      fun env => d.value.map (typedSpan env) := by
  intro s
  obtain ⟨name, type, isConst, value, span⟩ := d
  cases value with
  | none => rfl
  | some e =>
    change _ = annotated s.annotations (typedSpan (setting.env vars s) e)
    rw [typedSpan, ← value_valueFor type]
    rfl

theorem checkAssignment_annotates (a : Assignment) :
    Annotates setting vars (checkAssignment setting a vars)
      fun env => some (typedSpan env a.value) := by
  intro s
  change _ = annotated s.annotations (typedSpan (setting.env vars s) a.value)
  rw [typedSpan, ← value_valueTo (typeOfPlace (setting.env vars s) .write a.target).value]
  unfold checkAssignment
  cases assignedVariable? vars a.target <;> rfl

theorem checkLoopStart_annotates (start : LoopStart) :
    Annotates setting vars (checkLoopStart setting start vars)
      fun env => start.setter.value?.map (typedSpan env) := by
  cases start with
  | assign a => exact checkAssignment_annotates setting vars a
  | declare d =>
    intro s
    unfold checkLoopStart
    dsimp only
    cases d.isConst with
    | false => exact checkDeclaration_annotates setting vars (loopVariable d) s
    | true =>
      exact checkDeclaration_annotates setting vars (loopVariable d)
        { s with mistakes := s.mistakes ++ [⟨.constantLoopVariable d.name.value, d.name.span⟩] }

theorem checkLoopUpdate_annotates (update : LoopUpdate) :
    Annotates setting vars (checkLoopUpdate setting update vars)
      fun env => (update.setter?.bind Setter.value?).map (typedSpan env) := by
  cases update with
  | assign a => exact checkAssignment_annotates setting vars a
  | postfixed target op span => exact checkExpr_annotates setting vars (.postfixed target op span)

theorem checkLeave_annotates (result : Result) (span : Span) (value : Option Expr) :
    Annotates setting vars (checkLeave setting result vars span value) fun _ => none := by
  intro s
  unfold checkLeave
  cases value with
  | none =>
    dsimp only
    split <;> rfl
  | some e =>
    change ((if _ then mistake _ _ else pure () : Check Unit) _).2.annotations = _
    split <;> rfl

theorem Clause.check_annotates (result : Result) (c : Clause) :
    Annotates setting vars (c.check setting result vars) fun env =>
      (c.setter?.bind Setter.value?).map (typedSpan env) := by
  cases c with
  | declare d => exact checkDeclaration_annotates setting vars d
  | assign a => exact checkAssignment_annotates setting vars a
  | evaluate e => exact checkExpr_annotates setting vars e
  | print args => exact fun _ => rfl
  | start st => exact checkLoopStart_annotates setting vars st
  | update u => exact checkLoopUpdate_annotates setting vars u
  | leave value span => exact checkLeave_annotates setting vars result span value
  | stop | blockEnd => exact fun _ => rfl

end Clauses

/-! ### Runs -/

/-- Annotations with different spans are all kept. -/
theorem foldl_annotated {as bs : List (Span × DataType)} (h : ((as ++ bs).map Prod.fst).Nodup) :
    bs.foldl annotated as = as ++ bs := by
  induction bs generalizing as with
  | nil => exact (List.append_nil as).symm
  | cons b bs ih =>
    have hfresh : annotated as b = as ++ [b] := by
      refine congrArg (· ++ [b]) (List.filter_eq_self.2 fun a ha => bne_iff_ne.2 fun heq => ?_)
      rw [List.map_append, List.nodup_append] at h
      exact h.2.2 a.1 (List.mem_map_of_mem ha) b.1 List.mem_cons_self heq
    rw [List.append_cons] at h ⊢
    rw [List.foldl_cons, hfresh, ih h]

end Typing

/-- The value that is given at a view. -/
def View.value? (v : View) : Option Expr :=
  v.setter?.bind Setter.value?

/-- The annotation at a visit, with the type that the value has there. -/
def Visit.typedSpan? (p : Program) (x : Visit) : Option (Span × DataType) :=
  x.view.value?.map fun e => (e.span, (typeOf (x.env p) e).value)

section Runs

variable {p : Program}

theorem annotations_visitsFrom (sts : List Step) (s : State) :
    ((sts.forM (Step.run p)) s).2.annotations =
      ((visitsFrom p sts s).filterMap (Visit.typedSpan? p)).foldl annotated s.annotations := by
  induction sts generalizing s with
  | nil => rfl
  | cons st sts ih =>
    have hstep : (st.run p s).2.annotations =
        ((st.visits s).filterMap (Visit.typedSpan? p)).foldl annotated s.annotations := by
      cases st with
      | enter ps =>
        change (enterParams ps s).2.annotations = _
        rw [enterParams_run]
        rfl
      | view v =>
        rw [Step.visits, List.filterMap_eq_flatMap_toList, List.flatMap_singleton]
        exact Clause.check_annotates (p.settingIn v.cls) v.vars v.result v.clause s
      | leave f =>
        change (checkReturn f s).2.annotations = _
        rw [checkReturn_run]
        rfl
    rw [visitsFrom, List.filterMap_append, List.foldl_append, ← hstep]
    exact ih (st.run p s).2

/-- The visits hold the values in their order. -/
theorem values_visits (p : Program) :
    p.visits.filterMap (fun x => x.view.value?) = p.values := by
  have hviews : p.views.filterMap View.value? = p.values := by
    rw [Program.values, ← Program.setters_views, List.filterMap_filterMap]
    rfl
  rw [← hviews, ← view_visits, List.filterMap_map]
  rfl

theorem spans_annotations (p : Program) :
    (p.visits.filterMap (Visit.typedSpan? p)).map Prod.fst = p.values.map Expr.span := by
  rw [← values_visits, List.map_filterMap, List.map_filterMap]
  congr 1
  funext x
  rw [Visit.typedSpan?, Option.map_map]
  rfl

/-- Every value of a parsed program, and nothing else, has one annotation, which holds its type
where it is visited: no two values have one span. -/
theorem annotations_exact {lines : List String} {names known : Names}
    (h : Program.ofTokens (Lexed.ofLines lines names).tokens known = .ok p) :
    (p.values.map Expr.span).Nodup ∧
      p.checkTypes.annotations.map Prod.fst = p.values.map Expr.span ∧
      p.visits.filterMap (fun x => x.view.value?) = p.values ∧
      p.checkTypes.annotations = p.visits.filterMap (Visit.typedSpan? p) := by
  have hnodup := Program.nodup_values h
  have hann : p.checkTypes.annotations = p.visits.filterMap (Visit.typedSpan? p) := by
    rw [Program.checkTypes, checkProgram_eq]
    refine (annotations_visitsFrom p.steps .initial).trans (foldl_annotated ?_)
    exact (spans_annotations p).symm ▸ hnodup
  refine ⟨hnodup, ?_, values_visits p, hann⟩
  rw [hann, spans_annotations]

/-- A program with values in a global, a local, both ends of a loop, an assignment and a property;
two of them are in parentheses. -/
def sixValues : String :=
  "gwobaw n-kun = (1)~\nfwunc mainuwu-san() [[\nxs-chan[] = \x7b2\x7d~\n" ++
    "fow (i-chan = 0~ i < 2~ i += 1) [[\nn = ((i * 1.5))~\n]]\n]]\n" ++
    "cwass Cat() [[\nlives-senpai = \"9\"~\n]]\n"

theorem sixValues_annotated : ∃ p,
    Program.ofTokens (Lexed.ofLines (splitLines sixValues) .empty).tokens
      (Lexed.ofLines (splitLines sixValues) .empty).names = .ok p ∧
    p.checkTypes.annotations.map Prod.snd = [.chan, ⟨.chan, 1⟩, .chan, .chan, .kun, .senpai] ∧
    (p.values.map Expr.span).Nodup ∧
    p.checkTypes.annotations.map Prod.fst = p.values.map Expr.span := by
  have hs : sixValues.toList = _ := toList_append_of_eq
    (toList_append_of_eq (toList_of_eq rfl) (toList_of_eq rfl)) (toList_of_eq rfl)
  obtain ⟨p, hp, ht⟩ := exists_parsed sixValues .empty (fun p =>
    p.checkTypes.annotations.map Prod.snd == [.chan, ⟨.chan, 1⟩, .chan, .chan, .kun, .senpai]) hs
    (by decide +kernel)
  obtain ⟨hnodup, hkeys, -, -⟩ := annotations_exact hp
  exact ⟨p, hp, eq_of_beq ht, hnodup, hkeys⟩

end Runs

end Uwu
