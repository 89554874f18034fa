import Uwu.Proofs.Scope.Agreement
import Uwu.Proofs.Typing.Constants

/-! What names stand for, where name resolution finds no mistake: at every view of a program, a name
that is used is visible, and what is visible is declared in its role. -/

namespace Uwu

open Typing

/-! ### Tables of distinct names -/

theorem entryOf?_of_mem {es : List Entry} (hd : (es.map fun e => e.name.value).Nodup) {e : Entry}
    (he : e ∈ es) : entryOf? es e.name.value = some e := by
  induction es with
  | nil => cases he
  | cons f fs ih =>
    obtain ⟨hf, hfs⟩ := List.nodup_cons.1 hd
    rw [entryOf?, List.find?_cons]
    rcases List.mem_cons.1 he with rfl | he
    · rw [beq_self_eq_true]
    · have hne : (f.name.value == e.name.value) = false := beq_eq_false_iff_ne.2 fun heq =>
        hf (List.mem_map.2 ⟨e, he, heq.symm⟩)
      rw [hne]
      exact ih hfs he

theorem exists_entry {es : List Entry} {name : String} {x : Binding}
    (h : (Scope.ofEntries es).get? name = some x) :
    ∃ e ∈ es, e.name.value = name ∧ e.binding = x := by
  rw [Scope.get?_ofEntries] at h
  obtain ⟨e, he, hx⟩ := Option.map_eq_some_iff.1 h
  have hfind : es.find? (fun e => e.name.value == name) = some e := he
  have hn := List.find?_some hfind
  exact ⟨e, List.mem_of_find?_eq_some hfind, eq_of_beq hn, hx⟩

/-- What was declared without duplicates is found. -/
theorem Scope.get?_ofEntries_of_mem {es : List Entry} (h : Scope.duplicates .empty es = [])
    {e : Entry} (he : e ∈ es) : (Scope.ofEntries es).get? e.name.value = some e.binding := by
  rw [get?_ofEntries, entryOf?_of_mem (duplicates_eq_nil.1 h).2 he]
  rfl

section Tables

variable {p : Program} {c : Class} {name : String} {x : Binding}

theorem Program.mem_entries {e : Entry} : e ∈ p.entries ↔
    (∃ d ∈ p.globals, d.entry .globalVariable = e) ∨
      (∃ f ∈ p.functions, (⟨f.name, f.returnType, .function⟩ : Entry) = e) ∨
      ∃ c ∈ p.classes, (⟨c.name, c.type, .classType⟩ : Entry) = e := by
  rw [entries, (sortBy_perm _ _).mem_iff, List.mem_append, List.mem_append, List.mem_map,
    List.mem_map, List.mem_map, or_assoc]

theorem Class.mem_entries {e : Entry} : e ∈ c.entries ↔
    (∃ q ∈ c.params, q.entry = e) ∨ (∃ d ∈ c.properties, d.entry .property = e) ∨
      ∃ f ∈ c.methods, (⟨f.name, f.returnType, .method⟩ : Entry) = e := by
  rw [entries, List.mem_append, List.mem_append, List.mem_map, List.mem_map, List.mem_map, or_assoc]

/-- What a name of the top level stands for. -/
theorem Program.scope_cases (h : p.scope.get? name = some x) :
    x.role = .globalVariable ∨ (x.role = .function ∧ ∃ f ∈ p.functions, f.name.value = name) ∨
      (x.role = .classType ∧ ∃ c ∈ p.classes, c.name.value = name) := by
  obtain ⟨e, he, rfl, rfl⟩ := exists_entry h
  rcases mem_entries.1 he with ⟨d, -, rfl⟩ | ⟨f, hf, rfl⟩ | ⟨c, hc, rfl⟩
  · exact .inl rfl
  · exact .inr (.inl ⟨rfl, f, hf, rfl⟩)
  · exact .inr (.inr ⟨rfl, c, hc, rfl⟩)

/-- What a name of a class stands for. -/
theorem Class.scope_cases (h : c.scope.get? name = some x) :
    (x.role = .localVariable ∧ ∃ q ∈ c.params, q.name.value = name) ∨
      (x.role = .property ∧ ∃ d ∈ c.properties, d.name.value = name) ∨
      (x.role = .method ∧ ∃ f ∈ c.methods, f.name.value = name) := by
  obtain ⟨e, he, rfl, rfl⟩ := exists_entry h
  rcases mem_entries.1 he with ⟨q, hq, rfl⟩ | ⟨d, hd, rfl⟩ | ⟨f, hf, rfl⟩
  · exact .inl ⟨rfl, q, hq, rfl⟩
  · exact .inr (.inl ⟨rfl, d, hd, rfl⟩)
  · exact .inr (.inr ⟨rfl, f, hf, rfl⟩)

/-- A name that is called in a class, and is visible only around it, is that of a function. -/
theorem Program.function_of_outerIn {cls : Option Class}
    (h : (p.outerIn cls).any fun globals => globals.has name .function) :
    ∃ f ∈ p.functions, f.name.value = name := by
  obtain ⟨globals, hg, hhas⟩ := (Option.any_eq_true _ _).1 h
  obtain ⟨c, -, rfl⟩ := Option.map_eq_some_iff.1 hg
  obtain ⟨b, hb, hrole⟩ := (Option.any_eq_true _ _).1 hhas
  rcases Program.scope_cases hb with hg | ⟨-, hf⟩ | ⟨hg, -⟩
  · rw [hg] at hrole
    cases hrole
  · exact hf
  · rw [hg] at hrole
    cases hrole

theorem Program.nodup_functionNames (h : Scope.duplicates .empty p.entries = []) :
    (p.functions.map fun f => f.name.value).Nodup := by
  have hd := (Scope.duplicates_eq_nil.1 (entriesByKind_spec h).1).2
  rw [entriesByKind, List.map_append, List.map_append, List.nodup_append, List.nodup_append] at hd
  have hfunctions := hd.2.1.1
  rw [List.map_map] at hfunctions
  exact hfunctions

theorem Program.nodup_classNames (h : Scope.duplicates .empty p.entries = []) :
    (p.classes.map fun c => c.name.value).Nodup := by
  have hd := (Scope.duplicates_eq_nil.1 (entriesByKind_spec h).1).2
  rw [entriesByKind, List.map_append, List.map_append, List.nodup_append, List.nodup_append] at hd
  have hclasses := hd.2.1.2.1
  rw [List.map_map] at hclasses
  exact hclasses

end Tables

/-! ### Views -/

/-- What name resolution without mistakes says of a view. -/
structure View.Resolved (p : Program) (v : View) : Prop where
  cls : ∀ c, v.cls = some c → c ∈ p.classes
  uses : v.scope.unresolved (p.outerIn v.cls) (v.clause.roots.map Root.reference) = []
  /-- What is visible is a local, or visible everywhere. -/
  scope : ∀ name x, v.scope.get? name = some x →
    x.role = .localVariable ∨ (p.scopeIn v.cls).get? name = some x
  /-- The variables that types are checked with are visible as variables. -/
  vars : ∀ name y, v.vars.get? name = some y →
    ∃ x, v.scope.get? name = some x ∧ x.role.isVariable
  /-- The others are globals or properties, and the view is in the value of one. -/
  others : ∀ name x, v.scope.get? name = some x → x.role.isVariable → v.vars.get? name = none →
    v.function = none ∧ x.role ≠ .localVariable

theorem Scope.Agrees.isVariable {s : Scope} {vars : Variables} (h : s.Agrees vars) {name : String}
    {y : Variable} (hy : vars.get? name = some y) :
    ∃ x, s.get? name = some x ∧ x.role.isVariable := by
  have hn := h name
  rw [hy] at hn
  obtain ⟨x, hx, -⟩ := Option.map_eq_some_iff.1 hn.symm
  exact ⟨x, Option.filter_eq_some_iff.1 hx⟩

theorem Scope.unresolved_of_append {outer : Option Scope} {s : Scope} {rs qs : List Reference}
    (h : s.unresolved outer (rs ++ qs) = []) : s.unresolved outer rs = [] := by
  rw [unresolved_append, List.append_eq_nil_iff] at h
  exact h.1

/-- Locals are added to what is visible everywhere. -/
theorem Scope.get?_declareAll_locals {s : Scope} {es : List Entry}
    (hes : ∀ e ∈ es, e.role = .localVariable) {name : String} {x : Binding}
    (h : (s.declareAll es).get? name = some x) :
    x.role = .localVariable ∨ s.get? name = some x := by
  rw [get?_declareAll, Option.or_eq_some_iff] at h
  rcases h with h | ⟨-, h⟩
  · exact .inr h
  · obtain ⟨e, he, rfl⟩ := Option.map_eq_some_iff.1 h
    exact .inl (hes e (List.mem_of_find?_eq_some he))

section Programs

variable {p : Program}

theorem Body.mem_classes {b : Body} (hb : b ∈ p.bodies) : ∀ c, b.cls = some c → c ∈ p.classes := by
  intro c hc
  rcases Program.mem_bodies.1 hb with ⟨hn, -⟩ | ⟨d, hd, hs, -⟩
  · cases hn.symm.trans hc
  · cases hs.symm.trans hc
    exact hd

theorem Body.resolved (h : p.checkNames = []) {b : Body} (hb : b ∈ p.bodies) :
    ∀ v ∈ b.views p, v.Resolved p := by
  have hagrees := Body.agrees h hb
  have hr := Program.resolve_eq_nil h hb
  rw [Body.resolve_eq, List.append_eq_nil_iff, List.flatMap_eq_nil_iff] at hr
  intro v hv
  have hv' := hr.2 v hv
  rw [View.resolve, Clause.resolve_eq, List.append_eq_nil_iff] at hv'
  have hcls : v.cls = b.cls := by
    obtain ⟨pt, -, rfl⟩ := List.mem_map.1 hv
    rfl
  constructor
  case cls =>
    rw [hcls]
    exact Body.mem_classes hb
  case uses => exact Scope.unresolved_of_append hv'.1
  case scope =>
    intro name x hx
    rw [hcls]
    obtain ⟨pt, -, rfl⟩ := List.mem_map.1 hv
    have hlocals : ∀ e ∈ pt.before.map (·.entry .localVariable), e.role = .localVariable :=
      List.forall_mem_map.2 fun _ _ => rfl
    have hparams : ∀ e ∈ b.function.params.map Param.entry, e.role = .localVariable :=
      List.forall_mem_map.2 fun _ _ => rfl
    exact (Scope.get?_declareAll_locals hlocals hx).elim .inl (Scope.get?_declareAll_locals hparams)
  case vars => exact fun name y hy => (hagrees v hv).tables.isVariable hy
  case others =>
    intro name x hx hr hn
    obtain ⟨y, hy, -⟩ := (hagrees v hv).tables.get? hx hr
    cases hn.symm.trans hy

/-- The values of globals or properties, as views. -/
theorem mem_initialiserViews {cls : Option Class} {scope : Scope} {ds : List Declaration}
    {vars : Variables} : ∀ v ∈ initialiserViews cls scope ds vars,
      v.cls = cls ∧ v.function = none ∧ v.scope = scope ∧ (∃ d ∈ ds, v.clause = .declare d) ∧
        vars.Within v.vars ∧ v.vars.Within (ds.foldl Variables.declare vars) := by
  induction ds generalizing vars with
  | nil => exact List.forall_mem_nil _
  | cons d ds ih =>
    refine List.forall_mem_cons.2 ⟨⟨rfl, rfl, rfl, ⟨d, List.mem_cons_self, rfl⟩, fun _ _ hv => hv,
      Variables.within_foldl_declare (d :: ds) vars⟩, fun v hv => ?_⟩
    obtain ⟨hcls, hf, hs, ⟨e, he, hc⟩, hb, ha⟩ := ih v hv
    exact ⟨hcls, hf, hs, ⟨e, List.mem_cons_of_mem d he, hc⟩,
      fun name y hy => hb name y (vars.within_declare d name y hy), ha⟩

/-- In the value of a global or a property everything of the table is visible, and of the variables
those before it and some more. -/
theorem resolved_initialiserViews (cls : Option Class) {ds : List Declaration} {vars : Variables}
    (hcls : ∀ c, cls = some c → c ∈ p.classes)
    (huses : (p.scopeIn cls).unresolved (p.outerIn cls)
      (ds.flatMap Declaration.valueReferences) = [])
    (hagrees : (p.scopeIn cls).Agrees (ds.foldl Variables.declare vars))
    (hlocals : ∀ name x, (p.scopeIn cls).get? name = some x → x.role = .localVariable →
      vars.contains name) :
    ∀ v ∈ initialiserViews cls (p.scopeIn cls) ds vars, v.Resolved p := by
  intro v hv
  obtain ⟨rfl, hf, hs, ⟨d, hd, hc⟩, hb, ha⟩ := mem_initialiserViews v hv
  have hd' : (p.scopeIn v.cls).unresolved (p.outerIn v.cls) d.valueReferences = [] := by
    rw [Scope.unresolved, List.filterMap_flatMap, List.flatMap_eq_nil_iff] at huses
    exact huses d hd
  constructor
  case cls => exact hcls
  case uses =>
    rw [hs, hc]
    rw [Declaration.valueReferences_eq] at hd'
    exact hd'
  case scope =>
    rw [hs]
    exact fun _ _ hx => .inr hx
  case vars =>
    rw [hs]
    exact fun name y hy => hagrees.isVariable (ha name y hy)
  case others =>
    intro name x hx _ hn
    refine ⟨hf, fun hr => ?_⟩
    rw [hs] at hx
    obtain ⟨y, hy⟩ := Option.isSome_iff_exists.1 (hlocals name x hx hr)
    cases hn.symm.trans (hb name y hy)

theorem Class.contains_paramVars {c : Class} (h : Scope.duplicates .empty c.entries = [])
    {name : String} (hq : ∃ q ∈ c.params, q.name.value = name) : c.paramVars.contains name := by
  rw [entries, Scope.duplicates_append, Scope.duplicates_append, List.append_eq_nil_iff,
    List.append_eq_nil_iff] at h
  obtain ⟨q, hq, rfl⟩ := hq
  have hs : (Scope.ofEntries (c.params.map Param.entry)).contains q.name.value :=
    (Scope.contains_ofEntries _ _).2 ⟨q.entry, List.mem_map_of_mem hq, rfl⟩
  obtain ⟨x, hx⟩ := Option.isSome_iff_exists.1 hs
  obtain ⟨e, he, -, rfl⟩ := exists_entry hx
  obtain ⟨q', -, rfl⟩ := List.mem_map.1 he
  obtain ⟨y, hy, -⟩ := (Scope.agrees_empty.params h.1.1).get? hx rfl
  exact Option.isSome_iff_exists.2 ⟨y, hy⟩

/-- Where name resolution finds no mistake, the names at every view are resolved. -/
theorem Program.resolved (h : p.checkNames = []) : ∀ v ∈ p.views, v.Resolved p := by
  obtain ⟨⟨hd, hu, -⟩, hcs⟩ := checkNames_eq_nil.1 h
  refine List.forall_mem_append.2 ⟨?_, List.forall_mem_append.2 ⟨?_, ?_⟩⟩
  · refine resolved_initialiserViews none (by rintro c ⟨⟩) hu (agrees_scope hd) ?_
    intro name x hx hr
    rcases scope_cases hx with hx | ⟨hx, -⟩ | ⟨hx, -⟩ <;> cases hx.symm.trans hr
  · exact List.forall_mem_flatMap.2 fun b hb =>
      Body.resolved h (List.mem_append_left _ hb)
  · refine List.forall_mem_flatMap.2 fun c hc => List.forall_mem_append.2 ⟨?_, ?_⟩
    · obtain ⟨hdc, huc, -⟩ := hcs c hc
      refine resolved_initialiserViews (some c) ?_ huc (Class.agrees_scope hdc) ?_
      · rintro d ⟨⟩
        exact hc
      · intro name x hx hr
        rcases Class.scope_cases hx with ⟨-, hq⟩ | ⟨hx, -⟩ | ⟨hx, -⟩
        · exact Class.contains_paramVars hdc hq
        · cases hx.symm.trans hr
        · cases hx.symm.trans hr
    · exact List.forall_mem_flatMap.2 fun b hb =>
        Body.resolved h (List.mem_append_right _ (List.mem_flatMap.2 ⟨c, hc, hb⟩))

end Programs

end Uwu
