import Uwu.Proofs.Scope.Views
import Uwu.Proofs.Stages

/-! Scopes and variables agree. Where name resolution finds no mistake, the variables that the check
of types has at a view of a body are those of the scope there, with their sites and types. -/

namespace Uwu

open Typing

/-- Roles of names that hold a value. -/
def Role.isVariable : Role → Bool
  | globalVariable | property | localVariable => true
  | function | classType | method => false

/-- The variables of the scope, with their sites and types, are those of the table. -/
def Scope.Agrees (s : Scope) (vars : Variables) : Prop :=
  ∀ name, (vars.get? name).map (fun v => (v.site, v.type)) =
    ((s.get? name).filter fun b => b.role.isVariable).map fun b => (b.site, b.type)

/-! ### Fresh names -/

/-- With distinct keys it does not matter in which order one is looked for. -/
theorem find?_perm {α : Type} {key : α → String} {xs ys : List α} (h : xs.Perm ys)
    (hd : (xs.map key).Nodup) (k : String) :
    xs.find? (fun x => key x == k) = ys.find? fun x => key x == k := by
  induction h with
  | nil => rfl
  | cons x _ ih =>
    rw [List.map_cons, List.nodup_cons] at hd
    rw [List.find?_cons, List.find?_cons, ih hd.2]
  | swap x y xs =>
    simp only [List.map_cons, List.nodup_cons, List.mem_cons, not_or] at hd
    simp only [List.find?_cons]
    cases hx : key x == k with
    | false => rfl
    | true =>
      cases hy : key y == k with
      | false => rfl
      | true => exact absurd ((beq_iff_eq.1 hy).trans (beq_iff_eq.1 hx).symm) hd.1.1
  | trans hxs _ ih ih' => exact (ih hd).trans (ih' ((hxs.map _).nodup_iff.1 hd))

namespace Scope

theorem duplicate_eq_nil {s : Scope} {e : Entry} :
    s.duplicate e = [] ↔ s.get? e.name.value = none := by
  rw [duplicate]
  cases s.get? e.name.value <;> simp

theorem duplicates_append (s : Scope) (es fs : List Entry) :
    s.duplicates (es ++ fs) = s.duplicates es ++ (s.declareAll es).duplicates fs := by
  induction es generalizing s with
  | nil => rfl
  | cons e es ih =>
    rw [List.cons_append, duplicates, duplicates, ih, List.append_assoc]
    rfl

theorem duplicates_cons_eq_nil {s : Scope} {e : Entry} {es : List Entry} :
    s.duplicates (e :: es) = [] ↔
      s.get? e.name.value = none ∧ (s.declare e).duplicates es = [] := by
  rw [duplicates, List.append_eq_nil_iff, duplicate_eq_nil]

theorem get?_declare_eq_none {s : Scope} {e : Entry} {name : String} :
    (s.declare e).get? name = none ↔ name ≠ e.name.value ∧ s.get? name = none := by
  rw [declare, Table.get?_addNew]
  by_cases hn : name = e.name.value <;> simp [hn]

/-- Declarations are fresh if their names are new and distinct. -/
theorem duplicates_eq_nil {s : Scope} {es : List Entry} :
    s.duplicates es = [] ↔
      (∀ e ∈ es, s.get? e.name.value = none) ∧ (es.map fun e => e.name.value).Nodup := by
  induction es generalizing s with
  | nil => simp [duplicates]
  | cons e es ih =>
    rw [duplicates_cons_eq_nil, ih, List.map_cons, List.nodup_cons, List.forall_mem_cons]
    simp only [get?_declare_eq_none, List.mem_map, not_exists, not_and]
    constructor
    · rintro ⟨he, hes, hd⟩
      exact ⟨⟨he, fun f hf => (hes f hf).2⟩, fun f hf => (hes f hf).1, hd⟩
    · rintro ⟨⟨he, hes⟩, hne, hd⟩
      exact ⟨he, fun f hf => ⟨hne f hf, hes f hf⟩, hd⟩

/-- Distinct names may be declared in any order. -/
theorem entryOf?_perm {es fs : List Entry} (h : es.Perm fs)
    (hd : (es.map fun e => e.name.value).Nodup) (name : String) :
    entryOf? es name = entryOf? fs name :=
  find?_perm h hd name

end Scope

/-! ### One declaration -/

namespace Scope

variable {s : Scope} {vars : Variables}

/-- A variable that is declared in both tables. -/
theorem Agrees.declare (h : s.Agrees vars) {e : Entry} (hf : s.get? e.name.value = none)
    (he : e.role.isVariable) (isConst : Bool) :
    (s.declare e).Agrees (vars.addNew e.name.value ⟨e.type, isConst, e.name.span⟩) := by
  have hv : vars.get? e.name.value = none := by
    have hn := h e.name.value
    rw [hf] at hn
    simpa using hn
  intro name
  rw [Scope.declare, Table.get?_addNew, Table.get?_addNew]
  by_cases hn : name == e.name.value
  · rw [if_pos hn, if_pos hn, hv, hf]
    simp [Option.filter, he]
  · rw [if_neg hn, if_neg hn]
    exact h name

/-- A name that is no variable. -/
theorem Agrees.declareOther (h : s.Agrees vars) {e : Entry} (hf : s.get? e.name.value = none)
    (he : e.role.isVariable = false) : (s.declare e).Agrees vars := by
  intro name
  rw [Scope.declare, Table.get?_addNew]
  by_cases hn : name == e.name.value
  · rw [if_pos hn, h name, eq_of_beq hn, hf]
    simp [Option.filter, he]
  · rw [if_neg hn]
    exact h name

theorem Agrees.declareOthers (h : s.Agrees vars) {es : List Entry} (hf : s.duplicates es = [])
    (he : ∀ e ∈ es, e.role.isVariable = false) : (s.declareAll es).Agrees vars := by
  induction es generalizing s with
  | nil => exact h
  | cons e es ih =>
    obtain ⟨hn, hs⟩ := duplicates_cons_eq_nil.1 hf
    exact ih (h.declareOther hn (he e List.mem_cons_self)) hs
      fun f hf => he f (List.mem_cons_of_mem e hf)

theorem Agrees.declarations (h : s.Agrees vars) {role : Role} (hr : role.isVariable)
    {ds : List Declaration} (hf : s.duplicates (ds.map (·.entry role)) = []) :
    (s.declareAll (ds.map (·.entry role))).Agrees (ds.foldl Variables.declare vars) := by
  induction ds generalizing s vars with
  | nil => exact h
  | cons d ds ih =>
    obtain ⟨hn, hs⟩ := duplicates_cons_eq_nil.1 hf
    exact ih (h.declare hn hr d.isConst) hs

theorem Agrees.params (h : s.Agrees vars) {ps : List Param}
    (hf : s.duplicates (ps.map Param.entry) = []) :
    (s.declareAll (ps.map Param.entry)).Agrees (ps.foldl Variables.declareParam vars) := by
  induction ps generalizing s vars with
  | nil => exact h
  | cons p ps ih =>
    obtain ⟨hn, hs⟩ := duplicates_cons_eq_nil.1 hf
    exact ih (h.declare hn rfl false) hs

theorem agrees_empty : Agrees .empty .empty := fun _ => rfl

end Scope

/-! ### Points without mistakes -/

section Points

variable {outer : Option Scope}

/-- Name resolution finds no mistake at the points. -/
def Settled (outer : Option Scope) (s : Scope) (pts : List Point) : Prop :=
  ∀ pt ∈ pts, pt.resolve outer s = []

/-- What is declared before the points is fresh. -/
def FreshBefore (s : Scope) (pts : List Point) : Prop :=
  ∀ pt ∈ pts, s.duplicates (pt.before.map (·.entry .localVariable)) = []

theorem settled_append {s : Scope} {pts qts : List Point} :
    Settled outer s (pts ++ qts) ↔ Settled outer s pts ∧ Settled outer s qts :=
  List.forall_mem_append

theorem settled_cons {s : Scope} {pt : Point} {pts : List Point} :
    Settled outer s (pt :: pts) ↔ pt.resolve outer s = [] ∧ Settled outer s pts :=
  List.forall_mem_cons

theorem settled_behind {s : Scope} {ds : List Declaration} {pts : List Point} :
    Settled outer s (pts.map (Point.behind ds)) ↔
      Settled outer (s.declareAll (ds.map (·.entry .localVariable))) pts := by
  simp only [Settled, List.forall_mem_map, Point.resolve_behind]

theorem freshBefore_append {s : Scope} {pts qts : List Point} (h : FreshBefore s pts)
    (hq : FreshBefore s qts) : FreshBefore s (pts ++ qts) :=
  List.forall_mem_append.2 ⟨h, hq⟩

theorem freshBefore_here {s : Scope} {c : Clause} {pts : List Point} (h : FreshBefore s pts) :
    FreshBefore s (.here c :: pts) :=
  List.forall_mem_cons.2 ⟨rfl, h⟩

theorem freshBefore_nil {s : Scope} : FreshBefore s [] :=
  List.forall_mem_nil _

theorem freshBefore_behind {s : Scope} {ds : List Declaration} {pts : List Point}
    (hd : s.duplicates (ds.map (·.entry .localVariable)) = [])
    (h : FreshBefore (s.declareAll (ds.map (·.entry .localVariable))) pts) :
    FreshBefore s (pts.map (Point.behind ds)) := by
  refine List.forall_mem_map.2 fun pt hpt => ?_
  rw [Point.behind, List.map_append, Scope.duplicates_append, hd, h pt hpt]
  rfl

/-- What a clause without mistakes declares is fresh. -/
theorem duplicates_of_resolve {c : Clause} {s : Scope} (h : c.resolve outer s = []) :
    s.duplicates (c.declarations.map (·.entry .localVariable)) = [] := by
  rw [Clause.resolve_eq] at h
  exact (List.append_eq_nil_iff.1 h).2

theorem Stmt.duplicates_of_settled {st : Stmt} {s : Scope} (h : Settled outer s st.points) :
    s.duplicates (st.declarations.map (·.entry .localVariable)) = [] := by
  cases st with
  | declare d =>
    have hd : (Clause.declare d).resolve outer s = [] := h _ List.mem_cons_self
    exact duplicates_of_resolve hd
  | _ => rfl

mutual

theorem Stmt.freshBefore : ∀ {st : Stmt} {s : Scope}, Settled outer s st.points →
    FreshBefore s st.points
  | .declare _, _, _ | .assign _, _, _ | .evaluate _ _, _, _ | .print _ _, _, _
  | .leave _ _, _, _ | .stop _, _, _ => freshBefore_here freshBefore_nil
  | .branch condition body elseIfs none _, s, h => by
    rw [Stmt.points, settled_cons, settled_append, settled_append] at h
    exact freshBefore_here (freshBefore_append (freshBefore_append (Block.freshBefore h.2.1.1)
      (elseIfs_freshBefore h.2.1.2)) freshBefore_nil)
  | .branch condition body elseIfs (some b) _, s, h => by
    rw [Stmt.points, settled_cons, settled_append, settled_append] at h
    exact freshBefore_here (freshBefore_append (freshBefore_append (Block.freshBefore h.2.1.1)
      (elseIfs_freshBefore h.2.1.2)) (Block.freshBefore h.2.2))
  | .repeatWhile _ condition body _, s, h => by
    rw [Stmt.points, settled_cons] at h
    exact freshBefore_here (Block.freshBefore h.2)
  | .count start condition update body _, s, h => by
    rw [Stmt.points, settled_cons, settled_behind, settled_cons, settled_cons] at h
    have hd : s.duplicates (start.declarations.map (·.entry .localVariable)) = [] :=
      duplicates_of_resolve (c := .start start) h.1
    exact freshBefore_here (freshBefore_behind hd
      (freshBefore_here (freshBefore_here (Block.freshBefore h.2.2.2))))

theorem Block.freshBefore : ∀ {b : Block} {s : Scope}, Settled outer s b.points →
    FreshBefore s b.points
  | ⟨body, _⟩, s, h => by
    rw [Block.points] at h ⊢
    exact stmts_freshBefore h

theorem stmts_freshBefore : ∀ {sts : List Stmt} {s : Scope}, Settled outer s (stmtsPoints sts) →
    FreshBefore s (stmtsPoints sts)
  | [], _, _ => freshBefore_here freshBefore_nil
  | st :: sts, s, h => by
    rw [stmtsPoints, settled_append, settled_behind] at h
    exact freshBefore_append (Stmt.freshBefore h.1)
      (freshBefore_behind (Stmt.duplicates_of_settled h.1) (stmts_freshBefore h.2))

theorem elseIfs_freshBefore : ∀ {es : List ElseIf} {s : Scope},
    Settled outer s (elseIfPoints es) → FreshBefore s (elseIfPoints es)
  | [], _, _ => freshBefore_nil
  | ⟨condition, body, _⟩ :: es, s, h => by
    rw [elseIfPoints, settled_cons, settled_append] at h
    exact freshBefore_here
      (freshBefore_append (Block.freshBefore h.2.1) (elseIfs_freshBefore h.2.2))

end

theorem duplicates_of_resolveParams {ps : List Param} {s : Scope}
    (h : resolveParams outer ps s = []) : s.duplicates (ps.map Param.entry) = [] := by
  induction ps generalizing s with
  | nil => rfl
  | cons p ps ih =>
    rw [resolveParams, List.append_eq_nil_iff, List.append_eq_nil_iff] at h
    rw [List.map_cons, Scope.duplicates, h.1.2, ih h.2]
    rfl

end Points

/-! ### Programs without mistakes in their names -/

theorem Scope.unresolved_eq_nil {outer : Option Scope} {s : Scope} {rs : List Reference} :
    s.unresolved outer rs = [] ↔ ∀ r ∈ rs, s.contains r.name.value ∨
      ((r.role = .function ∨ r.role = .classType) ∧
        outer.any fun globals => globals.has r.name.value r.role) := by
  rw [unresolved, List.filterMap_eq_nil_iff]
  refine forall₂_congr fun r _ => ?_
  rw [unresolved?]
  simp only [ite_eq_left_iff, reduceCtorEq, imp_false, Classical.not_not, Bool.or_eq_true,
    Bool.and_eq_true, beq_iff_eq]

theorem Program.checkNames_eq_nil {p : Program} : p.checkNames = [] ↔
    (Scope.duplicates .empty p.entries = [] ∧
      p.scope.unresolved none (p.globals.flatMap Declaration.valueReferences) = [] ∧
      ∀ f ∈ p.functionsAndEntry, f.resolve none p.scope = []) ∧
    ∀ c ∈ p.classes, Scope.duplicates .empty c.entries = [] ∧
      c.scope.unresolved p.scope (c.properties.flatMap Declaration.valueReferences) = [] ∧
      ∀ f ∈ c.methods, f.resolve p.scope c.scope = [] := by
  simp only [checkNames, Class.resolve, List.append_eq_nil_iff, List.flatMap_eq_nil_iff, and_assoc]

section Programs

variable {p : Program}

theorem Program.mem_bodies {b : Body} : b ∈ p.bodies ↔
    (b.cls = none ∧ b.function ∈ p.functionsAndEntry) ∨
      ∃ c ∈ p.classes, b.cls = some c ∧ b.function ∈ c.methods := by
  obtain ⟨f, cls⟩ := b
  simp only [bodies, functionBodies, Class.bodies, List.mem_append, List.mem_map, List.mem_flatMap,
    Body.mk.injEq]
  constructor
  · rintro (⟨g, hg, rfl, rfl⟩ | ⟨c, hc, g, hg, rfl, rfl⟩)
    · exact .inl ⟨rfl, hg⟩
    · exact .inr ⟨c, hc, rfl, hg⟩
  · rintro (⟨rfl, hf⟩ | ⟨c, hc, rfl, hf⟩)
    · exact .inl ⟨f, hf, rfl, rfl⟩
    · exact .inr ⟨c, hc, f, hf, rfl, rfl⟩

theorem Program.resolve_eq_nil (h : p.checkNames = []) {b : Body} (hb : b ∈ p.bodies) :
    b.function.resolve (p.outerIn b.cls) (p.scopeIn b.cls) = [] := by
  obtain ⟨⟨-, -, hf⟩, hc⟩ := checkNames_eq_nil.1 h
  rcases mem_bodies.1 hb with ⟨hn, hm⟩ | ⟨c, hp, hs, hm⟩
  · rw [hn]
    exact hf b.function hm
  · rw [hs]
    exact (hc c hp).2.2 b.function hm

/-- The names of the top level by their kind, and not in source order. -/
def Program.entriesByKind (p : Program) : List Entry :=
  p.globals.map (·.entry .globalVariable) ++
    (p.functions.map (fun f => ⟨f.name, f.returnType, .function⟩) ++
      p.classes.map fun c => ⟨c.name, c.type, .classType⟩)

/-- Without duplicates the order in which names are declared does not matter. -/
theorem Program.entriesByKind_spec (h : Scope.duplicates .empty p.entries = []) :
    Scope.duplicates .empty p.entriesByKind = [] ∧
      ∀ name, p.scope.get? name = (Scope.ofEntries p.entriesByKind).get? name := by
  have hperm : p.entries.Perm p.entriesByKind := by
    rw [entriesByKind, ← List.append_assoc]
    exact sortBy_perm _ _
  have hd := (Scope.duplicates_eq_nil.1 h).2
  refine ⟨Scope.duplicates_eq_nil.2 ⟨fun e _ => Table.get?_empty _, ?_⟩, fun name => ?_⟩
  · exact (hperm.map _).nodup_iff.1 hd
  · have hs : p.scope = .ofEntries p.entries := rfl
    rw [hs, Scope.get?_ofEntries, Scope.get?_ofEntries, Scope.entryOf?_perm hperm hd]

theorem Program.agrees_scope (h : Scope.duplicates .empty p.entries = []) :
    p.scope.Agrees p.globalVars := by
  obtain ⟨hd, hs⟩ := entriesByKind_spec h
  rw [entriesByKind, Scope.duplicates_append, List.append_eq_nil_iff] at hd
  have hg := Scope.agrees_empty.declarations rfl hd.1
  have ha := hg.declareOthers hd.2 fun e he => by
    rcases List.mem_append.1 he with he | he
    · obtain ⟨f, -, rfl⟩ := List.mem_map.1 he
      rfl
    · obtain ⟨c, -, rfl⟩ := List.mem_map.1 he
      rfl
  rw [← Scope.declareAll_append] at ha
  intro name
  rw [hs name]
  exact ha name

theorem Class.agrees_scope {c : Class} (h : Scope.duplicates .empty c.entries = []) :
    c.scope.Agrees c.vars := by
  rw [entries, Scope.duplicates_append, Scope.duplicates_append, List.append_eq_nil_iff,
    List.append_eq_nil_iff, Scope.declareAll_append] at h
  have hp := Scope.agrees_empty.params h.1.1
  have hv := hp.declarations rfl h.1.2
  have ha := hv.declareOthers h.2 fun e he => by
    obtain ⟨f, -, rfl⟩ := List.mem_map.1 he
    rfl
  rw [← Scope.declareAll_append, ← Scope.declareAll_append, ← List.append_assoc] at ha
  exact ha

theorem Program.agrees_scopeIn (h : p.checkNames = []) {b : Body} (hb : b ∈ p.bodies) :
    (p.scopeIn b.cls).Agrees (p.varsIn b.cls) := by
  obtain ⟨⟨hd, -, -⟩, hc⟩ := checkNames_eq_nil.1 h
  rcases mem_bodies.1 hb with ⟨hn, -⟩ | ⟨c, hp, hs, -⟩
  · rw [hn]
    exact agrees_scope hd
  · rw [hs]
    exact Class.agrees_scope (hc c hp).1

/-- At a view the two tables agree, and a bare variable that is used there is the same in both. -/
structure View.Agrees (v : View) : Prop where
  tables : v.scope.Agrees v.vars
  uses : ∀ r ∈ v.clause.references, r.role = .globalVariable →
    ∃ x, v.scope.get? r.name.value = some x ∧ (x.role.isVariable →
      ∃ y, v.vars.get? r.name.value = some y ∧ y.site = x.site ∧ y.type = x.type)

theorem Scope.Agrees.get? {s : Scope} {vars : Variables} (h : s.Agrees vars) {name : String}
    {x : Binding} (hx : s.get? name = some x) (hr : x.role.isVariable) :
    ∃ y, vars.get? name = some y ∧ y.site = x.site ∧ y.type = x.type := by
  have hn := h name
  rw [hx] at hn
  simp only [Option.filter, hr, if_true, Option.map_some, Option.map_eq_some_iff, Prod.mk.injEq]
    at hn
  exact hn

/-- A use as a variable is resolved by what is visible at the place itself. -/
theorem exists_binding_of_unresolved {outer : Option Scope} {s : Scope} {rs : List Reference}
    (h : s.unresolved outer rs = []) {r : Reference} (hr : r ∈ rs)
    (hrole : r.role = .globalVariable) : ∃ x, s.get? r.name.value = some x := by
  rcases Scope.unresolved_eq_nil.1 h r hr with hs | ⟨hf, -⟩
  · exact Option.isSome_iff_exists.1 hs
  · rw [hrole] at hf
    rcases hf with hf | hf <;> cases hf

theorem Body.agrees (h : p.checkNames = []) {b : Body} (hb : b ∈ p.bodies) :
    ∀ v ∈ b.views p, v.Agrees := by
  have hr := Program.resolve_eq_nil h hb
  rw [Body.resolve_eq, List.append_eq_nil_iff, List.append_eq_nil_iff] at hr
  obtain ⟨⟨-, hparams⟩, hviews⟩ := hr
  have hstart := (Program.agrees_scopeIn h hb).params (duplicates_of_resolveParams hparams)
  have hpoints : Settled (p.outerIn b.cls)
      ((p.scopeIn b.cls).declareAll (b.function.params.map Param.entry))
      b.function.body.points := by
    rw [views, List.flatMap_map, List.flatMap_eq_nil_iff] at hviews
    exact hviews
  refine List.forall_mem_map.2 fun pt hpt => ?_
  have ht : (b.view p pt).scope.Agrees (b.view p pt).vars :=
    hstart.declarations rfl (Block.freshBefore hpoints pt hpt)
  have hc : (b.view p pt).clause.resolve (p.outerIn b.cls) (b.view p pt).scope = [] :=
    hpoints pt hpt
  rw [Clause.resolve_eq, List.append_eq_nil_iff] at hc
  refine ⟨ht, fun r hr hrole => ?_⟩
  obtain ⟨x, hx⟩ := exists_binding_of_unresolved hc.1 hr hrole
  exact ⟨x, hx, ht.get? hx⟩

end Programs

/-- The check of types goes through the steps of a program, and name resolution and the check of
types go through the same views of a body. Where names have no mistakes, their two tables agree at
every view. -/
theorem Program.environments_agree (p : Program) :
    (checkProgram p = p.steps.forM (Step.run p) ∧
      ∀ c ∈ p.classes, checkClass (Signatures.ofProgram p) c = (c.steps p).forM (Step.run p)) ∧
    (∀ b ∈ p.bodies,
      b.function.resolve (p.outerIn b.cls) (p.scopeIn b.cls) =
        (p.scopeIn b.cls).unresolved (p.outerIn b.cls)
            (b.function.returnType.references b.function.name.span) ++
          resolveParams (p.outerIn b.cls) b.function.params (p.scopeIn b.cls) ++
          (b.views p).flatMap (View.resolve p) ∧
      checkFunction (p.settingIn b.cls) (p.varsIn b.cls) b.function =
        (b.steps p).forM (Step.run p)) ∧
    (p.checkNames = [] → ∀ b ∈ p.bodies, ∀ v ∈ b.views p, v.Agrees) :=
  ⟨⟨checkProgram_eq p, fun c _ => checkClass_eq p c⟩, fun b _ => ⟨b.resolve_eq p, b.check_eq p⟩,
    fun h _ hb => Body.agrees h hb⟩

/-- A program with a global, a class whose methods see its parameter and property, and a loop with
a variable of its own. -/
def nestedNames : String :=
  "gwobaw n-chan = 2~\ncwass Cat(age-chan) [[\nlives-chan = 9~\nfwunc left-chan(k-chan) [[\n" ++
    "iwf (k < lives) [[\nm-chan = lives - k~\nwetuwn m~\n]]\nwetuwn age~\n]]\n]]\n" ++
    "fwunc mainuwu-san() [[\nfow (i-chan = 0~ i < n~ i++) [[\npwint(i)~\n]]\n]]\n"

theorem nestedNames_agree : ∃ p, (compile nestedNames .empty).outcome = .ok p ∧
    p.checkNames = [] ∧ (p.bodies.flatMap (Body.views p)).length = 12 ∧
    ∀ b ∈ p.bodies, ∀ v ∈ b.views p, v.Agrees := by
  have hs : nestedNames.toList = _ := toList_append_of_eq
    (toList_append_of_eq (toList_of_eq rfl) (toList_of_eq rfl)) (toList_of_eq rfl)
  obtain ⟨p, hp, ht⟩ := exists_compiled nestedNames .empty
    (fun p => (p.bodies.flatMap (Body.views p)).length == 12) hs (by decide +kernel)
  have hn := (Program.mistakes_eq_nil.1 (compile_eq_ok.1 hp).2.2).1
  exact ⟨p, hp, hn, eq_of_beq ht, p.environments_agree.2.2 hn⟩

end Uwu
