import Uwu.Proofs.Scope.Roots

/-! Name resolution is exact. The sites of a program are the places where it uses or declares a
name, each with the entries that are visible there, and the mistakes in its names are those of its
sites, in their order and nothing else. -/

namespace Uwu

/-! ### Sites -/

inductive Subject where
  | use (r : Reference)
  | declaration (e : Entry)

/-- A place where a name is used or declared. -/
structure Site where
  /-- The entries that are visible there, in the order in which they were declared. -/
  visible : List Entry
  /-- In a class, the entries of the global table. -/
  outer : List Entry
  subject : Subject

/-- The entry that a name stands for: of several entries the first. -/
def entryOf? (es : List Entry) (name : String) : Option Entry :=
  es.find? fun e => e.name.value == name

namespace Site

/-- A name is visible if it is declared, in whatever role. Inside a class a callee or a class may
also be what the global table holds in that role. -/
def Sees (x : Site) (r : Reference) : Prop :=
  (∃ e ∈ x.visible, e.name.value = r.name.value) ∨
    ((r.role = .function ∨ r.role = .classType) ∧
      (entryOf? x.outer r.name.value).map Entry.role = some r.role)

instance (x : Site) (r : Reference) : Decidable (x.Sees r) :=
  inferInstanceAs (Decidable (_ ∨ _))

/-- What is wrong at a site. -/
def mistake? (x : Site) : Option Diagnostic :=
  match x.subject with
  | .use r => if x.Sees r then none else some ⟨.undefined r.name.value r.role, r.name.span⟩
  | .declaration e =>
    (entryOf? x.visible e.name.value).map fun first =>
      ⟨.duplicate e.name.value first.name.span first.role e.role, e.name.span⟩

theorem mistake?_use (visible outer : List Entry) (r : Reference) :
    mistake? ⟨visible, outer, .use r⟩ =
      if Sees ⟨visible, outer, .use r⟩ r then none
      else some ⟨.undefined r.name.value r.role, r.name.span⟩ := rfl

theorem mistake?_declaration (visible outer : List Entry) (e : Entry) :
    mistake? ⟨visible, outer, .declaration e⟩ =
      (entryOf? visible e.name.value).map fun first =>
        ⟨.duplicate e.name.value first.name.span first.role e.role, e.name.span⟩ := rfl

end Site

/-! ### What is declared -/

/-- A parameter or a variable of a body. -/
def localEntry (name : Name) (t : DataType) : Entry :=
  ⟨name, t, .localVariable⟩

/-- What a class declares: parameters, then properties, then methods. -/
def Class.declared (c : Class) : List Entry :=
  c.params.map (fun q => localEntry q.name q.type) ++
    c.properties.map (fun d => ⟨d.name, d.type, .property⟩) ++
    c.methods.map fun f => ⟨f.name, f.returnType, .method⟩

/-- The names of globals, functions and classes, in the order of these lists. -/
def Program.declared (p : Program) : List Entry :=
  p.globals.map (fun d => ⟨d.name, d.type, .globalVariable⟩) ++
    p.functions.map (fun f => ⟨f.name, f.returnType, .function⟩) ++
    p.classes.map fun c => ⟨c.name, c.type, .classType⟩

theorem Class.entries_eq (c : Class) : c.entries = c.declared := rfl

/-- The entries of a program are those of its top level, in source order. -/
theorem Program.entries_eq (p : Program) :
    p.entries = sortBy (fun a b => a.name.span.start ≤ b.name.span.start) p.declared := rfl

/-! ### The sites of a program -/

section Sites

variable (visible outer : List Entry)

def useSites (rs : List Reference) : List Site :=
  rs.map fun r => ⟨visible, outer, .use r⟩

/-- Of entries declared one after the other each sees those before it. -/
def declarationSites (es : List Entry) : List Site :=
  es.mapIdx fun i e => ⟨visible ++ es.take i, outer, .declaration e⟩

/-- Visible at a point are the declarations before it. What it declares itself is not. -/
def Point.sites (pt : Point) : List Site :=
  let here := visible ++ pt.before.map fun d => localEntry d.name d.type
  useSites here outer pt.clause.references ++
    declarationSites here outer (pt.clause.declarations.map fun d => localEntry d.name d.type)

/-- The type of a parameter sees the parameters before it. -/
def paramSites (ps : List Param) : List Site :=
  (ps.mapIdx fun i p =>
    let here := visible ++ (ps.take i).map fun q => localEntry q.name q.type
    useSites here outer (p.type.classUses p.span) ++
      [⟨here, outer, .declaration (localEntry p.name p.type)⟩]).flatten

/-- The type that a function gives back, its parameters, and its body, which sees them all. -/
def Function.sites (f : Function) : List Site :=
  let inner := visible ++ f.params.map fun q => localEntry q.name q.type
  useSites visible outer (f.returnType.classUses f.name.span) ++
    paramSites visible outer f.params ++ f.body.points.flatMap (Point.sites inner outer)

end Sites

def valueReferences (ds : List Declaration) : List Reference :=
  ds.flatMap fun d => d.roots.map Root.reference

/-- In a class its parameters, properties and methods are visible everywhere. -/
def Class.sites (globals : List Entry) (c : Class) : List Site :=
  declarationSites [] globals c.declared ++
    useSites c.declared globals (valueReferences c.properties) ++
    c.methods.flatMap (Function.sites c.declared globals)

/-- Outside of classes all names of the top level are visible everywhere. -/
def Program.sites (p : Program) : List Site :=
  declarationSites [] [] p.entries ++
    useSites p.entries [] (valueReferences p.globals) ++
    (p.functions ++ [p.entry]).flatMap (Function.sites p.entries []) ++
    p.classes.flatMap (Class.sites p.entries)

/-! ### Tables of entries -/

def Entry.binding (e : Entry) : Binding :=
  ⟨e.name.span, e.type, e.role⟩

namespace Scope

/-- The table in which entries were declared one after the other. -/
def ofEntries (es : List Entry) : Scope :=
  declareAll .empty es

theorem declareAll_append (s : Scope) (es fs : List Entry) :
    s.declareAll (es ++ fs) = (s.declareAll es).declareAll fs :=
  List.foldl_append

theorem declareAll_cons (s : Scope) (e : Entry) (es : List Entry) :
    s.declareAll (e :: es) = (s.declare e).declareAll es := rfl

theorem ofEntries_append (es fs : List Entry) :
    ofEntries (es ++ fs) = (ofEntries es).declareAll fs :=
  declareAll_append .empty es fs

theorem get?_declareAll (s : Scope) (es : List Entry) (name : String) :
    (s.declareAll es).get? name = (s.get? name).or ((entryOf? es name).map Entry.binding) := by
  induction es generalizing s with
  | nil => simp [declareAll, entryOf?]
  | cons e es ih =>
    rw [declareAll_cons, ih, declare, Table.get?_addNew, entryOf?, entryOf?, List.find?_cons]
    by_cases hn : name = e.name.value
    · subst hn
      cases hs : s.get? e.name.value <;> simp [Entry.binding]
    · have hne : (e.name.value == name) = false := by
        rw [beq_eq_false_iff_ne]
        exact Ne.symm hn
      simp [hn, hne]

theorem get?_ofEntries (es : List Entry) (name : String) :
    (ofEntries es).get? name = (entryOf? es name).map Entry.binding := by
  rw [ofEntries, get?_declareAll, Table.get?_empty, Option.none_or]

theorem contains_ofEntries (es : List Entry) (name : String) :
    (ofEntries es).contains name ↔ ∃ e ∈ es, e.name.value = name := by
  simp [Table.contains, get?_ofEntries, entryOf?]

end Scope

/-! ### The mistakes at sites -/

section Mistakes

variable {outer : Option Scope} {visible globals : List Entry}

/-- The table outside of a class holds these entries. -/
def Holds (outer : Option Scope) (globals : List Entry) : Prop :=
  ∀ name, (outer.bind fun s => s.get? name) = (entryOf? globals name).map Entry.binding

theorem holds_none : Holds none [] := fun _ => rfl

theorem holds_ofEntries (es : List Entry) : Holds (some (.ofEntries es)) es :=
  Scope.get?_ofEntries es

theorem has_iff (h : Holds outer globals) (name : String) (role : Role) :
    (outer.any fun s => s.has name role) ↔
      (entryOf? globals name).map Entry.role = some role := by
  have hn := h name
  have hb : (outer.any fun s => s.has name role) =
      (outer.bind fun s => s.get? name).any fun b => b.role == role := by
    cases outer <;> rfl
  rw [hb, hn]
  cases entryOf? globals name <;> simp [Entry.binding]

theorem unresolved?_eq (h : Holds outer globals) (r : Reference) :
    (Scope.ofEntries visible).unresolved? outer r =
      Site.mistake? ⟨visible, globals, .use r⟩ := by
  have hs : ((Scope.ofEntries visible).contains r.name.value ||
      (r.role == .function || r.role == .classType) &&
        outer.any fun s => s.has r.name.value r.role) = true ↔
      Site.Sees ⟨visible, globals, .use r⟩ r := by
    simp only [Site.Sees, Bool.or_eq_true, Bool.and_eq_true, beq_iff_eq, has_iff h,
      Scope.contains_ofEntries]
  rw [Scope.unresolved?, Site.mistake?_use]
  simp only [hs]

theorem unresolved_eq (h : Holds outer globals) (rs : List Reference) :
    (Scope.ofEntries visible).unresolved outer rs =
      (useSites visible globals rs).filterMap Site.mistake? := by
  rw [useSites, List.filterMap_map]
  have hu : (Scope.ofEntries visible).unresolved? outer =
      Site.mistake? ∘ fun r => ⟨visible, globals, .use r⟩ :=
    funext fun r => unresolved?_eq h r
  rw [← hu]
  rfl

theorem duplicate_eq (visible globals : List Entry) (e : Entry) :
    (Scope.ofEntries visible).duplicate e =
      [(⟨visible, globals, .declaration e⟩ : Site)].filterMap Site.mistake? := by
  rw [Scope.duplicate, Scope.get?_ofEntries, List.filterMap_cons, List.filterMap_nil,
    Site.mistake?_declaration]
  cases entryOf? visible e.name.value <;> rfl

theorem declarationSites_cons (e : Entry) (es : List Entry) :
    declarationSites visible globals (e :: es) =
      ⟨visible, globals, .declaration e⟩ :: declarationSites (visible ++ [e]) globals es := by
  simp [declarationSites, List.mapIdx_cons]

theorem ofEntries_declare (e : Entry) :
    (Scope.ofEntries visible).declare e = .ofEntries (visible ++ [e]) := by
  rw [Scope.ofEntries_append]
  rfl

theorem duplicates_eq (visible globals : List Entry) (es : List Entry) :
    (Scope.ofEntries visible).duplicates es =
      (declarationSites visible globals es).filterMap Site.mistake? := by
  induction es generalizing visible with
  | nil => rfl
  | cons e es ih =>
    rw [Scope.duplicates, ofEntries_declare, ih, duplicate_eq visible globals,
      declarationSites_cons, ← List.filterMap_append, List.singleton_append]

theorem paramSites_cons (p : Param) (ps : List Param) :
    paramSites visible globals (p :: ps) =
      useSites visible globals (p.type.classUses p.span) ++
        ⟨visible, globals, .declaration p.entry⟩ ::
          paramSites (visible ++ [p.entry]) globals ps := by
  have hentry : localEntry p.name p.type = p.entry := rfl
  simp [paramSites, List.mapIdx_cons, hentry]

theorem resolveParams_eq (h : Holds outer globals) (ps : List Param) :
    resolveParams outer ps (.ofEntries visible) =
      (paramSites visible globals ps).filterMap Site.mistake? := by
  induction ps generalizing visible with
  | nil => rfl
  | cons p ps ih =>
    rw [resolveParams, ofEntries_declare, ih, DataType.references_eq, unresolved_eq h,
      duplicate_eq visible globals, paramSites_cons, ← List.filterMap_append,
      ← List.filterMap_append, List.append_assoc, List.singleton_append]

theorem Point.resolve_eq (h : Holds outer globals) (pt : Point) :
    pt.resolve outer (.ofEntries visible) =
      (pt.sites visible globals).filterMap Site.mistake? := by
  rw [Point.resolve, Point.scope, ← Scope.ofEntries_append, Clause.resolve_eq, Point.sites,
    List.filterMap_append, unresolved_eq h, duplicates_eq _ globals]
  rfl

theorem Function.resolve_eq (h : Holds outer globals) (f : Function) :
    f.resolve outer (.ofEntries visible) =
      (f.sites visible globals).filterMap Site.mistake? := by
  rw [Function.resolve, Function.sites, ← Scope.ofEntries_append, List.filterMap_append,
    List.filterMap_append, DataType.references_eq, unresolved_eq h, resolveParams_eq h,
    Block.resolve_eq, List.filterMap_flatMap]
  congr 2
  exact funext fun pt => Point.resolve_eq h pt

end Mistakes

theorem valueReferences_eq (ds : List Declaration) :
    ds.flatMap Declaration.valueReferences = valueReferences ds := by
  rw [valueReferences]
  congr 1
  exact funext Declaration.valueReferences_eq

theorem Class.resolve_eq (globals : List Entry) (c : Class) :
    c.resolve (.ofEntries globals) = (c.sites globals).filterMap Site.mistake? := by
  have hd : Scope.duplicates .empty c.declared =
      (declarationSites [] globals c.declared).filterMap Site.mistake? :=
    duplicates_eq [] globals c.declared
  have hs : c.scope = .ofEntries c.declared := rfl
  have hm : (fun f : Function => f.resolve (some (.ofEntries globals)) (.ofEntries c.declared)) =
      fun f => (f.sites c.declared globals).filterMap Site.mistake? :=
    funext fun f => f.resolve_eq (holds_ofEntries globals)
  rw [Class.resolve, Class.sites, c.entries_eq, List.filterMap_append, List.filterMap_append, hd,
    hs, valueReferences_eq, unresolved_eq (holds_ofEntries globals), List.filterMap_flatMap, hm]

/-! ### Programs -/

/-- The entries of the top level are in source order. -/
theorem Program.pairwise_entries (p : Program) :
    p.entries.Pairwise fun a b => a.name.span.start ≤ b.name.span.start :=
  Position.pairwise_sortBy (fun e : Entry => e.name.span.start) _

/-- The mistakes in the names of a program are, one for each site and in their order, the uses of
names that are not visible and the declarations of names that are. The names of the top level are
declared in source order. -/
theorem Program.checkNames_eq_mistakes (p : Program) :
    p.checkNames = p.sites.filterMap Site.mistake? ∧ p.entries.Perm p.declared ∧
      p.entries.Pairwise fun a b => a.name.span.start ≤ b.name.span.start := by
  refine ⟨?_, p.entries_eq ▸ sortBy_perm _ _, p.pairwise_entries⟩
  have hd : Scope.duplicates .empty p.entries =
      (declarationSites [] [] p.entries).filterMap Site.mistake? := duplicates_eq [] [] p.entries
  have hs : p.scope = .ofEntries p.entries := rfl
  have hall : p.functionsAndEntry = p.functions ++ [p.entry] := rfl
  have hf : (fun f : Function => f.resolve none (.ofEntries p.entries)) =
      fun f => (f.sites p.entries []).filterMap Site.mistake? :=
    funext fun f => f.resolve_eq holds_none
  have hc : (fun c : Class => c.resolve (.ofEntries p.entries)) =
      fun c => (c.sites p.entries).filterMap Site.mistake? :=
    funext fun c => c.resolve_eq p.entries
  rw [checkNames, sites, List.filterMap_append, List.filterMap_append, List.filterMap_append, hd,
    hs, hall, valueReferences_eq, unresolved_eq holds_none, List.filterMap_flatMap,
    List.filterMap_flatMap, hf, hc]

end Uwu
