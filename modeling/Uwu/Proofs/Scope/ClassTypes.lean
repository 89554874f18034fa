import Uwu.Proofs.Grammar.Mentions
import Uwu.Proofs.Scope.Meanings

/-! Types that name classes. Name resolution looks up the classes that the types of parameters,
results and local variables name, and not those of globals, class parameters and properties. What it
does not see the lexer has to know: a name of a class follows the class keyword, or is misled. -/

namespace Uwu

open Grammar

/-! ### Types and names of a program -/

/-- Where a type is written. -/
inductive TypeSite where
  | global | classParam | property | param | result
  /-- The type of a variable that a body declares, in the header of a loop too. -/
  | localVariable
  deriving DecidableEq

/-- Name resolution looks at the type. -/
def TypeSite.isResolved : TypeSite → Bool
  | global | classParam | property => false
  | param | result | localVariable => true

structure TypeUse where
  site : TypeSite
  type : DataType

def Function.typeUses (f : Function) : List TypeUse :=
  ⟨.result, f.returnType⟩ :: (f.params.map (fun q => ⟨.param, q.type⟩) ++
    f.body.points.flatMap fun pt => pt.clause.declarations.map fun d => ⟨.localVariable, d.type⟩)

def Class.typeUses (c : Class) : List TypeUse :=
  c.params.map (fun q => ⟨.classParam, q.type⟩) ++
    (c.properties.map (fun d => ⟨.property, d.type⟩) ++ c.methods.flatMap Function.typeUses)

/-- The names of parameters and of variables that a body declares. -/
def Function.localNames (f : Function) : List String :=
  f.params.map (fun q => q.name.value) ++
    f.body.points.flatMap fun pt => pt.before.map fun d => d.name.value

namespace Program

variable (p : Program)

/-- Every type that is written in a program. -/
def typeUses : List TypeUse :=
  p.globals.map (fun d => ⟨.global, d.type⟩) ++
    (p.functionsAndEntry.flatMap Function.typeUses ++ p.classes.flatMap Class.typeUses)

def classNames : List String :=
  p.classes.map fun c => c.name.value

/-- The names that are declared and are not those of classes. -/
def plainNames : List String :=
  p.globals.map (fun d => d.name.value) ++ (p.functions.map (fun f => f.name.value) ++
    (p.classes.flatMap (fun c => c.entries.map fun e => e.name.value) ++
      p.bodies.flatMap fun b => b.function.localNames))

end Program

/-! ### Resolved types -/

section Resolved

variable {p : Program} {s : Scope} {outer : Option Scope}

/-- What is visible is declared somewhere. -/
def Scope.Known (p : Program) (s : Scope) : Prop :=
  ∀ name, s.contains name → name ∈ p.classNames ∨ name ∈ p.plainNames

theorem Scope.Known.declareAll (h : s.Known p) {es : List Entry}
    (hes : ∀ e ∈ es, e.name.value ∈ p.plainNames) : (s.declareAll es).Known p := by
  intro name hn
  rw [Table.contains, get?_declareAll, Option.isSome_or, Bool.or_eq_true] at hn
  rcases hn with hn | hn
  · exact h name hn
  · rw [Option.isSome_map, entryOf?, List.find?_isSome] at hn
    obtain ⟨e, he, hname⟩ := hn
    exact .inr (eq_of_beq hname ▸ hes e he)

theorem Program.known_scopeIn {cls : Option Class} (hcls : ∀ c, cls = some c → c ∈ p.classes) :
    (p.scopeIn cls).Known p := by
  intro name hn
  cases cls with
  | none =>
    obtain ⟨e, he, rfl⟩ := (Scope.contains_ofEntries p.entries name).1 hn
    rcases Program.mem_entries.1 he with ⟨d, hd, rfl⟩ | ⟨f, hf, rfl⟩ | ⟨c, hc, rfl⟩
    · exact .inr (List.mem_append_left _ (List.mem_map.2 ⟨d, hd, rfl⟩))
    · refine .inr (List.mem_append_right _ (List.mem_append_left _ ?_))
      exact List.mem_map.2 ⟨f, hf, rfl⟩
    · exact .inl (List.mem_map.2 ⟨c, hc, rfl⟩)
  | some c =>
    obtain ⟨e, he, rfl⟩ := (Scope.contains_ofEntries c.entries name).1 hn
    refine .inr (List.mem_append_right _ (List.mem_append_right _ (List.mem_append_left _ ?_)))
    exact List.mem_flatMap.2 ⟨c, hcls c rfl, List.mem_map.2 ⟨e, he, rfl⟩⟩

/-- Around a class only names of classes are looked up as such. -/
theorem Program.mem_classNames_of_outerIn {cls : Option Class} {name : String}
    (h : (p.outerIn cls).any fun globals => globals.has name .classType) :
    name ∈ p.classNames := by
  obtain ⟨globals, hg, hhas⟩ := (Option.any_eq_true _ _).1 h
  obtain ⟨c, -, rfl⟩ := Option.map_eq_some_iff.1 hg
  obtain ⟨b, hb, hrole⟩ := (Option.any_eq_true _ _).1 hhas
  rcases Program.scope_cases hb with hr | ⟨hr, -⟩ | ⟨-, d, hd, hn⟩
  · rw [hr] at hrole
    cases hrole
  · rw [hr] at hrole
    cases hrole
  · exact List.mem_map.2 ⟨d, hd, hn⟩

theorem mem_names_of_unresolved {cls : Option Class} (hs : s.Known p) {t : DataType} {site : Span}
    {rs : List Reference} (hrs : t.classUses site ⊆ rs)
    (h : s.unresolved (p.outerIn cls) rs = []) {name : String} (hname : t.className? = some name) :
    name ∈ p.classNames ∨ name ∈ p.plainNames := by
  have hr : (⟨⟨name, site⟩, .classType⟩ : Reference) ∈ rs := by
    refine hrs ?_
    rw [DataType.classUses, hname]
    exact List.mem_singleton.2 rfl
  rcases Scope.unresolved_eq_nil.1 h _ hr with hvisible | ⟨-, houter⟩
  · exact hs name hvisible
  · exact .inl (Program.mem_classNames_of_outerIn houter)

theorem mem_names_of_resolveParams {cls : Option Class} {ps : List Param} (hs : s.Known p)
    (hps : ∀ q ∈ ps, q.name.value ∈ p.plainNames)
    (h : resolveParams (p.outerIn cls) ps s = []) :
    ∀ q ∈ ps, ∀ name, q.type.className? = some name →
      name ∈ p.classNames ∨ name ∈ p.plainNames := by
  induction ps generalizing s with
  | nil => exact fun _ hq => nomatch hq
  | cons q qs ih =>
    rw [resolveParams, DataType.references_eq, List.append_eq_nil_iff, List.append_eq_nil_iff] at h
    obtain ⟨hq, hqs⟩ := List.forall_mem_cons.1 hps
    have hnext : (s.declare q.entry).Known p :=
      @Scope.Known.declareAll p s hs [q.entry] (List.forall_mem_singleton.2 hq)
    exact List.forall_mem_cons.2
      ⟨fun name => mem_names_of_unresolved hs (List.Subset.refl _) h.1.1, ih hnext hqs h.2⟩

theorem Body.mem_plainNames {b : Body} (hb : b ∈ p.bodies) :
    ∀ n ∈ b.function.localNames, n ∈ p.plainNames := by
  intro n hn
  have hbodies : n ∈ p.bodies.flatMap fun b => b.function.localNames :=
    List.mem_flatMap.2 ⟨b, hb, hn⟩
  simp [Program.plainNames, hbodies]

/-- What is visible at a point of a body is declared somewhere. -/
theorem Body.known_view {b : Body} (hb : b ∈ p.bodies) {pt : Point}
    (hpt : pt ∈ b.function.body.points) : (b.view p pt).scope.Known p := by
  have hentries : ∀ e ∈ b.function.params.map Param.entry, e.name.value ∈ p.plainNames :=
    List.forall_mem_map.2 fun q hq =>
      Body.mem_plainNames hb _ (List.mem_append_left _ (List.mem_map.2 ⟨q, hq, rfl⟩))
  have hbefore : ∀ d ∈ pt.before, d.name.value ∈ p.plainNames := fun d hd =>
    Body.mem_plainNames hb _ (List.mem_append_right _
      (List.mem_flatMap.2 ⟨pt, hpt, List.mem_map.2 ⟨d, hd, rfl⟩⟩))
  have hlocals : ∀ e ∈ pt.before.map (·.entry .localVariable), e.name.value ∈ p.plainNames :=
    List.forall_mem_map.2 hbefore
  exact ((Program.known_scopeIn (Body.mem_classes hb)).declareAll hentries).declareAll hlocals

/-- A class that is named in a function is declared, or something else with its name is. -/
theorem Body.mem_names (h : p.checkNames = []) {b : Body} (hb : b ∈ p.bodies) :
    ∀ u ∈ b.function.typeUses, ∀ name, u.type.className? = some name →
      name ∈ p.classNames ∨ name ∈ p.plainNames := by
  have hparams : ∀ q ∈ b.function.params, q.name.value ∈ p.plainNames := fun q hq =>
    Body.mem_plainNames hb _ (List.mem_append_left _ (List.mem_map.2 ⟨q, hq, rfl⟩))
  have hknown := Program.known_scopeIn (Body.mem_classes hb)
  have hr := Program.resolve_eq_nil h hb
  rw [Function.resolve, DataType.references_eq, List.append_eq_nil_iff, List.append_eq_nil_iff]
    at hr
  obtain ⟨⟨hresult, hps⟩, hbody⟩ := hr
  refine List.forall_mem_cons.2 ⟨fun name => ?_, List.forall_mem_append.2 ⟨?_, ?_⟩⟩
  · exact mem_names_of_unresolved hknown (List.Subset.refl _) hresult
  · exact List.forall_mem_map.2 (mem_names_of_resolveParams hknown hparams hps)
  · refine List.forall_mem_flatMap.2 fun pt hpt => List.forall_mem_map.2 fun d hd name => ?_
    rw [Block.resolve_eq, List.flatMap_eq_nil_iff] at hbody
    have hpoint := hbody pt hpt
    rw [Point.resolve, Clause.resolve_eq, List.append_eq_nil_iff] at hpoint
    have hrs : d.type.classUses d.name.span ⊆ pt.clause.references :=
      fun r hr => List.mem_append_right _ (List.mem_flatMap.2 ⟨d, hd, hr⟩)
    exact mem_names_of_unresolved (Body.known_view hb hpt) hrs hpoint.1

end Resolved

/-! ### What a program says -/

namespace Program

variable {p : Program} (names : Names)

/-- All signs of the items. -/
def said (p : Program) : List Sign :=
  p.items.flatMap (itemSigns names)

variable {names}

theorem mem_items {i : Item} : i ∈ p.items ↔
    (∃ d ∈ p.globals, .global d = i) ∨ (∃ f ∈ p.functions, .function f = i) ∨
      (∃ c ∈ p.classes, .cls c = i) ∨ i = .entry p.entry := by
  rw [items, (sortBy_perm _ _).mem_iff, List.mem_append, List.mem_append, List.mem_append,
    List.mem_map, List.mem_map, List.mem_map, List.mem_singleton]

theorem itemSigns_subset_said {i : Item} (hi : i ∈ p.items) : itemSigns names i ⊆ p.said names :=
  fun _ hz => List.mem_flatMap.2 ⟨i, hi, hz⟩

theorem classItemSigns_subset_said {c : Class} (hc : c ∈ p.classes) :
    classItemSigns names c ⊆ p.said names :=
  itemSigns_subset_said (mem_items.2 (.inr (.inr (.inl ⟨c, hc, rfl⟩))))

theorem memberSigns_subset_said {c : Class} (hc : c ∈ p.classes) {m : Member}
    (hm : m ∈ c.properties.map Member.property ++ c.methods.map Member.method) :
    memberSigns names m ⊆ p.said names := by
  have hmember : m ∈ classMembers c := (sortBy_perm _ _).mem_iff.2 hm
  refine fun z hz => classItemSigns_subset_said hc ?_
  have hmembers := List.mem_flatMap.2 ⟨m, hmember, hz⟩
  simp [classItemSigns, hmembers]

theorem functionSigns_subset_said {b : Body} (hb : b ∈ p.bodies) :
    functionSigns names b.function ⊆ p.said names := by
  rcases mem_bodies.1 hb with ⟨-, hf⟩ | ⟨c, hc, -, hf⟩
  · rcases List.mem_append.1 hf with hf | hf
    · exact itemSigns_subset_said (mem_items.2 (.inr (.inl ⟨_, hf, rfl⟩)))
    · rw [List.mem_singleton.1 hf]
      exact itemSigns_subset_said (mem_items.2 (.inr (.inr (.inr rfl))))
  · exact memberSigns_subset_said hc (List.mem_append_right _ (List.mem_map.2 ⟨_, hf, rfl⟩))

end Program

/-- A parameter stands among the signs of the list. -/
theorem paramSigns_subset {names : Names} {ps : List Param} {q : Param} (hq : q ∈ ps) :
    paramSigns names q ⊆ paramsSigns names ps := by
  have hseparated : paramSigns names q ⊆ separated (paramSigns names) ps := by
    cases ps with
    | nil => cases hq
    | cons r rs =>
      intro z hz
      rcases List.mem_cons.1 hq with rfl | hq
      · exact List.mem_append_left _ hz
      · refine List.mem_append_right _ (List.mem_flatMap.2 ⟨q, hq, ?_⟩)
        exact List.mem_cons_of_mem _ hz
  exact fun z hz => List.mem_cons_of_mem _ (List.mem_append_left _ (hseparated hz))

/-- The types of a function are among its signs. -/
theorem Function.baseSign_mem {names : Names} (f : Function) :
    ∀ u ∈ f.typeUses, baseSign u.type.base ∈ functionSigns names f := by
  refine List.forall_mem_cons.2 ⟨?_, List.forall_mem_append.2 ⟨?_, ?_⟩⟩
  · simp [functionSigns, Uwu.baseSign_mem]
  · refine List.forall_mem_map.2 fun q hq => ?_
    have hparam : baseSign q.type.base ∈ paramSigns names q := by
      simp [paramSigns, Uwu.baseSign_mem]
    have hparams := paramSigns_subset hq hparam
    simp [functionSigns, hparams]
  · refine List.forall_mem_flatMap.2 fun pt hpt => List.forall_mem_map.2 fun d hd => ?_
    have hbody : baseSign d.type.base ∈ blockSigns names f.body :=
      (f.body.mentionsAll pt hpt d (List.mem_append_right _ hd)).2
    simp [functionSigns, hbody]

/-- The names of the parameters and variables of a function are among its signs. -/
theorem Function.nameSign_mem {names : Names} (f : Function) :
    ∀ n ∈ f.localNames, nameSign names n ∈ functionSigns names f := by
  refine List.forall_mem_append.2 ⟨List.forall_mem_map.2 fun q hq => ?_, ?_⟩
  · have hparams := paramSigns_subset hq (List.mem_cons_self : nameSign names q.name.value ∈ _)
    simp [functionSigns, hparams]
  · refine List.forall_mem_flatMap.2 fun pt hpt => List.forall_mem_map.2 fun d hd => ?_
    have hbody : nameSign names d.name.value ∈ blockSigns names f.body :=
      (f.body.mentionsAll pt hpt d (List.mem_append_left _ hd)).1
    simp [functionSigns, hbody]

namespace Program

variable {p : Program} {names : Names}

theorem declarationSigns_subset_said {d : Declaration} (hd : d ∈ p.globals) :
    declarationSigns names d ⊆ p.said names :=
  fun _ hz => itemSigns_subset_said (mem_items.2 (.inl ⟨d, hd, rfl⟩)) (List.mem_cons_of_mem _ hz)

theorem paramSigns_subset_said {c : Class} (hc : c ∈ p.classes) {q : Param} (hq : q ∈ c.params) :
    paramSigns names q ⊆ p.said names := by
  refine fun z hz => classItemSigns_subset_said hc ?_
  have hparams := paramSigns_subset hq hz
  simp [classItemSigns, hparams]

/-- A program says the types that are written in it. -/
theorem baseSign_mem_said : ∀ u ∈ p.typeUses, baseSign u.type.base ∈ p.said names := by
  have hfunction {b : Body} (hb : b ∈ p.bodies) :
      ∀ u ∈ b.function.typeUses, baseSign u.type.base ∈ p.said names :=
    fun u hu => functionSigns_subset_said hb (b.function.baseSign_mem u hu)
  refine List.forall_mem_append.2 ⟨?_, List.forall_mem_append.2 ⟨?_, ?_⟩⟩
  · exact List.forall_mem_map.2 fun d hd =>
      declarationSigns_subset_said hd (mentions_declarationSigns d).2
  · exact List.forall_mem_flatMap.2 fun f hf =>
      hfunction (mem_bodies.2 (.inl ⟨rfl, hf⟩) : (⟨f, none⟩ : Body) ∈ p.bodies)
  · refine List.forall_mem_flatMap.2 fun c hc => List.forall_mem_append.2
      ⟨?_, List.forall_mem_append.2 ⟨?_, ?_⟩⟩
    · refine List.forall_mem_map.2 fun q hq => paramSigns_subset_said hc hq ?_
      simp [paramSigns, Uwu.baseSign_mem]
    · exact List.forall_mem_map.2 fun d hd =>
        memberSigns_subset_said hc (List.mem_append_left _ (List.mem_map_of_mem hd))
          (mentions_declarationSigns d).2
    · exact List.forall_mem_flatMap.2 fun f hf =>
        hfunction (mem_bodies.2 (.inr ⟨c, hc, rfl, hf⟩) : (⟨f, some c⟩ : Body) ∈ p.bodies)

/-- A program says the names that it declares. A function may have the keyword for its name. -/
theorem nameSign_mem_said : ∀ n ∈ p.plainNames,
    nameSign names n ∈ p.said names ∨ n = Keyword.mainuwu.spelling := by
  have hfunction {b : Body} (hb : b ∈ p.bodies) :
      nameSign names b.function.name.value ∈ p.said names ∨
        b.function.name.value = Keyword.mainuwu.spelling := by
    by_cases hn : b.function.name.value = Keyword.mainuwu.spelling
    · exact .inr hn
    · refine .inl (functionSigns_subset_said hb ?_)
      simp [functionSigns, functionNameSign, hn]
  refine List.forall_mem_append.2 ⟨?_, List.forall_mem_append.2 ⟨?_, List.forall_mem_append.2
    ⟨?_, ?_⟩⟩⟩
  · exact List.forall_mem_map.2 fun d hd =>
      .inl (declarationSigns_subset_said hd (mentions_declarationSigns d).1)
  · exact List.forall_mem_map.2 fun f hf =>
      hfunction (mem_bodies.2 (.inl ⟨rfl, List.mem_append_left _ hf⟩) :
        (⟨f, none⟩ : Body) ∈ p.bodies)
  · refine List.forall_mem_flatMap.2 fun c hc => List.forall_mem_map.2 fun e he => ?_
    rcases Class.mem_entries.1 he with ⟨q, hq, rfl⟩ | ⟨d, hd, rfl⟩ | ⟨f, hf, rfl⟩
    · exact .inl (paramSigns_subset_said hc hq List.mem_cons_self)
    · exact .inl (memberSigns_subset_said hc (List.mem_append_left _ (List.mem_map_of_mem hd))
        (mentions_declarationSigns d).1)
    · exact hfunction (mem_bodies.2 (.inr ⟨c, hc, rfl, hf⟩) : (⟨f, some c⟩ : Body) ∈ p.bodies)
  · exact List.forall_mem_flatMap.2 fun b hb n hn =>
      .inl (functionSigns_subset_said hb (b.function.nameSign_mem n hn))

end Program

/-! ### Programs that are read from a text -/

section Texts

variable {p : Program} {lines : List String} {names : Names}
  (hp : Program.ofTokens (Lexed.ofLines lines names).tokens (Lexed.ofLines lines names).names =
    .ok p)
include hp

/-- A class that a type names has a number, and its name is no keyword. -/
theorem Program.id?_of_className {u : TypeUse} (hu : u ∈ p.typeUses) {name : String}
    (hname : u.type.className? = some name) :
    (∃ id, (Lexed.ofLines lines names).names.classes.id? name = some id) ∧
      Keyword.ofWord? name = none := by
  obtain ⟨t, ht, hsign⟩ := Program.exists_token hp (Program.baseSign_mem_said u hu)
  rw [DataType.className?] at hname
  split at hname
  next id cname hb =>
    cases hname
    rw [hb, baseSign] at hsign
    obtain ⟨hkind, hlexeme⟩ := kind_of_sign hsign
    have hfits := Lexed.fits_ofLines lines names ht
    rw [hkind, hlexeme rfl] at hfits
    exact ⟨⟨id, hfits.1⟩, hfits.2⟩
  next => cases hname

/-- The names that are declared and not those of classes are not known as such either. -/
theorem Program.not_mem_plainNames {name : String}
    (hclass : (Lexed.ofLines lines names).names.isClass name)
    (hword : Keyword.ofWord? name = none) : name ∉ p.plainNames := by
  intro hplain
  rcases Program.nameSign_mem_said name hplain with hsaid | rfl
  · obtain ⟨t, ht, hsign⟩ := Program.exists_token hp hsaid
    obtain ⟨hkind, hlexeme⟩ := kind_of_sign hsign
    have hnot := Lexed.not_isClass_ofLines lines names ht hkind
    rw [hlexeme rfl] at hnot
    cases hclass.symm.trans hnot
  · exact absurd hword (by decide)

theorem Program.not_mem_plainNames_of_className {u : TypeUse} (hu : u ∈ p.typeUses) {name : String}
    (hname : u.type.className? = some name) : name ∉ p.plainNames := by
  obtain ⟨⟨id, hid⟩, hword⟩ := Program.id?_of_className hp hu hname
  refine Program.not_mem_plainNames hp ?_ hword
  rw [Names.isClass, hid]
  rfl

end Texts

/-- The types that name resolution looks at are those of functions and methods. -/
theorem Program.exists_body {p : Program} {u : TypeUse} (hu : u ∈ p.typeUses)
    (hr : u.site.isResolved) : ∃ b ∈ p.bodies, u ∈ b.function.typeUses := by
  rcases List.mem_append.1 hu with hu | hu
  · obtain ⟨d, -, rfl⟩ := List.mem_map.1 hu
    cases hr
  rcases List.mem_append.1 hu with hu | hu
  · obtain ⟨f, hf, hu⟩ := List.mem_flatMap.1 hu
    exact ⟨⟨f, none⟩, mem_bodies.2 (.inl ⟨rfl, hf⟩), hu⟩
  obtain ⟨c, hc, hu⟩ := List.mem_flatMap.1 hu
  rcases List.mem_append.1 hu with hu | hu
  · obtain ⟨q, -, rfl⟩ := List.mem_map.1 hu
    cases hr
  rcases List.mem_append.1 hu with hu | hu
  · obtain ⟨d, -, rfl⟩ := List.mem_map.1 hu
    cases hr
  · obtain ⟨f, hf, hu⟩ := List.mem_flatMap.1 hu
    exact ⟨⟨f, some c⟩, mem_bodies.2 (.inr ⟨c, hc, rfl, hf⟩), hu⟩

theorem Program.mem_names_of_isResolved {p : Program} (h : p.checkNames = []) {u : TypeUse}
    (hu : u ∈ p.typeUses) (hr : u.site.isResolved) {name : String}
    (hname : u.type.className? = some name) : name ∈ p.classNames ∨ name ∈ p.plainNames := by
  obtain ⟨b, hb, hu⟩ := Program.exists_body hu hr
  exact Body.mem_names h hb u hu name hname

/-- Where name resolution finds no mistake, a class that is named in a function or method is
declared, or something else with its name is. In a program that compiles every class that is named
as a type is declared, but for one that is only named where it is not looked up, as the type of a
global, a class parameter or a property: it never follows the class keyword, and misled the
lexer. -/
theorem classTypes_declared (source : String) (p : Program) :
    (p.checkNames = [] → ∀ u ∈ p.typeUses, u.site.isResolved →
      ∀ name, u.type.className? = some name → name ∈ p.classNames ∨ name ∈ p.plainNames) ∧
    ((compile source .empty).outcome = .ok p →
      let namings := (Lexed.ofLines (splitLines source) .empty).namings
      ∀ u ∈ p.typeUses, ∀ name, u.type.className? = some name → name ∈ p.classNames ∨
        (u.site.isResolved = false ∧
          (∀ y ∈ namings, y.name = name → y.followsClassKeyword = false) ∧
          ∃ y ∈ namings, y.name = name ∧ y.isMisled)) := by
  refine ⟨fun h u hu hr name hname => Program.mem_names_of_isResolved h hu hr hname, ?_⟩
  intro h namings u hu name hname
  obtain ⟨hlexed, hp, hmistakes⟩ := compile_eq_ok.1 h
  have hnames := (Program.mistakes_eq_nil.1 hmistakes).1
  obtain ⟨⟨id, hid⟩, -⟩ := Program.id?_of_className hp hu hname
  have hplain := Program.not_mem_plainNames_of_className hp hu hname
  by_cases hmem : name ∈ p.classNames
  · exact .inl hmem
  have hfollows : ∀ y ∈ namings, y.name = name → y.followsClassKeyword = false := by
    rintro y hy rfl
    rw [← Bool.not_eq_true]
    intro hf
    obtain ⟨c, hc, hcname⟩ := Program.exists_class_of_followsClassKeyword hp hy hf
    rcases Program.mem_items.1 hc with ⟨d, -, he⟩ | ⟨f, -, he⟩ | ⟨d, hd, he⟩ | he <;> cases he
    exact hmem (List.mem_map.2 ⟨c, hd, hcname⟩)
  refine .inr ⟨?_, hfollows, ?_⟩
  · rw [← Bool.not_eq_true]
    exact fun hr => (Program.mem_names_of_isResolved hnames hu hr hname).elim hmem hplain
  · have hclass := NameTable.mem_of_id?_isSome.1 (Option.isSome_of_eq_some hid)
    obtain ⟨y, hy, hyname, hd⟩ := (Lexed.mem_classes_iff hlexed name).1 hclass
    refine ⟨y, hy, hyname, (Lexed.isMisled_iff_of_mem hlexed hy).2 ?_⟩
    rw [hd, hfollows y hy hyname]
    exact Bool.noConfusion

/-- A program that names its class as a type wherever one may be named. -/
def classEverywhere : String :=
  "cwass Cat(mom-Cat) [[\npal-Cat[]~\nfwunc kit-Cat(n-Cat) [[\nc-Cat = mom~\nwetuwn c~\n]]\n]]\n" ++
    "gwobaw tom-Cat~\nfwunc mainuwu-san() [[\nfow (a-Cat = tom~ fax~ a = tom) [[\n]]\n]]\n"

theorem classEverywhere_declared : ∃ p, (compile classEverywhere .empty).outcome = .ok p ∧
    (p.typeUses.filterMap fun u => u.type.className?).length = 7 ∧
    ∀ u ∈ p.typeUses, ∀ name, u.type.className? = some name → name ∈ p.classNames := by
  have hs : classEverywhere.toList = _ := toList_append_of_eq (toList_of_eq rfl) (toList_of_eq rfl)
  obtain ⟨p, hp, ht⟩ := exists_compiled classEverywhere .empty
    (fun p => (p.typeUses.filterMap fun u => u.type.className?).length == 7) hs (by decide +kernel)
  have hmisled : ∀ y ∈ (Lexed.ofLines (splitLines classEverywhere) .empty).namings,
      ¬y.isMisled := by
    rw [Lexed.ofLines_splitLines hs]
    decide +kernel
  refine ⟨p, hp, eq_of_beq ht, fun u hu name hname => ?_⟩
  refine ((classTypes_declared classEverywhere p).2 hp u hu name hname).resolve_right ?_
  rintro ⟨-, -, y, hy, -, hm⟩
  exact hmisled y hy hm

/-- A program whose only class keyword is in a comment. -/
def commentedKeyword : String :=
  "gwobaw a- >.< cwass\nFoo~\nfwunc mainuwu-san() [[\n]]\n"

/-- It compiles with a global of a class that it does not declare. -/
theorem commentedKeyword_notDeclared : ∃ p, (compile commentedKeyword .empty).outcome = .ok p ∧
    ∃ u ∈ p.typeUses, ∃ name, u.type.className? = some name ∧ name ∉ p.classNames := by
  obtain ⟨p, hp, ht⟩ := exists_compiled commentedKeyword .empty
    (fun p => p.typeUses.any fun u => u.type.className?.any fun name => !p.classNames.contains name)
    (toList_of_eq rfl) (by decide +kernel)
  obtain ⟨u, hu, hname⟩ := List.any_eq_true.1 ht
  obtain ⟨name, hname, hmem⟩ := (Option.any_eq_true _ _).1 hname
  exact ⟨p, hp, u, hu, name, hname, by simpa using hmem⟩

end Uwu
