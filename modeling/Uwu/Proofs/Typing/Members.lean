import Mathlib.Data.List.Nodup
import Mathlib.Data.Prod.Basic
import Uwu.Proofs.Grammar.ItemNames
import Uwu.Proofs.Scope.ClassTypes
import Uwu.Proofs.Scope.GlobalTable
import Uwu.Proofs.Scope.Meanings
import Uwu.Proofs.Typing.Signatures

/-! The signatures of a program in which no name is declared twice. Each table has one row for each
declaration, and the members of a class are found in it, whatever other classes declare. Their keys
join the names of class and member by a dot, and can be parted again: no name of a class has a dot
in it. -/

namespace Uwu

open Typing

/-! ### Tables by their rows -/

namespace Table

variable {α κ ν : Type}

/-- The table has these rows and no others, and no two of them have one key. -/
structure Lists (t : Table κ ν) (rows : List (κ × ν)) : Prop where
  toList : t.toList = rows
  keys : (rows.map Prod.fst).Nodup

variable [BEq κ] [LawfulBEq κ] {t : Table κ ν} {rows : List (κ × ν)} {k : κ} {v : ν}

theorem Lists.get?_eq_some_iff (h : t.Lists rows) : t.get? k = some v ↔ (k, v) ∈ rows := by
  rw [get?, h.toList, List.lookup_eq_some_iff]
  constructor
  · rintro ⟨before, behind, rfl, -⟩
    exact List.mem_append_right _ List.mem_cons_self
  · intro hmem
    obtain ⟨before, behind, rfl⟩ := List.append_of_mem hmem
    refine ⟨before, behind, rfl, fun row hrow => ?_⟩
    have hkeys := h.keys
    rw [List.map_append, List.map_cons, List.nodup_append] at hkeys
    have hne := hkeys.2.2 row.1 (List.mem_map_of_mem hrow) k List.mem_cons_self
    exact bne_iff_ne.2 hne.symm

theorem toList_addNew_of_notMem (hk : k ∉ t.toList.map Prod.fst) (v : ν) :
    (t.addNew k v).toList = t.toList ++ [(k, v)] := by
  rw [← contains_iff_mem] at hk
  rw [addNew, if_neg hk]

theorem toList_foldl_addNew (key : α → κ) (value : α → ν) {xs : List α}
    (h : (t.toList.map Prod.fst ++ xs.map key).Nodup) :
    (xs.foldl (fun t x => t.addNew (key x) (value x)) t).toList =
      t.toList ++ xs.map fun x => (key x, value x) := by
  induction xs generalizing t with
  | nil => exact (List.append_nil _).symm
  | cons x xs ih =>
    have hx : key x ∉ t.toList.map Prod.fst := fun hmem =>
      (List.nodup_append.1 h).2.2 _ hmem _ List.mem_cons_self rfl
    have hnew := toList_addNew_of_notMem hx (value x)
    rw [List.foldl_cons, ih, hnew, List.map_cons, List.append_assoc, List.singleton_append]
    rw [hnew, List.map_append, List.append_assoc]
    exact h

/-- Values that are added for different keys all stay. -/
theorem lists_foldl_addNew (key : α → κ) (value : α → ν) {xs : List α} (h : (xs.map key).Nodup) :
    (xs.foldl (fun t x => t.addNew (key x) (value x)) (.empty : Table κ ν)).Lists
      (xs.map fun x => (key x, value x)) := by
  refine ⟨toList_foldl_addNew key value h, ?_⟩
  rw [List.map_map]
  exact h

end Table

/-! ### The members of classes -/

/-- The members of a class by their names: the properties, and then the methods. -/
def Class.members (c : Class) : List (String × Member) :=
  c.properties.map (fun d => (d.name.value, .property d.type d.isConst d.name.span)) ++
    c.methods.map fun f => (f.name.value, .method ⟨f.paramTypes.map .exact, f.returnType⟩)

/-- The members of all classes by the names of class and member. -/
def Program.members (p : Program) : List ((String × String) × Member) :=
  p.classes.flatMap fun c => c.members.map fun x => ((c.name.value, x.1), x.2)

/-- What `find` finds by its name is what the class declares: a property with its type, whether it
is constant and where it stands, or a method with its parameters and what it returns. -/
structure Class.FoundBy (c : Class) (find : String → Option Member) : Prop where
  property : ∀ d ∈ c.properties,
    find d.name.value = some (.property d.type d.isConst d.name.span)
  method : ∀ f ∈ c.methods,
    find f.name.value = some (.method ⟨f.paramTypes.map .exact, f.returnType⟩)
  none : ∀ name, (∀ d ∈ c.properties, d.name.value ≠ name) →
    (∀ f ∈ c.methods, f.name.value ≠ name) → find name = none

theorem Class.foundBy_of_mem {c : Class} {find : String → Option Member}
    (h : ∀ name m, find name = some m ↔ (name, m) ∈ c.members) : c.FoundBy find := by
  refine ⟨fun d hd => ?_, fun f hf => ?_, fun name hproperties hmethods => ?_⟩
  · exact (h _ _).2 (List.mem_append_left _ (List.mem_map_of_mem hd))
  · exact (h _ _).2 (List.mem_append_right _ (List.mem_map_of_mem hf))
  · refine Option.eq_none_iff_forall_ne_some.2 fun m hm => ?_
    rcases List.mem_append.1 ((h name m).1 hm) with hm | hm
    · obtain ⟨d, hd, hdm⟩ := List.mem_map.1 hm
      exact hproperties d hd (congrArg Prod.fst hdm)
    · obtain ⟨f, hf, hfm⟩ := List.mem_map.1 hm
      exact hmethods f hf (congrArg Prod.fst hfm)

theorem Class.nodup_members {c : Class} (h : Scope.duplicates .empty c.entries = []) :
    (c.members.map Prod.fst).Nodup := by
  have hd := (Scope.duplicates_eq_nil.1 h).2
  rw [entries, List.append_assoc, List.map_append, List.nodup_append] at hd
  simpa [members, Function.comp_def, Declaration.entry] using hd.2.1

namespace Program

variable {p : Program} {c : Class} {name : String} {m : Member}

/-- A member is that of a class. -/
theorem fst_mem_classNames {x : (String × String) × Member} (h : x ∈ p.members) :
    x.1.1 ∈ p.classNames := by
  obtain ⟨c, hc, hx⟩ := List.mem_flatMap.1 h
  obtain ⟨y, -, rfl⟩ := List.mem_map.1 hx
  exact List.mem_map.2 ⟨c, hc, rfl⟩

/-- Classes with other names declare nothing for this one. -/
theorem mem_members (hd : p.classNames.Nodup) (hc : c ∈ p.classes) :
    ((c.name.value, name), m) ∈ p.members ↔ (name, m) ∈ c.members := by
  constructor
  · intro h
    obtain ⟨c', hc', hx⟩ := List.mem_flatMap.1 h
    obtain ⟨⟨name', m'⟩, hy, heq⟩ := List.mem_map.1 hx
    simp only [Prod.mk.injEq] at heq
    obtain ⟨⟨hname, rfl⟩, rfl⟩ := heq
    rwa [List.inj_on_of_nodup_map hd hc hc' hname.symm]
  · exact fun h => List.mem_flatMap.2 ⟨c, hc, List.mem_map.2 ⟨_, h, rfl⟩⟩

/-- No member is declared twice where neither classes are nor, in any of them, members. -/
theorem nodup_members (hd : p.classNames.Nodup)
    (hcs : ∀ c ∈ p.classes, (c.members.map Prod.fst).Nodup) :
    (p.members.map Prod.fst).Nodup := by
  rw [members, List.map_flatMap, List.nodup_flatMap]
  constructor
  · intro c hc
    rw [List.map_map]
    have hpairs := (hcs c hc).map (Prod.mk_right_injective c.name.value)
    rwa [List.map_map] at hpairs
  · refine (List.pairwise_map.1 hd).imp fun {c c'} hne => ?_
    simp only [Function.onFun, List.disjoint_left, List.map_map, List.mem_map]
    rintro _ ⟨x, -, rfl⟩ ⟨x', -, heq⟩
    exact hne (congrArg Prod.fst heq).symm

end Program

/-! ### The table of members -/

namespace Typing.Signatures

theorem memberTable_addClass (s : Signatures) (c : Class) : (s.addClass c).memberTable =
    c.members.foldl (fun t x => t.addNew (memberKey c.name.value x.1) x.2) s.memberTable := by
  rw [Class.members, List.foldl_append, List.foldl_map, List.foldl_map]
  simp only [addClass, foldl_addMember]
  rfl

theorem memberTable_addClasses (cs : List Class) (s : Signatures) :
    (cs.foldl addClass s).memberTable =
      cs.foldl (fun t c =>
        c.members.foldl (fun t x => t.addNew (memberKey c.name.value x.1) x.2) t)
        s.memberTable := by
  induction cs generalizing s with
  | nil => rfl
  | cons c cs ih => rw [List.foldl_cons, ih, memberTable_addClass, List.foldl_cons]

/-- One row for each function and class, and for each member of a class, under a key with a dot. The
entry is not among the functions, and a class has the members that it declares. -/
structure Lists (s : Signatures) (p : Program) : Prop where
  functions : s.functions.Lists
    (p.functions.map fun f => (f.name.value, ⟨f.paramTypes.map .exact, f.returnType⟩))
  entry : s.functions.get? p.entry.name.value = none
  classes : s.classes.Lists
    (p.classes.map fun c => (c.name.value, ⟨c.paramTypes.map .exact, c.type⟩))
  memberTable : s.memberTable.Lists (p.members.map fun x => (memberKey x.1.1 x.1.2, x.2))
  members : s.members.Lists p.members
  found : ∀ c ∈ p.classes, c.FoundBy (s.member? c.name.value)

end Typing.Signatures

namespace Program

variable {p : Program}

theorem memberTable_ofProgram (p : Program) : (Signatures.ofProgram p).memberTable =
    p.members.foldl (fun t x => t.addNew (memberKey x.1.1 x.1.2) x.2) .empty := by
  rw [Signatures.ofProgram, Signatures.memberTable_addClasses, Signatures.memberTable_addFunctions,
    members, List.foldl_flatMap]
  simp only [List.foldl_map]
  rfl

theorem Named.dot_notMem_of_mem_classNames (h : p.Named) {cls : String}
    (hcls : cls ∈ p.classNames) : '.' ∉ cls.toList := by
  obtain ⟨c, hc, rfl⟩ := List.mem_map.1 hcls
  exact h.dot_notMem c hc

/-- A key tells which class and which name it is made of. -/
theorem Named.splitKey_memberKey (h : p.Named) {cls : String} (hcls : cls ∈ p.classNames)
    (name : String) : splitKey (memberKey cls name) = (cls, name) :=
  Typing.splitKey_memberKey (h.dot_notMem_of_mem_classNames hcls) name

/-- The names in the keys of members are those that the keys were made of. -/
theorem Named.map_splitKey (h : p.Named) :
    (p.members.map fun x => (memberKey x.1.1 x.1.2, x.2)).map (Prod.map splitKey id) =
      p.members := by
  rw [List.map_map]
  refine (List.map_congr_left fun x hx => ?_).trans (List.map_id p.members)
  exact Prod.ext (h.splitKey_memberKey (fst_mem_classNames hx) x.1.2) rfl

/-- Members that are told apart by class and name have different keys. -/
theorem Named.lists_memberTable (h : p.Named) (hd : (p.members.map Prod.fst).Nodup) :
    (Signatures.ofProgram p).memberTable.Lists
      (p.members.map fun x => (memberKey x.1.1 x.1.2, x.2)) := by
  rw [memberTable_ofProgram]
  refine Table.lists_foldl_addNew _ _ (List.Nodup.of_map splitKey ?_)
  have hkeys := congrArg (List.map Prod.fst) h.map_splitKey
  rw [List.map_map, List.map_map] at hkeys
  rw [List.map_map]
  exact hkeys ▸ hd

variable {lines : List String} {names known : Names}

/-- In a program without mistakes in its names the signatures list what is declared, and a class has
the members that it declares. No two members of its classes have one key. -/
theorem signatures_list
    (h : Program.ofTokens (Lexed.ofLines lines names).tokens known = .ok p)
    (hn : p.checkNames = []) :
    (Signatures.ofProgram p).Lists p ∧
      ∀ cls ∈ p.classNames, ∀ cls' ∈ p.classNames, ∀ name name',
        memberKey cls name = memberKey cls' name' → cls = cls' ∧ name = name' := by
  obtain ⟨⟨hd, -, -⟩, hcs⟩ := checkNames_eq_nil.1 hn
  have hnamed := named_ofTokens (Lexed.worded_ofLines lines names) h
  have hmembers : (p.members.map Prod.fst).Nodup :=
    nodup_members (nodup_classNames hd) fun c hc => Class.nodup_members (hcs c hc).1
  have htable := hnamed.lists_memberTable hmembers
  have hfunctions : (Signatures.ofProgram p).functions.Lists
      (p.functions.map fun f => (f.name.value, f.signature)) := by
    rw [Signatures.ofProgram, Signatures.functions_addClasses, Signatures.functions_addFunctions]
    exact Table.lists_foldl_addNew _ _ (nodup_functionNames hd)
  have hclasses : (Signatures.ofProgram p).classes.Lists
      (p.classes.map fun c => (c.name.value, c.signature)) := by
    rw [Signatures.ofProgram, Signatures.classes_addClasses, Signatures.classes_addFunctions]
    exact Table.lists_foldl_addNew _ _ (nodup_classNames hd)
  refine ⟨⟨hfunctions, ?_, hclasses, htable, ⟨?_, hmembers⟩, fun c hc => ?_⟩,
    fun cls hcls cls' hcls' name name' heq => ?_⟩
  · refine Option.eq_none_iff_forall_ne_some.2 fun sig hsig => ?_
    obtain ⟨f, hf, heq⟩ := List.mem_map.1 (hfunctions.get?_eq_some_iff.1 hsig)
    exact hnamed.functions f hf ((congrArg Prod.fst heq).trans hnamed.entry)
  · rw [Signatures.members, htable.toList]
    exact hnamed.map_splitKey
  · refine Class.foundBy_of_mem fun name m => ?_
    have hclass : c.name.value ∈ p.classNames := List.mem_map.2 ⟨c, hc, rfl⟩
    rw [Signatures.member?, htable.get?_eq_some_iff, ← mem_members (nodup_classNames hd) hc,
      List.mem_map]
    constructor
    · rintro ⟨x, hx, heq⟩
      have hsplit := congrArg (Prod.map splitKey id) heq
      simp only [Prod.map_apply, hnamed.splitKey_memberKey (fst_mem_classNames hx),
        hnamed.splitKey_memberKey hclass, id] at hsplit
      exact hsplit ▸ hx
    · exact fun hx => ⟨_, hx, rfl⟩
  · have hdot := hnamed.dot_notMem_of_mem_classNames hcls
    have hdot' := hnamed.dot_notMem_of_mem_classNames hcls'
    exact (memberKey_eq_iff hdot hdot').1 heq

end Program

/-- Two classes and members whose names are the same where they are joined without a dot, and a
method with the same name in both classes, as a function has. -/
def joinedNames : String :=
  "cwass A() [[\nbc-chan = 1~\nfwunc d-san() [[\n]]\n]]\n" ++
    "cwass Ab() [[\nc-kun-dono = 2.5~\nfwunc d-chan(n-chan) [[\nwetuwn n~\n]]\n]]\n" ++
    "fwunc d-san() [[\n]]\nfwunc mainuwu-san() [[\n]]\n"

theorem joinedNames_list : ∃ p, Program.ofTokens
      (Lexed.ofLines (splitLines joinedNames) .empty).tokens
      (Lexed.ofLines (splitLines joinedNames) .empty).names = .ok p ∧ p.checkNames = [] ∧
    ((Signatures.ofProgram p).memberTable.toList.map Prod.fst = ["A.bc", "A.d", "Ab.c", "Ab.d"] ∧
      p.functions.map (fun f => f.name.value) = ["d"]) ∧
    (Signatures.ofProgram p).Lists p ∧
      ∀ cls ∈ p.classNames, ∀ cls' ∈ p.classNames, ∀ name name',
        memberKey cls name = memberKey cls' name' → cls = cls' ∧ name = name' := by
  have hs : joinedNames.toList = _ := toList_append_of_eq (toList_append_of_eq (toList_of_eq rfl)
    (toList_of_eq rfl)) (toList_of_eq rfl)
  obtain ⟨p, hp, ht⟩ := exists_parsed joinedNames .empty (fun p => p.checkNames.isEmpty &&
    ((Signatures.ofProgram p).memberTable.toList.map Prod.fst == ["A.bc", "A.d", "Ab.c", "Ab.d"] &&
      p.functions.map (fun f => f.name.value) == ["d"])) hs (by decide +kernel)
  rw [Bool.and_eq_true, Bool.and_eq_true, List.isEmpty_iff, beq_iff_eq, beq_iff_eq] at ht
  exact ⟨p, hp, ht.1, ht.2, Program.signatures_list hp ht.1⟩

end Uwu
