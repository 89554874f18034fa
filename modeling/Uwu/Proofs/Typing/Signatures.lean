import Uwu.Typing.Program

/-! The signatures of a program: under the name of a function or a member stands what the program
declares under it first. -/

namespace Uwu

open Typing

def Function.signature (f : Function) : Signature :=
  .ofTypes f.paramTypes f.returnType

def Class.signature (c : Class) : Signature :=
  .ofTypes c.paramTypes c.type

/-- The first class with a name. -/
def classOf? (cs : List Class) (name : String) : Option Class :=
  cs.find? fun c => c.name.value == name

/-- The first function with a name. -/
def functionOf? (fs : List Function) (name : String) : Option Function :=
  fs.find? fun f => f.name.value == name

/-- What a class declares under a name, properties before methods. -/
def Class.member? (c : Class) (name : String) : Option Member :=
  ((c.properties.find? fun d => d.name.value == name).map fun d =>
      .property d.type d.isConst d.name.span).or
    ((functionOf? c.methods name).map fun f => .method f.signature)

theorem exists_functionOf? {fs : List Function} {name : String}
    (h : ∃ f ∈ fs, f.name.value = name) : ∃ f, functionOf? fs name = some f := by
  obtain ⟨f, hf, hn⟩ := h
  exact Option.isSome_iff_exists.1 (List.find?_isSome.2 ⟨f, hf, beq_iff_eq.2 hn⟩)

theorem exists_classOf? {cs : List Class} {name : String} (h : ∃ c ∈ cs, c.name.value = name) :
    ∃ c, classOf? cs name = some c := by
  obtain ⟨c, hc, hn⟩ := h
  exact Option.isSome_iff_exists.1 (List.find?_isSome.2 ⟨c, hc, beq_iff_eq.2 hn⟩)

namespace Class

variable {c : Class} {name : String}

theorem exists_method {sig : Signature} (h : c.member? name = some (.method sig)) :
    ∃ f, functionOf? c.methods name = some f ∧ f.signature = sig := by
  rw [member?, Option.or_eq_some_iff] at h
  rcases h with h | ⟨-, h⟩
  · obtain ⟨d, -, hd⟩ := Option.map_eq_some_iff.1 h
    cases hd
  · obtain ⟨f, hf, hs⟩ := Option.map_eq_some_iff.1 h
    cases hs
    exact ⟨f, hf, rfl⟩

/-- What is not a member is neither a property nor a method. -/
theorem member?_eq_none : c.member? name = none ↔
    (∀ d ∈ c.properties, d.name.value ≠ name) ∧ functionOf? c.methods name = none := by
  rw [member?, Option.or_eq_none_iff, Option.map_eq_none_iff, Option.map_eq_none_iff,
    List.find?_eq_none]
  simp only [beq_iff_eq]

end Class

/-! ### Keys of members -/

namespace Typing

theorem toList_memberKey (cls name : String) :
    (memberKey cls name).toList = cls.toList ++ '.' :: name.toList := by
  simp [memberKey]

/-- The first dot of a key stands behind the class, where that has none in it. -/
theorem splitKey_memberKey {cls : String} (h : '.' ∉ cls.toList) (name : String) :
    splitKey (memberKey cls name) = (cls, name) := by
  have hcls : (memberKey cls name).toList.takeWhile (· != '.') = cls.toList := by
    have hall : ∀ c ∈ cls.toList, (c != '.') = true := fun c hc =>
      bne_iff_ne.2 fun hdot => h (hdot ▸ hc)
    rw [toList_memberKey, List.takeWhile_append_of_pos hall, List.takeWhile_cons_of_neg (by simp),
      List.append_nil]
  rw [splitKey, hcls, toList_memberKey, List.drop_append, List.drop_of_length_le (Nat.le_succ _)]
  simp

theorem memberKey_eq_iff {cls cls' name name' : String} (h : '.' ∉ cls.toList)
    (h' : '.' ∉ cls'.toList) :
    memberKey cls name = memberKey cls' name' ↔ cls = cls' ∧ name = name' := by
  constructor
  · intro heq
    have hsplit := congrArg splitKey heq
    rwa [splitKey_memberKey h, splitKey_memberKey h', Prod.mk.injEq] at hsplit
  · rintro ⟨rfl, rfl⟩
    rfl

end Typing

namespace Typing.Signatures

theorem get?_addNew_or {κ ν : Type} [BEq κ] [LawfulBEq κ] (t : Table κ ν) (k : κ) (v : ν) (k' : κ) :
    (t.addNew k v).get? k' = (t.get? k').or (if k == k' then some v else none) := by
  rw [Table.get?_addNew]
  by_cases h : k' = k
  · subst h
    cases t.get? k' <;> simp
  · have hne : (k == k') = false := beq_eq_false_iff_ne.2 (Ne.symm h)
    simp [h, hne]

/-- Of several values for a key the first counts. -/
theorem get?_foldl_addNew {α κ ν : Type} [BEq κ] [LawfulBEq κ] (key : α → κ) (value : α → ν)
    (xs : List α) (t : Table κ ν) (k : κ) :
    (xs.foldl (fun t x => t.addNew (key x) (value x)) t).get? k =
      (t.get? k).or ((xs.find? fun x => key x == k).map value) := by
  induction xs generalizing t with
  | nil => simp
  | cons x xs ih =>
    rw [List.foldl_cons, ih, get?_addNew_or, List.find?_cons, Option.or_assoc]
    cases key x == k <;> simp

/-- A value in the table was there before, or is one of those that are added. -/
theorem mem_of_foldl_addNew {α κ ν : Type} [BEq κ] [LawfulBEq κ] (key : α → κ) (value : α → ν)
    {xs : List α} {t : Table κ ν} {k : κ} {v : ν}
    (h : (xs.foldl (fun t x => t.addNew (key x) (value x)) t).get? k = some v) :
    t.get? k = some v ∨ v ∈ xs.map value := by
  rw [get?_foldl_addNew, Option.or_eq_some_iff] at h
  refine h.imp_right fun ⟨_, hv⟩ => ?_
  obtain ⟨x, hx, rfl⟩ := Option.map_eq_some_iff.1 hv
  exact List.mem_map_of_mem (List.mem_of_find?_eq_some hx)

/-! ### What a declaration adds -/

theorem functions_addFunctions (fs : List Function) (s : Signatures) :
    (fs.foldl addFunction s).functions =
      fs.foldl (fun t f => t.addNew f.name.value f.signature) s.functions := by
  induction fs generalizing s with
  | nil => rfl
  | cons f fs ih => exact ih (s.addFunction f)

theorem memberTable_addFunctions (fs : List Function) (s : Signatures) :
    (fs.foldl addFunction s).memberTable = s.memberTable := by
  induction fs generalizing s with
  | nil => rfl
  | cons f fs ih => exact ih (s.addFunction f)

theorem classes_addFunctions (fs : List Function) (s : Signatures) :
    (fs.foldl addFunction s).classes = s.classes := by
  induction fs generalizing s with
  | nil => rfl
  | cons f fs ih => exact ih (s.addFunction f)

theorem foldl_addMember {α : Type} (cls : String) (name : α → String) (m : α → Member)
    (xs : List α) (s : Signatures) :
    xs.foldl (fun s x => s.addMember cls (name x) (m x)) s =
      { s with
        memberTable :=
          xs.foldl (fun t x => t.addNew (memberKey cls (name x)) (m x)) s.memberTable } := by
  induction xs generalizing s with
  | nil => rfl
  | cons x xs ih => exact ih (s.addMember cls (name x) (m x))

theorem functions_addClass (s : Signatures) (c : Class) :
    (s.addClass c).functions = s.functions := by
  simp only [addClass, foldl_addMember]

theorem functions_addClasses (cs : List Class) (s : Signatures) :
    (cs.foldl addClass s).functions = s.functions := by
  induction cs generalizing s with
  | nil => rfl
  | cons c cs ih => rw [List.foldl_cons, ih, functions_addClass]

theorem classes_addClass (s : Signatures) (c : Class) :
    (s.addClass c).classes = s.classes.addNew c.name.value c.signature := by
  simp only [addClass, foldl_addMember]
  rfl

theorem classes_addClasses (cs : List Class) (s : Signatures) :
    (cs.foldl addClass s).classes =
      cs.foldl (fun t c => t.addNew c.name.value c.signature) s.classes := by
  induction cs generalizing s with
  | nil => rfl
  | cons c cs ih => rw [List.foldl_cons, ih, classes_addClass, List.foldl_cons]

theorem member?_addClass {c : Class} {cls : String} (hc : '.' ∉ c.name.value.toList)
    (hcls : '.' ∉ cls.toList) (s : Signatures) (name : String) :
    (s.addClass c).member? cls name =
      (s.member? cls name).or (if c.name.value == cls then c.member? name else none) := by
  simp only [addClass, foldl_addMember, member?, get?_foldl_addNew, Option.or_assoc]
  have hkey (n : String) :
      (memberKey c.name.value n == memberKey cls name) = (c.name.value == cls && n == name) := by
    rw [Bool.eq_iff_iff, beq_iff_eq, memberKey_eq_iff hc hcls, Bool.and_eq_true, beq_iff_eq,
      beq_iff_eq]
  simp only [hkey]
  cases c.name.value == cls with
  | true => rfl
  | false =>
    have hnone {α : Type} (xs : List α) : xs.find? (fun _ => false) = none :=
      List.find?_eq_none.2 fun _ _ => Bool.false_ne_true
    simp [hnone]

/-- Classes with other names do not matter. -/
theorem member?_addClasses_of_ne {cs : List Class} {cls : String} (hcls : '.' ∉ cls.toList)
    (hdots : ∀ c ∈ cs, '.' ∉ c.name.value.toList) (h : ∀ c ∈ cs, c.name.value ≠ cls)
    (s : Signatures) (name : String) :
    (cs.foldl addClass s).member? cls name = s.member? cls name := by
  induction cs generalizing s with
  | nil => rfl
  | cons c cs ih =>
    obtain ⟨hc, hcs⟩ := List.forall_mem_cons.1 h
    obtain ⟨hdot, hdots⟩ := List.forall_mem_cons.1 hdots
    rw [List.foldl_cons, ih hdots hcs, member?_addClass hdot hcls, beq_eq_false_iff_ne.2 hc,
      if_neg (by simp), Option.or_none]

/-- Of classes with different names each has the members that it declares. -/
theorem member?_addClasses {cs : List Class} (hcs : (cs.map fun c => c.name.value).Nodup)
    (hdots : ∀ c ∈ cs, '.' ∉ c.name.value.toList) {c : Class} (hc : c ∈ cs) {s : Signatures}
    (name : String) (hs : s.member? c.name.value name = none) :
    (cs.foldl addClass s).member? c.name.value name = c.member? name := by
  induction cs generalizing s with
  | nil => cases hc
  | cons d ds ih =>
    have hcdot := hdots c hc
    obtain ⟨hd, hds⟩ := List.nodup_cons.1 hcs
    obtain ⟨hdot, hrest⟩ := List.forall_mem_cons.1 hdots
    rw [List.foldl_cons]
    rcases List.mem_cons.1 hc with rfl | hc
    · have hne : ∀ e ∈ ds, e.name.value ≠ c.name.value := fun e he heq =>
        hd (List.mem_map.2 ⟨e, he, heq⟩)
      rw [member?_addClasses_of_ne hcdot hrest hne, member?_addClass hdot hcdot, hs,
        beq_self_eq_true, if_pos rfl, Option.none_or]
    · have hne : d.name.value ≠ c.name.value := fun heq =>
        hd (List.mem_map.2 ⟨c, hc, heq.symm⟩)
      refine ih hds hrest hc ?_
      rw [member?_addClass hdot hcdot, hs, beq_eq_false_iff_ne.2 hne, if_neg (by simp),
        Option.or_none]

end Typing.Signatures

section Programs

variable (p : Program)

theorem functions_ofProgram (name : String) :
    (Signatures.ofProgram p).functions.get? name =
      (functionOf? p.functions name).map Function.signature := by
  rw [Signatures.ofProgram, Signatures.functions_addClasses, Signatures.functions_addFunctions,
    Signatures.get?_foldl_addNew]
  rfl

theorem classes_ofProgram (name : String) :
    (Signatures.ofProgram p).classes.get? name =
      (classOf? p.classes name).map Class.signature := by
  rw [Signatures.ofProgram, Signatures.classes_addClasses, Signatures.classes_addFunctions,
    Signatures.get?_foldl_addNew]
  rfl

theorem member?_ofProgram (h : (p.classes.map fun c => c.name.value).Nodup)
    (hdots : ∀ c ∈ p.classes, '.' ∉ c.name.value.toList) {c : Class} (hc : c ∈ p.classes)
    (name : String) : (Signatures.ofProgram p).member? c.name.value name = c.member? name := by
  refine Signatures.member?_addClasses h hdots hc name ?_
  rw [Signatures.member?, Signatures.memberTable_addFunctions]
  rfl

end Programs

end Uwu
