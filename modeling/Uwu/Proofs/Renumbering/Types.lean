import Uwu.Proofs.Renumbering.Scoping

/-! The types of expressions in a program with other numbers for its classes. No two classes get one
number, so the same types fit, and the same mistakes are found. -/

namespace Uwu

/-! ### Types -/

namespace DataType

variable (f : Nat → Nat)

@[simp]
theorem countsAsNumber_renumber (t : DataType) :
    (t.renumber f).countsAsNumber = t.countsAsNumber := by
  simp [countsAsNumber]

theorem fits_renumber (hf : f.Injective) (t expected : DataType) (inCall : Bool) :
    (t.renumber f).fits (expected.renumber f) inCall = t.fits expected inCall := by
  obtain ⟨base, dimension⟩ := expected
  simp only [fits, (renumber_injective f hf).eq_iff, isNothing_renumber, countsAsNumber_renumber,
    isString_renumber, isInput_renumber, isBlankArray_renumber, dimension_renumber]
  cases base <;> rfl

end DataType

namespace Typing

/-! ### Results -/

namespace Checked

variable {α β α' β' : Type}

/-- Another value with the same mistakes. -/
def mapValue (g : α → β) (c : Checked α) : Checked β :=
  ⟨g c.value, c.mistakes⟩

@[simp]
theorem mapValue_pure (g : α → β) (a : α) : (pure a : Checked α).mapValue g = pure (g a) := rfl

theorem mapValue_ite (g : α → β) (p : Prop) [Decidable p] (c d : Checked α) :
    (if p then c else d).mapValue g = if p then c.mapValue g else d.mapValue g :=
  apply_ite (mapValue g) p c d

theorem bind_eq_mapValue {g : α → β} {g' : α' → β'} {c : Checked α} {d : Checked β}
    {k : α → Checked α'} {l : β → Checked β'} (hd : d = c.mapValue g)
    (hl : ∀ a, l (g a) = (k a).mapValue g') : (d >>= l) = (c >>= k).mapValue g' := by
  subst hd
  change Checked.mk (l (g c.value)).value (c.mistakes ++ (l (g c.value)).mistakes) = _
  rw [hl]
  rfl

/-- A result that stays the same. -/
theorem bind_eq_mapValue_self {g' : α' → β'} {c : Checked α} {k : α → Checked α'}
    {l : α → Checked β'} (hl : ∀ a, l a = (k a).mapValue g') :
    (c >>= l) = (c >>= k).mapValue g' :=
  bind_eq_mapValue (g := id) rfl hl

end Checked

open Checked

variable {f : Nat → Nat}

/-! ### Operators -/

/-- Operands with other numbers in their types. -/
def renumberOperands (f : Nat → Nat) (operands : List (DataType × Span)) :
    List (DataType × Span) :=
  operands.map (Prod.map (DataType.renumber f) id)

theorem typeOfLiteral_renumber (f : Nat → Nat) (l : Literal) :
    (typeOfLiteral l).renumber f = typeOfLiteral l := by
  cases l <;> rfl

theorem numericOperands_renumber (f : Nat → Nat) (op : String)
    (operands : List (DataType × Span)) :
    numericOperands op (renumberOperands f operands) = numericOperands op operands := by
  induction operands with
  | nil => rfl
  | cons x operands ih =>
    obtain ⟨t, span⟩ := x
    change numericOperands op ((t.renumber f, span) :: renumberOperands f operands) = _
    simp only [numericOperands, ih, DataType.isNothing_renumber, DataType.countsAsNumber_renumber,
      DataType.shown_renumber]

theorem any_kun_renumber (f : Nat → Nat) (operands : List (DataType × Span)) :
    (renumberOperands f operands).any (fun (t, _) => t.base == .kun) =
      operands.any fun (t, _) => t.base == .kun := by
  simp [renumberOperands, Function.comp_def, DataType.beq_base_renumber]

theorem arithmetic_renumber (f : Nat → Nat) (op : String) (operands : List (DataType × Span)) :
    arithmetic op (renumberOperands f operands) =
      (arithmetic op operands).mapValue (DataType.renumber f) := by
  rw [arithmetic, arithmetic, numericOperands_renumber]
  refine bind_eq_mapValue_self fun numeric => ?_
  rw [any_kun_renumber]
  split
  next => split <;> rfl
  next => rfl

theorem infixType_renumber (f : Nat → Nat) (op : InfixOp) (l r : DataType × Span) :
    infixType op (Prod.map (DataType.renumber f) id l) (Prod.map (DataType.renumber f) id r) =
      (infixType op l r).mapValue (DataType.renumber f) := by
  have hnumeric := numericOperands_renumber f op.spelling [l, r]
  have harithmetic := arithmetic_renumber f op.spelling [l, r]
  cases op with
  | join | equal | notEqual | and | or => rfl
  | add | subtract | multiply | divide | remainder => exact harithmetic
  | less | lessEqual | greater | greaterEqual =>
    change (numericOperands _ (renumberOperands f [l, r]) >>= _) = _
    rw [hnumeric]
    refine bind_eq_mapValue_self fun numeric => ?_
    split <;> rfl

/-! ### Arrays -/

theorem arrayMistake_renumber (f : Nat → Nat) (types : List DataType) (span : Span) :
    arrayMistake (types.map (DataType.renumber f)) span =
      (arrayMistake types span).mapValue (DataType.renumber f) := by
  have hshown : (types.map (DataType.renumber f)).map DataType.shown =
      types.map DataType.shown := by
    simp [Function.comp_def]
  rw [arrayMistake, arrayMistake, hshown]
  rfl

theorem arrayType_renumber (hf : f.Injective) (types : List DataType) (span : Span) :
    arrayType (types.map (DataType.renumber f)) span =
      (arrayType types span).mapValue (DataType.renumber f) := by
  have hnothing : (types.map (DataType.renumber f)).any DataType.isNothing =
      types.any DataType.isNothing := by
    simp [Function.comp_def]
  have hpartition : (types.map (DataType.renumber f)).partition DataType.isBlankArray =
      ((types.partition DataType.isBlankArray).1.map (DataType.renumber f),
        (types.partition DataType.isBlankArray).2.map (DataType.renumber f)) := by
    simp [List.partition_eq_filter_filter, List.filter_map, Function.comp_def]
  have hdepths (ts : List DataType) :
      (ts.map (DataType.renumber f)).map DataType.dimension = ts.map DataType.dimension := by
    simp [Function.comp_def]
  simp only [arrayType, hnothing, hpartition, hdepths]
  split
  next => rfl
  next =>
    generalize ((types.partition DataType.isBlankArray).1.map DataType.dimension).foldl max 0 =
      depth
    cases (types.partition DataType.isBlankArray).2 with
    | nil => rfl
    | cons t ts =>
      have hall : (ts.map (DataType.renumber f)).all (· == t.renumber f) = ts.all (· == t) := by
        simp [Function.comp_def, (DataType.renumber_injective f hf).beq_eq]
      have hguard : ((ts.map (DataType.renumber f)).all (· == t.renumber f) &&
          decide (depth ≤ (t.renumber f).dimension)) =
            (ts.all (· == t) && decide (depth ≤ t.dimension)) := by
        rw [hall]
        rfl
      simp only [List.map_cons, hguard]
      by_cases h : ts.all (· == t) && depth ≤ t.dimension
      · rw [if_pos h, if_pos h]
        rfl
      · rw [if_neg h, if_neg h]
        exact arrayMistake_renumber f types span

theorem elementType_renumber (f : Nat → Nat) (t : DataType) (span : Span) :
    elementType (t.renumber f) span = (elementType t span).mapValue (DataType.renumber f) := by
  simp only [elementType, DataType.isNothing_renumber, DataType.isString_renumber,
    DataType.isArray_renumber, DataType.shown_renumber]
  split
  · rfl
  · split
    · rfl
    · split <;> rfl

theorem checkIndex_renumber (f : Nat → Nat) (t : DataType) (span : Span) :
    checkIndex (t.renumber f) span = checkIndex t span := by
  simp [checkIndex]

/-! ### Signatures -/

variable (f) in
def ParamSlot.renumber : ParamSlot → ParamSlot
  | exact t => exact (t.renumber f)
  | element => element

variable (f) in
def Signature.renumber (sig : Signature) : Signature :=
  ⟨sig.params.map (ParamSlot.renumber f), sig.returnType.renumber f⟩

variable (f) in
def Member.renumber : Member → Member
  | property t isConst site => property (t.renumber f) isConst site
  | method sig => method (sig.renumber f)

variable (f) in
def Signatures.renumber (s : Signatures) : Signatures :=
  ⟨s.functions.mapValues (Signature.renumber f), s.classes.mapValues (Signature.renumber f),
    s.memberTable.mapValues (Member.renumber f)⟩

theorem ParamSlot.resolve_renumber (f : Nat → Nat) (receiver : Option DataType) (p : ParamSlot) :
    (p.renumber f).resolve (receiver.map (DataType.renumber f)) =
      (p.resolve receiver).map (DataType.renumber f) := by
  cases p with
  | exact t => rfl
  | element =>
    cases receiver with
    | none => rfl
    | some r =>
      change (if (r.renumber f).isArray then _ else _) = List.map _ (if r.isArray then _ else _)
      rw [DataType.isArray_renumber]
      split <;> rfl

theorem ParamSlot.shown_renumber (f : Nat → Nat) (receiver : Option DataType) (p : ParamSlot) :
    (p.renumber f).shown (receiver.map (DataType.renumber f)) = p.shown receiver := by
  rw [shown, resolve_renumber, shown]
  simp [Function.comp_def]

theorem Signature.ofTypes_renumber (f : Nat → Nat) (params : List DataType)
    (returnType : DataType) :
    (ofTypes params returnType).renumber f =
      ofTypes (params.map (DataType.renumber f)) (returnType.renumber f) := by
  simp [ofTypes, renumber, ParamSlot.renumber]

/-- Methods of strings and arrays are about no class. -/
theorem methodOf?_renumber (f : Nat → Nat) (receiver : DataType) (name : String) :
    methodOf? (receiver.renumber f) name =
      (methodOf? receiver name).map (Signature.renumber f) := by
  have hstring : (stringMethod? name).map (Signature.renumber f) = stringMethod? name := by
    unfold stringMethod?
    split <;> rfl
  have harray : (arrayMethod? name).map (Signature.renumber f) = arrayMethod? name := by
    unfold arrayMethod?
    split <;> rfl
  rw [methodOf?, methodOf?, DataType.isString_renumber, DataType.isArray_renumber,
    apply_ite (Option.map _), apply_ite (Option.map _), hstring, harray]
  rfl

namespace Signatures

variable (f) (s : Signatures)

theorem addFunction_renumber (g : Function) :
    (s.renumber f).addFunction (g.renumber f) = (s.addFunction g).renumber f := by
  have hadd := s.functions.addNew_mapValues (Signature.renumber f) g.name.value
    (.ofTypes g.paramTypes g.returnType)
  rw [Signature.ofTypes_renumber, ← Function.paramTypes_renumber] at hadd
  exact congrArg (fun functions => { s.renumber f with functions }) hadd

theorem addMember_renumber (cls name : String) (m : Member) :
    (s.renumber f).addMember cls name (m.renumber f) = (s.addMember cls name m).renumber f :=
  congrArg (fun memberTable => { s.renumber f with memberTable })
    (s.memberTable.addNew_mapValues (Member.renumber f) (memberKey cls name) m)

theorem addProperties_renumber (cls : String) (ds : List Declaration) :
    (ds.map (Declaration.renumber f)).foldl
        (fun s d => s.addMember cls d.name.value (.property d.type d.isConst d.name.span))
        (s.renumber f) =
      (ds.foldl (fun s d => s.addMember cls d.name.value
        (.property d.type d.isConst d.name.span)) s).renumber f := by
  rw [List.foldl_map]
  exact List.foldl_hom (renumber f) fun s d =>
    s.addMember_renumber f _ _ (.property d.type d.isConst d.name.span)

theorem addMethods_renumber (cls : String) (gs : List Function) :
    (gs.map (Function.renumber f)).foldl
        (fun s g => s.addMember cls g.name.value (.method (.ofTypes g.paramTypes g.returnType)))
        (s.renumber f) =
      (gs.foldl (fun s g => s.addMember cls g.name.value
        (.method (.ofTypes g.paramTypes g.returnType))) s).renumber f := by
  rw [List.foldl_map]
  refine List.foldl_hom (renumber f) fun s g => ?_
  have hmethod := s.addMember_renumber f cls g.name.value
    (.method (.ofTypes g.paramTypes g.returnType))
  rw [Member.renumber, Signature.ofTypes_renumber, ← Function.paramTypes_renumber] at hmethod
  exact hmethod

theorem addClass_renumber (c : Class) :
    (s.renumber f).addClass (c.renumber f) = (s.addClass c).renumber f := by
  have hadd := s.classes.addNew_mapValues (Signature.renumber f) c.name.value
    (.ofTypes c.paramTypes c.type)
  rw [Signature.ofTypes_renumber, ← Class.paramTypes_renumber] at hadd
  have hclasses :
      { s.renumber f with
        classes := (s.renumber f).classes.addNew c.name.value
          (.ofTypes (c.renumber f).paramTypes (c.type.renumber f)) } =
      renumber f
        { s with classes := s.classes.addNew c.name.value (.ofTypes c.paramTypes c.type) } :=
    congrArg (fun classes => { s.renumber f with classes }) hadd
  rw [addClass, addClass, ← addMethods_renumber, ← addProperties_renumber, ← hclasses]
  rfl

theorem ofProgram_renumber (p : Program) :
    ofProgram (p.renumber f) = (ofProgram p).renumber f := by
  have hfunctions : (p.functions.map (Function.renumber f)).foldl addFunction (empty.renumber f) =
      (p.functions.foldl addFunction empty).renumber f := by
    rw [List.foldl_map]
    exact List.foldl_hom (renumber f) (addFunction_renumber f)
  have hclasses (s : Signatures) : (p.classes.map (Class.renumber f)).foldl addClass
      (s.renumber f) = (p.classes.foldl addClass s).renumber f := by
    rw [List.foldl_map]
    exact List.foldl_hom (renumber f) (addClass_renumber f)
  rw [ofProgram, ofProgram, ← hclasses, ← hfunctions]
  rfl

end Signatures

/-! ### Calls -/

theorem argMismatches_renumber (hf : f.Injective) (receiver : Option DataType) (l : Nat)
    (args : List DataType) (params : List ParamSlot) :
    argMismatches (receiver.map (DataType.renumber f)) l (args.map (DataType.renumber f))
        (params.map (ParamSlot.renumber f)) =
      argMismatches receiver l args params := by
  induction args generalizing l params with
  | nil => rfl
  | cons arg args ih =>
    cases params with
    | nil => rfl
    | cons param params =>
      have hfits : ((param.renumber f).resolve (receiver.map (DataType.renumber f))).any
          (fun expected => (arg.renumber f).fits expected true) =
            (param.resolve receiver).any fun expected => arg.fits expected true := by
        simp [ParamSlot.resolve_renumber, DataType.fits_renumber f hf, Function.comp_def]
      simp only [List.map_cons, argMismatches, hfits, ih, ParamSlot.shown_renumber,
        DataType.shown_renumber]

theorem applyTo_renumber (hf : f.Injective) (callee : String) (sig : Signature)
    (args : List DataType) (receiver : Option DataType) (span : Span) :
    applyTo callee (sig.renumber f) (args.map (DataType.renumber f))
        (receiver.map (DataType.renumber f)) span =
      (applyTo callee sig args receiver span).mapValue (DataType.renumber f) := by
  simp only [applyTo, Signature.renumber, List.length_map, argMismatches_renumber hf, mapValue_ite]
  rfl

variable (f) in
def Variable.renumber (v : Variable) : Variable :=
  { v with type := v.type.renumber f }

variable (f) in
def Env.renumber (env : Env) : Env :=
  { env with
    signatures := env.signatures.renumber f
    vars := env.vars.mapValues (Variable.renumber f) }

section Env

variable (f) (env : Env)

theorem Env.declared?_renumber (name : Name) :
    (env.renumber f).declared? name = (env.declared? name).map (Variable.renumber f) :=
  Table.get?_mapValues _ _ _

theorem Env.ownMember?_renumber (name : Name) :
    (env.renumber f).ownMember? name = (env.ownMember? name).map (Member.renumber f) := by
  rw [ownMember?, ownMember?]
  change env.cls.bind _ = _
  cases env.cls with
  | none => rfl
  | some cls => exact Table.get?_mapValues _ _ _

theorem readName_renumber (name : Name) :
    readName (env.renumber f) name = (readName env name).mapValue (DataType.renumber f) := by
  have hcontains : (env.renumber f).signatures.functions.contains name.value =
      env.signatures.functions.contains name.value :=
    Table.contains_mapValues _ _ _
  rw [readName, readName, Env.declared?_renumber, Env.ownMember?_renumber, hcontains]
  cases env.declared? name with
  | some v =>
    change pure (if env.valued.contains v.site then v.type.renumber f else .san) =
      Checked.mapValue _ (pure (if env.valued.contains v.site then v.type else .san))
    split <;> rfl
  | none =>
    cases env.ownMember? name with
    | none =>
      change (if _ then _ else _) = Checked.mapValue _ (if _ then _ else _)
      split <;> rfl
    | some member =>
      cases member with
      | method sig => rfl
      | property t isConst site =>
        change (if _ then _ else _) = Checked.mapValue _ (if _ then _ else _)
        split <;> rfl

theorem accessName_renumber (access : Access) (name : Name) :
    accessName (env.renumber f) access name =
      (accessName env access name).mapValue (DataType.renumber f) := by
  simp only [accessName, Env.declared?_renumber]
  cases access with
  | read => exact readName_renumber f env name
  | write | owner =>
    cases env.declared? name with
    | none => exact readName_renumber f env name
    | some v => exact bind_eq_mapValue_self fun _ => rfl

theorem callName_renumber (hf : f.Injective) (name : Name) (args : List DataType) (span : Span) :
    callName (env.renumber f) name (args.map (DataType.renumber f)) span =
      (callName env name args span).mapValue (DataType.renumber f) := by
  have hfunction : (env.renumber f).signatures.functions.get? name.value =
      (env.signatures.functions.get? name.value).map (Signature.renumber f) :=
    Table.get?_mapValues _ _ _
  rw [callName, callName, Env.ownMember?_renumber, Env.declared?_renumber, hfunction,
    Option.isSome_map]
  cases env.ownMember? name with
  | some member =>
    cases member with
    | method sig => exact applyTo_renumber hf _ sig args none span
    | property t isConst site => rfl
  | none =>
    change (if _ then _ else _) = mapValue _ (if _ then _ else _)
    rw [mapValue_ite]
    refine if_congr Iff.rfl rfl ?_
    cases env.signatures.functions.get? name.value with
    | some sig => exact applyTo_renumber hf _ sig args none span
    | none => rfl

theorem construct_renumber (hf : f.Injective) (cls : Name) (args : List DataType) (span : Span) :
    construct (env.renumber f) cls (args.map (DataType.renumber f)) span =
      (construct env cls args span).mapValue (DataType.renumber f) := by
  have hclass : (env.renumber f).signatures.classes.get? cls.value =
      (env.signatures.classes.get? cls.value).map (Signature.renumber f) :=
    Table.get?_mapValues _ _ _
  rw [construct, construct, hclass]
  cases env.signatures.classes.get? cls.value with
  | some sig => exact applyTo_renumber hf _ sig args none span
  | none => rfl

/-! ### Members -/

def Lookup.renumber : Lookup → Lookup
  | property t isConst site => property (t.renumber f) isConst site
  | method sig receiver => method (sig.renumber f) (receiver.map (DataType.renumber f))
  | found => found

theorem Env.lookup_renumber (owner : DataType) (name : Name) :
    (env.renumber f).lookup (owner.renumber f) name = (env.lookup owner name).renumber f := by
  have hmember : (env.renumber f).signatures.member? (owner.renumber f).base.shown name.value =
      (env.signatures.member? owner.base.shown name.value).map (Member.renumber f) := by
    rw [DataType.base_renumber, BaseType.shown_renumber]
    exact Table.get?_mapValues _ _ _
  simp only [lookup, DataType.isNothing_renumber, DataType.isClass_renumber,
    DataType.isString_renumber, DataType.isArray_renumber, hmember, methodOf?_renumber,
    apply_ite (Lookup.renumber f)]
  refine if_congr Iff.rfl rfl (if_congr Iff.rfl ?_ (if_congr Iff.rfl ?_ rfl))
  · cases env.signatures.member? owner.base.shown name.value with
    | none => rfl
    | some member => cases member <;> rfl
  · cases methodOf? owner name.value <;> rfl

theorem memberMistake_renumber (owner : DataType) (name : Name) (span : Span) (found : Lookup) :
    memberMistake (owner.renumber f) name span (found.renumber f) =
      (memberMistake owner name span found).mapValue (DataType.renumber f) := by
  cases found with
  | closed | missing =>
    simp only [Lookup.renumber, memberMistake, DataType.shown_renumber]
    rfl
  | _ => rfl

theorem checkConstMember_renumber (access : Access) (owner : DataType) (name : Name) :
    checkConstMember (env.renumber f) access (owner.renumber f) name =
      checkConstMember env access owner name := by
  rw [checkConstMember, checkConstMember, Env.lookup_renumber]
  cases env.lookup owner name <;> rfl

/-! ### Expressions -/

mutual

/-- The type of an expression is the old one with new numbers, and its mistakes are the same. -/
theorem typeOf_renumber (hf : f.Injective) : ∀ e : Expr,
    typeOf (env.renumber f) e = (typeOf env e).mapValue (DataType.renumber f)
  | .literal value _ => by
    rw [typeOf, typeOf, mapValue_pure, typeOfLiteral_renumber]
  | .format segments _ => by
    rw [typeOf, typeOf, typeSegments_renumber hf segments]
    rfl
  | .input none _ => by
    rw [typeOf, typeOf]
    rfl
  | .input (some prompt) _ => by
    rw [typeOf, typeOf]
    exact bind_eq_mapValue (typeOf_renumber hf prompt) fun _ => rfl
  | .array elements span => by
    rw [typeOf, typeOf]
    exact bind_eq_mapValue (typesOf_renumber hf elements) fun types =>
      arrayType_renumber hf types span
  | .prefixed op operand _ => by
    rw [typeOf, typeOf]
    refine bind_eq_mapValue (typeOf_renumber hf operand) fun t => ?_
    cases op.value with
    | not => rfl
    | negate => exact arithmetic_renumber f _ [(t, operand.span)]
  | .infixed left op right _ => by
    rw [typeOf, typeOf]
    exact bind_eq_mapValue (typeOf_renumber hf left) fun l =>
      bind_eq_mapValue (typeOf_renumber hf right) fun r =>
        infixType_renumber f op.value (l, left.span) (r, right.span)
  | .postfixed target op _ => by
    rw [typeOf, typeOf]
    refine bind_eq_mapValue (typeOfPlace_renumber hf _ target) fun t => ?_
    rw [mapValue_ite, DataType.shown_renumber]
    exact if_congr Iff.rfl (arithmetic_renumber f _ [(t, target.span)]) rfl
  | .place p => by
    rw [typeOf, typeOf]
    exact typeOfPlace_renumber hf .read p

theorem typesOf_renumber (hf : f.Injective) : ∀ es : List Expr,
    typesOf (env.renumber f) es = (typesOf env es).mapValue (List.map (DataType.renumber f))
  | [] => rfl
  | e :: es => by
    rw [typesOf, typesOf]
    exact bind_eq_mapValue (typeOf_renumber hf e) fun t =>
      bind_eq_mapValue (typesOf_renumber hf es) fun ts => rfl

theorem typeSegments_renumber (hf : f.Injective) : ∀ ss : List Segment,
    typeSegments (env.renumber f) ss = typeSegments env ss
  | [] => rfl
  | .text _ :: ss => by
    rw [typeSegments, typeSegments]
    exact typeSegments_renumber hf ss
  | .expr e :: ss => by
    rw [typeSegments, typeSegments, typeOf_renumber hf e, typeSegments_renumber hf ss]
    rfl

theorem typeIndices_renumber (hf : f.Injective) (span : Span) : ∀ (es : List Expr) (t : DataType),
    typeIndices (env.renumber f) span es (t.renumber f) =
      (typeIndices env span es t).mapValue (DataType.renumber f)
  | [], t => rfl
  | e :: es, t => by
    rw [typeIndices, typeIndices]
    refine bind_eq_mapValue (typeOf_renumber hf e) fun i => ?_
    rw [checkIndex_renumber]
    exact bind_eq_mapValue_self fun _ => bind_eq_mapValue (elementType_renumber f t span)
      fun element => typeIndices_renumber hf span es element

theorem typeOfLink_renumber (hf : f.Injective) (access : Access) : ∀ l : Link,
    typeOfLink (env.renumber f) access l =
      (typeOfLink env access l).mapValue (DataType.renumber f)
  | .name name => by
    rw [typeOfLink, typeOfLink]
    exact accessName_renumber f env access name
  | .indexed name indices span => by
    rw [typeOfLink, typeOfLink]
    exact bind_eq_mapValue (accessName_renumber f env access name) fun t =>
      typeIndices_renumber hf span indices t
  | .call name args span => by
    rw [typeOfLink, typeOfLink]
    exact bind_eq_mapValue (typesOf_renumber hf args) fun ts =>
      callName_renumber f env hf name ts span

theorem typeOfMember_renumber (hf : f.Injective) (owner : DataType) : ∀ l : Link,
    typeOfMember (env.renumber f) (owner.renumber f) l =
      (typeOfMember env owner l).mapValue (DataType.renumber f)
  | .name name => by
    rw [typeOfMember, typeOfMember, Env.lookup_renumber]
    cases env.lookup owner name with
    | property t isConst site => rfl
    | _ => exact memberMistake_renumber f owner name name.span _
  | .indexed name indices span => by
    rw [typeOfMember, typeOfMember, Env.lookup_renumber]
    cases env.lookup owner name with
    | property t isConst site => exact typeIndices_renumber hf span indices t
    | _ =>
      exact bind_eq_mapValue (typesOf_renumber hf indices) fun _ =>
        memberMistake_renumber f owner name span _
  | .call name args span => by
    rw [typeOfMember, typeOfMember, Env.lookup_renumber]
    refine bind_eq_mapValue (typesOf_renumber hf args) fun ts => ?_
    cases env.lookup owner name with
    | method sig receiver => exact applyTo_renumber hf _ sig ts receiver span
    | _ => exact memberMistake_renumber f owner name span _

theorem typeOfPlace_renumber (hf : f.Injective) : ∀ (access : Access) (p : Place),
    typeOfPlace (env.renumber f) access p =
      (typeOfPlace env access p).mapValue (DataType.renumber f)
  | access, .link l => by
    rw [typeOfPlace, typeOfPlace]
    exact typeOfLink_renumber hf access l
  | _, .construct cls args span => by
    rw [typeOfPlace, typeOfPlace]
    exact bind_eq_mapValue (typesOf_renumber hf args) fun ts =>
      construct_renumber f env hf cls ts span
  | access, .member object l _ => by
    rw [typeOfPlace, typeOfPlace]
    refine bind_eq_mapValue (typeOfPlace_renumber hf access.ofObject object) fun owner => ?_
    rw [checkConstMember_renumber]
    exact bind_eq_mapValue_self fun _ => typeOfMember_renumber hf owner l

end

end Env

end Typing

end Uwu
