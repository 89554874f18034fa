import Mathlib.Data.List.Forall2
import Uwu.Proofs.Typing.Effects

/-! Mistakes are absorbed. Where an expression has no mistakes, and then fewer variables hold a
value, its type stays or is not known any more. Nothing is a mistake in it but to pass a value of
which nothing is known in a call. -/

namespace Uwu

open Typing

/-! ### Calls -/

/-- What is called. -/
inductive Callee where
  | name (n : Name)
  | construct (cls : Name)
  /-- A method of an object. -/
  | method (object : Place) (access : Access) (n : Name)

def Callee.head : Callee → Name
  | name n | construct n | method _ _ n => n

structure Call where
  callee : Callee
  args : List Expr
  span : Span

mutual

/-- The calls anywhere in an expression, in the order in which they are checked. -/
def Expr.calls : Expr → List Call
  | .literal _ _ => []
  | .format segments _ => segmentCalls segments
  | .input none _ => []
  | .input (some prompt) _ => prompt.calls
  | .array elements _ => exprCalls elements
  | .prefixed _ operand _ => operand.calls
  | .infixed left _ right _ => left.calls ++ right.calls
  | .postfixed target _ _ => target.calls (if target.isAssignable then .write else .read)
  | .place p => p.calls .read

def exprCalls : List Expr → List Call
  | [] => []
  | e :: es => e.calls ++ exprCalls es

def segmentCalls : List Segment → List Call
  | [] => []
  | .text _ :: ss => segmentCalls ss
  | .expr e :: ss => e.calls ++ segmentCalls ss

/-- The calls in a link; `callee` is what it calls itself. -/
def Link.calls (callee : Name → Callee) : Link → List Call
  | .name _ => []
  | .indexed _ es _ => exprCalls es
  | .call n es span => exprCalls es ++ [⟨callee n, es, span⟩]

def Place.calls (access : Access) : Place → List Call
  | .link l => l.calls .name
  | .construct cls es span => exprCalls es ++ [⟨.construct cls, es, span⟩]
  | .member object l _ => object.calls access.ofObject ++ l.calls (.method object access.ofObject)

end

namespace Typing

/-- The signature of what is called, for a method of a string or an array with its type. -/
def Env.callee? (env : Env) : Callee → Option (Signature × Option DataType)
  | .name n =>
    match env.ownMember? n with
    | some (.method sig) => some (sig, none)
    | some (.property ..) => none
    | none =>
      if (env.declared? n).isSome then none
      else (env.signatures.functions.get? n.value).map fun sig => (sig, none)
  | .construct cls => (env.signatures.classes.get? cls.value).map fun sig => (sig, none)
  | .method object access n =>
    match env.lookup (typeOfPlace env access object).value n with
    | .method sig receiver => some (sig, receiver)
    | _ => none

/-- The arguments of which nothing is known, from position `n` on, where the parameter has a type. -/
def unknownArguments (receiver : Option DataType) :
    (n : Nat) → List DataType → List ParamSlot → List String
  | n, arg :: args, param :: params =>
    let rest := unknownArguments receiver (n + 1) args params
    if arg.isNothing && !(param.resolve receiver).contains .san then
      let wanted := param.shown receiver
      s!"argument {n} expected `{wanted}`, received `{DataType.san.shown}`" :: rest
    else rest
  | _, _, _ => []

/-- One mistake for all the unknown arguments of a call. -/
def unknownMistake (callee : String) (sig : Signature) (receiver : Option DataType)
    (args : List DataType) (span : Span) : List Diagnostic :=
  match unknownArguments receiver 1 args sig.params with
  | [] => []
  | ms => [⟨.argumentMismatch callee sig.params.length sig.params.length ms, span⟩]

/-- The mistake of a call in which nothing is known of some arguments. -/
def Env.unknownIn (env : Env) (c : Call) : List Diagnostic :=
  match env.callee? c.callee with
  | some (sig, receiver) =>
    unknownMistake c.callee.head.value sig receiver (typesOf env c.args).value c.span
  | none => []

def Env.unknownInAll (env : Env) (cs : List Call) : List Diagnostic :=
  cs.flatMap env.unknownIn

/-! ### Fading types -/

/-- The type stays, or nothing is known any more. -/
def Fades (t t' : DataType) : Prop :=
  t' = t ∨ t' = .san

theorem Fades.refl (t : DataType) : Fades t t :=
  .inl rfl

theorem Fades.eq {t t' : DataType} (h : Fades t t') (hn : t'.isNothing = false) : t' = t := by
  rcases h with rfl | rfl
  · rfl
  · cases hn

theorem Fades.eq_of_known {ts ts' : List DataType} (h : List.Forall₂ Fades ts ts')
    (hn : ∀ t ∈ ts', t.isNothing = false) : ts' = ts := by
  induction h with
  | nil => rfl
  | cons ht _ ih =>
    obtain ⟨hn, hns⟩ := List.forall_mem_cons.1 hn
    rw [ht.eq hn, ih hns]

/-- Where `c` has no mistakes, `c'` has the mistakes `ds`, and their values are related. -/
def Absorbs {α β : Type} (R : α → β → Prop) (c : Checked α) (c' : Checked β)
    (ds : List Diagnostic) : Prop :=
  c.mistakes = [] → R c.value c'.value ∧ c'.mistakes = ds

section Rules

variable {α β γ δ : Type} {R : α → β → Prop} {S : γ → δ → Prop}
  {c : Checked α} {c' : Checked β} {f : α → Checked γ} {g : β → Checked δ}
  {ds es : List Diagnostic}

theorem absorbs_pure {a : α} {b : β} (h : R a b) : Absorbs R (pure a) (pure b) [] :=
  fun _ => ⟨h, rfl⟩

theorem Absorbs.bind (hc : Absorbs R c c' ds)
    (hf : R c.value c'.value → Absorbs S (f c.value) (g c'.value) es) :
    Absorbs S (c >>= f) (c' >>= g) (ds ++ es) := by
  intro h
  obtain ⟨hm, hn⟩ := bind_mistakes_eq_nil.1 h
  obtain ⟨hv, hd⟩ := hc hm
  obtain ⟨hw, he⟩ := hf hv hn
  exact ⟨hw, by rw [Checked.mistakes_bind, hd, he]⟩

/-- A step after one that has no mistakes. -/
theorem Absorbs.silent (hc : Absorbs R c c' [])
    (hf : R c.value c'.value → Absorbs S (f c.value) (g c'.value) es) :
    Absorbs S (c >>= f) (c' >>= g) es :=
  hc.bind hf

/-- A step that adds no mistakes of its own. -/
theorem Absorbs.andThen (hc : Absorbs R c c' ds)
    (hf : R c.value c'.value → Absorbs S (f c.value) (g c'.value) []) :
    Absorbs S (c >>= f) (c' >>= g) ds := by
  have h := hc.bind hf
  rwa [List.append_nil] at h

theorem Absorbs.refl {c : Checked DataType} : Absorbs Fades c c [] :=
  fun h => ⟨.refl _, h⟩

theorem absorbs_san {c c' : Checked DataType} (hv : c'.value = .san) (hm : c'.mistakes = []) :
    Absorbs Fades c c' [] :=
  fun _ => ⟨.inr hv, hm⟩

end Rules

/-! ### Operators -/

/-- An operand with its place. -/
abbrev OperandFades (x y : DataType × Span) : Prop :=
  Fades x.1 y.1 ∧ y.2 = x.2

theorem numericOperands_cons (op : String) (t : DataType) (span : Span)
    (operands : List (DataType × Span)) :
    (numericOperands op ((t, span) :: operands)).value =
        (t.countsAsNumber && (numericOperands op operands).value) ∧
      ((numericOperands op ((t, span) :: operands)).mistakes = [] ↔
        (t.isNothing || t.countsAsNumber) ∧ (numericOperands op operands).mistakes = []) := by
  rw [numericOperands]
  cases t.isNothing <;> cases t.countsAsNumber <;> simp

/-- Unknown operands are no mistakes, and where all are numeric none of them is unknown. -/
theorem numericOperands_fades (op : String) {xs ys : List (DataType × Span)}
    (h : List.Forall₂ OperandFades xs ys) (hm : (numericOperands op xs).mistakes = []) :
    (numericOperands op ys).mistakes = [] ∧ ((numericOperands op ys).value = true → ys = xs) := by
  induction h with
  | nil => exact ⟨rfl, fun _ => rfl⟩
  | @cons x y xs ys hxy _ ih =>
    obtain ⟨t, span⟩ := x
    obtain ⟨t', span'⟩ := y
    obtain ⟨ht, rfl⟩ : Fades t t' ∧ span' = span := hxy
    obtain ⟨hx, hxs⟩ := (numericOperands_cons op t span' xs).2.1 hm
    obtain ⟨hys, heq⟩ := ih hxs
    obtain ⟨hv, hi⟩ := numericOperands_cons op t' span' ys
    rcases ht with rfl | rfl
    · refine ⟨hi.2 ⟨hx, hys⟩, fun hn => ?_⟩
      rw [hv, Bool.and_eq_true] at hn
      rw [heq hn.2]
    · refine ⟨hi.2 ⟨rfl, hys⟩, fun hn => ?_⟩
      rw [hv] at hn
      cases hn

theorem numeric_absorbs (op : String) {xs ys : List (DataType × Span)}
    (h : List.Forall₂ OperandFades xs ys) (given : List (DataType × Span) → DataType) :
    Absorbs Fades (numericOperands op xs >>= fun numeric => pure (if numeric then given xs else .san))
      (numericOperands op ys >>= fun numeric => pure (if numeric then given ys else .san)) [] := by
  intro hm
  obtain ⟨hn, heq⟩ := numericOperands_fades op h (bind_mistakes_eq_nil.1 hm).1
  cases hv : (numericOperands op ys).value with
  | true =>
    rw [heq hv]
    exact Absorbs.refl hm
  | false =>
    refine absorbs_san ?_ ?_ hm
    · rw [Checked.value_bind, hv]
      rfl
    · rw [Checked.mistakes_bind, hn]
      rfl

theorem arithmetic_eq (op : String) (operands : List (DataType × Span)) :
    arithmetic op operands = numericOperands op operands >>= fun numeric => pure (if numeric then
      if operands.any fun x => x.1.base == .kun then .kun else .chan else .san) := by
  unfold arithmetic
  congr 1
  funext numeric
  cases numeric <;> rfl

theorem arithmetic_absorbs (op : String) {xs ys : List (DataType × Span)}
    (h : List.Forall₂ OperandFades xs ys) :
    Absorbs Fades (arithmetic op xs) (arithmetic op ys) [] := by
  rw [arithmetic_eq, arithmetic_eq]
  exact numeric_absorbs op h fun operands =>
    if operands.any fun x => x.1.base == .kun then .kun else .chan

theorem infixType_absorbs (op : InfixOp) {l r l' r' : DataType × Span} (hl : OperandFades l l')
    (hr : OperandFades r r') : Absorbs Fades (infixType op l r) (infixType op l' r') [] := by
  have h : List.Forall₂ OperandFades [l, r] [l', r'] := .cons hl (.cons hr .nil)
  cases op with
  | join | equal | notEqual | and | or => exact .refl
  | less | lessEqual | greater | greaterEqual => exact numeric_absorbs _ h fun _ => .sama
  | add | subtract | multiply | divide | remainder => exact arithmetic_absorbs _ h

/-! ### Arrays -/

theorem arrayType_absorbs {ts ts' : List DataType} (h : List.Forall₂ Fades ts ts') (span : Span) :
    Absorbs Fades (arrayType ts span) (arrayType ts' span) [] := by
  cases hn : ts'.any DataType.isNothing with
  | true =>
    have hs : arrayType ts' span = pure .san := by rw [arrayType, if_pos hn]
    exact absorbs_san (congrArg Checked.value hs) (congrArg Checked.mistakes hs)
  | false =>
    rw [Fades.eq_of_known h fun t ht => Bool.eq_false_iff.2 (List.any_eq_false.1 hn t ht)]
    exact .refl

theorem elementType_absorbs {t t' : DataType} (h : Fades t t') (span : Span) :
    Absorbs Fades (elementType t span) (elementType t' span) [] := by
  rcases h with rfl | rfl
  · exact .refl
  · exact absorbs_san rfl rfl

theorem checkIndex_absorbs {t t' : DataType} (h : Fades t t') (span : Span) :
    Absorbs (fun _ _ => True) (checkIndex t span) (checkIndex t' span) [] := by
  rcases h with rfl | rfl
  · exact fun hm => ⟨trivial, hm⟩
  · exact fun _ => ⟨trivial, rfl⟩

/-! ### Calls -/

theorem san_fits_inCall (expected : DataType) :
    DataType.san.fits expected true = (DataType.san == expected) := by
  unfold DataType.fits
  by_cases h : DataType.san = expected
  · rw [if_pos h, beq_iff_eq.2 h]
  · rw [if_neg h, beq_eq_false_iff_ne.2 h]
    rfl

/-- A parameter takes a value of which nothing is known only if it is declared as `san`. -/
theorem any_san_fits (receiver : Option DataType) (param : ParamSlot) :
    (param.resolve receiver).any (fun expected => DataType.san.fits expected true) =
      (param.resolve receiver).contains .san := by
  rw [List.contains_eq_any_beq]
  simp only [san_fits_inCall]

theorem argMismatches_fades (receiver : Option DataType) {args args' : List DataType}
    (h : List.Forall₂ Fades args args') {n : Nat} {params : List ParamSlot}
    (hm : argMismatches receiver n args params = []) :
    argMismatches receiver n args' params = unknownArguments receiver n args' params := by
  induction h generalizing n params with
  | nil => rfl
  | @cons arg arg' args args' ha _ ih =>
    cases params with
    | nil => rfl
    | cons param params =>
      rw [argMismatches] at hm
      dsimp only at hm
      split at hm
      next hfits =>
        rw [argMismatches, unknownArguments, ih hm]
        cases hn : arg'.isNothing with
        | true =>
          rw [eq_san_of_isNothing hn, any_san_fits]
          cases (param.resolve receiver).contains .san <;> rfl
        | false =>
          rw [ha.eq hn, if_pos hfits]
          rfl
      next => cases hm

theorem mistakes_applyTo (callee : String) (sig : Signature) {args : List DataType}
    (receiver : Option DataType) (span : Span) (hl : args.length = sig.params.length) :
    (applyTo callee sig args receiver span).mistakes =
      match argMismatches receiver 1 args sig.params with
      | [] => []
      | ms => [⟨.argumentMismatch callee sig.params.length sig.params.length ms, span⟩] := by
  unfold applyTo
  dsimp only
  rw [hl, beq_self_eq_true, if_pos rfl, Bool.true_and]
  cases argMismatches receiver 1 args sig.params <;> rfl

theorem length_eq_of_applyTo {callee : String} {sig : Signature} {args : List DataType}
    {receiver : Option DataType} {span : Span}
    (h : (applyTo callee sig args receiver span).mistakes = []) :
    args.length = sig.params.length := by
  unfold applyTo at h
  dsimp only at h
  by_cases hl : args.length = sig.params.length
  · exact hl
  · rw [beq_eq_false_iff_ne.2 hl] at h
    cases h

/-- A call has one mistake more, for all the arguments that fade. -/
theorem applyTo_absorbs (callee : String) (sig : Signature) {args args' : List DataType}
    (h : List.Forall₂ Fades args args') (receiver : Option DataType) (span : Span) :
    Absorbs Fades (applyTo callee sig args receiver span) (applyTo callee sig args' receiver span)
      (unknownMistake callee sig receiver args' span) := by
  intro hm
  refine ⟨.inl (by rw [value_applyTo, value_applyTo]), ?_⟩
  have hl := length_eq_of_applyTo hm
  have hargs : argMismatches receiver 1 args sig.params = [] := by
    rw [mistakes_applyTo _ _ _ _ hl] at hm
    split at hm
    next hnil => exact hnil
    next => cases hm
  rw [mistakes_applyTo _ _ _ _ (h.length_eq.symm.trans hl), argMismatches_fades receiver h hargs]
  rfl

/-! ### Names -/

/-- The variables that hold a value are these. -/
def Env.holding (env : Env) (valued : List Span) : Env :=
  { env with valued }

variable {env : Env} {less : List Span}

theorem readName_absorbs (h : less ⊆ env.valued) (n : Name) :
    Absorbs Fades (readName env n) (readName (env.holding less) n) [] := by
  unfold readName
  have hd : (env.holding less).declared? n = env.declared? n := rfl
  have ho : (env.holding less).ownMember? n = env.ownMember? n := rfl
  rw [hd, ho]
  cases env.declared? n with
  | none => exact .refl
  | some v =>
    dsimp only
    by_cases hv : v.site ∈ less
    · have hl : (env.holding less).valued.contains v.site := List.contains_iff_mem.2 hv
      rw [if_pos hl, if_pos (List.contains_iff_mem.2 (h hv))]
      exact .refl
    · have hl : ¬(env.holding less).valued.contains v.site := mt List.contains_iff_mem.1 hv
      rw [if_neg hl]
      exact absorbs_san rfl rfl

theorem accessName_absorbs (h : less ⊆ env.valued) (access : Access) (n : Name) :
    Absorbs Fades (accessName env access n) (accessName (env.holding less) access n) [] := by
  unfold accessName
  have hd : (env.holding less).declared? n = env.declared? n := rfl
  rw [hd]
  cases access with
  | read => exact readName_absorbs h n
  | write | owner =>
    cases env.declared? n with
    | none => exact readName_absorbs h n
    | some v => exact .refl

theorem callName_absorbs (n : Name) {es : List Expr} {args : List DataType}
    (h : List.Forall₂ Fades args (typesOf (env.holding less) es).value) (span : Span) :
    Absorbs Fades (callName env n args span)
      (callName (env.holding less) n (typesOf (env.holding less) es).value span)
      ((env.holding less).unknownIn ⟨.name n, es, span⟩) := by
  unfold callName Env.unknownIn Env.callee?
  have hd : (env.holding less).declared? n = env.declared? n := rfl
  have ho : (env.holding less).ownMember? n = env.ownMember? n := rfl
  have hs : (env.holding less).signatures = env.signatures := rfl
  dsimp only
  rw [hd, ho, hs]
  cases env.ownMember? n with
  | some m =>
    cases m with
    | method sig => exact applyTo_absorbs n.value sig h none span
    | property => exact .refl
  | none =>
    dsimp only
    split
    next => exact .refl
    next =>
      cases env.signatures.functions.get? n.value with
      | some sig => exact applyTo_absorbs n.value sig h none span
      | none => exact .refl

theorem construct_absorbs (cls : Name) {es : List Expr} {args : List DataType}
    (h : List.Forall₂ Fades args (typesOf (env.holding less) es).value) (span : Span) :
    Absorbs Fades (construct env cls args span)
      (construct (env.holding less) cls (typesOf (env.holding less) es).value span)
      ((env.holding less).unknownIn ⟨.construct cls, es, span⟩) := by
  unfold construct Env.unknownIn Env.callee?
  have hs : (env.holding less).signatures = env.signatures := rfl
  dsimp only
  rw [hs]
  cases env.signatures.classes.get? cls.value with
  | some sig => exact applyTo_absorbs cls.value sig h none span
  | none => exact .refl

/-! ### Members -/

theorem checkConstMember_absorbs (access : Access) {owner owner' : DataType}
    (h : Fades owner owner') (n : Name) :
    Absorbs (fun _ _ => True) (checkConstMember env access owner n)
      (checkConstMember (env.holding less) access owner' n) [] := by
  rcases h with rfl | rfl
  · exact fun hm => ⟨trivial, hm⟩
  · exact fun _ => ⟨trivial, rfl⟩

theorem mistakes_typesOf_of_typeIndices {span : Span} {es : List Expr} {t : DataType}
    (h : (typeIndices env span es t).mistakes = []) : (typesOf env es).mistakes = [] := by
  induction es generalizing t with
  | nil => rfl
  | cons e es ih =>
    rw [typeIndices] at h
    obtain ⟨he, h⟩ := bind_mistakes_eq_nil.1 h
    have hes := ih (bind_mistakes_eq_nil.1 (bind_mistakes_eq_nil.1 h).2).2
    rw [typesOf]
    exact bind_mistakes_eq_nil.2 ⟨he, bind_mistakes_eq_nil.2 ⟨hes, rfl⟩⟩

/-- A member of which the indices are checked, whether the member is known or not. -/
theorem mistakes_typesOf_of_typeOfMember {owner : DataType} {n : Name} {es : List Expr}
    {span : Span} (h : (typeOfMember env owner (.indexed n es span)).mistakes = []) :
    (typesOf env es).mistakes = [] := by
  rw [typeOfMember] at h
  split at h
  next => exact mistakes_typesOf_of_typeIndices h
  next => exact (bind_mistakes_eq_nil.1 h).1

/-! ### Expressions -/

@[simp]
theorem Env.unknownInAll_append (cs ds : List Call) :
    env.unknownInAll (cs ++ ds) = env.unknownInAll cs ++ env.unknownInAll ds :=
  List.flatMap_append

@[simp]
theorem Env.unknownInAll_singleton (c : Call) : env.unknownInAll [c] = env.unknownIn c :=
  List.flatMap_singleton ..

mutual

theorem typeOf_absorbs (h : less ⊆ env.valued) : ∀ e : Expr,
    Absorbs Fades (typeOf env e) (typeOf (env.holding less) e)
      ((env.holding less).unknownInAll e.calls)
  | .literal _ _ => .refl
  | .format segments _ => by
    rw [typeOf, typeOf, Expr.calls]
    exact (typeSegments_absorbs h segments).andThen fun _ => .refl
  | .input none _ => .refl
  | .input (some prompt) _ => by
    rw [typeOf, typeOf, Expr.calls]
    exact (typeOf_absorbs h prompt).andThen fun _ => .refl
  | .array elements span => by
    rw [typeOf, typeOf, Expr.calls]
    exact (typesOf_absorbs h elements).andThen fun hts => arrayType_absorbs hts span
  | .prefixed op operand span => by
    rw [typeOf, typeOf, Expr.calls]
    refine (typeOf_absorbs h operand).andThen fun ht => ?_
    cases op.value with
    | not => exact .refl
    | negate => exact arithmetic_absorbs _ (.cons ⟨ht, rfl⟩ .nil)
  | .infixed left op right span => by
    rw [typeOf, typeOf, Expr.calls, Env.unknownInAll_append]
    exact (typeOf_absorbs h left).bind fun hl =>
      (typeOf_absorbs h right).andThen fun hr => infixType_absorbs _ ⟨hl, rfl⟩ ⟨hr, rfl⟩
  | .postfixed target op span => by
    rw [typeOf, typeOf, Expr.calls]
    cases target.isAssignable with
    | true =>
      exact (typeOfPlace_absorbs h .write target).andThen fun ht =>
        arithmetic_absorbs _ (.cons ⟨ht, rfl⟩ .nil)
    | false => exact (typeOfPlace_absorbs h .read target).andThen fun _ hm => nomatch hm
  | .place p => by
    rw [typeOf, typeOf, Expr.calls]
    exact typeOfPlace_absorbs h .read p

theorem typesOf_absorbs (h : less ⊆ env.valued) : ∀ es : List Expr,
    Absorbs (List.Forall₂ Fades) (typesOf env es) (typesOf (env.holding less) es)
      ((env.holding less).unknownInAll (exprCalls es))
  | [] => absorbs_pure .nil
  | e :: es => by
    rw [typesOf, typesOf, exprCalls, Env.unknownInAll_append]
    exact (typeOf_absorbs h e).bind fun ht =>
      (typesOf_absorbs h es).andThen fun hts => absorbs_pure (.cons ht hts)

theorem typeSegments_absorbs (h : less ⊆ env.valued) : ∀ ss : List Segment,
    Absorbs (fun _ _ => True) (typeSegments env ss) (typeSegments (env.holding less) ss)
      ((env.holding less).unknownInAll (segmentCalls ss))
  | [] => absorbs_pure trivial
  | .text _ :: ss => by
    rw [typeSegments, typeSegments, segmentCalls]
    exact typeSegments_absorbs h ss
  | .expr e :: ss => by
    rw [typeSegments, typeSegments, segmentCalls, Env.unknownInAll_append]
    exact (typeOf_absorbs h e).bind fun _ => typeSegments_absorbs h ss

theorem typeIndices_absorbs (h : less ⊆ env.valued) (span : Span) :
    ∀ (es : List Expr) {t t' : DataType}, Fades t t' →
    Absorbs Fades (typeIndices env span es t) (typeIndices (env.holding less) span es t')
      ((env.holding less).unknownInAll (exprCalls es))
  | [], _, _, ht => absorbs_pure ht
  | e :: es, t, t', ht => by
    rw [typeIndices, typeIndices, exprCalls, Env.unknownInAll_append]
    refine (typeOf_absorbs h e).bind fun hi => ?_
    refine (checkIndex_absorbs hi e.span).silent fun _ => ?_
    exact (elementType_absorbs ht span).silent fun hu => typeIndices_absorbs h span es hu

theorem typeOfLink_absorbs (h : less ⊆ env.valued) (access : Access) : ∀ l : Link,
    Absorbs Fades (typeOfLink env access l) (typeOfLink (env.holding less) access l)
      ((env.holding less).unknownInAll (l.calls .name))
  | .name n => by
    rw [typeOfLink, typeOfLink, Link.calls]
    exact accessName_absorbs h access n
  | .indexed n es span => by
    rw [typeOfLink, typeOfLink, Link.calls]
    exact (accessName_absorbs h access n).silent fun ht => typeIndices_absorbs h span es ht
  | .call n es span => by
    rw [typeOfLink, typeOfLink, Link.calls, Env.unknownInAll_append, Env.unknownInAll_singleton]
    exact (typesOf_absorbs h es).bind fun hts => callName_absorbs n hts span

theorem typeOfMember_absorbs (h : less ⊆ env.valued) (object : Place) (access : Access)
    {owner : DataType} (ho : Fades owner (typeOfPlace (env.holding less) access object).value) :
    ∀ l : Link,
    Absorbs Fades (typeOfMember env owner l)
      (typeOfMember (env.holding less) (typeOfPlace (env.holding less) access object).value l)
      ((env.holding less).unknownInAll (l.calls (.method object access)))
  | .name n => by
    rw [typeOfMember, typeOfMember, Link.calls]
    rcases ho with ho | ho
    · rw [ho]
      exact .refl
    · rw [ho]
      exact absorbs_san rfl rfl
  | .indexed n es span => by
    rcases ho with ho | ho
    · rw [ho, typeOfMember, typeOfMember, Link.calls]
      have hl : (env.holding less).lookup owner n = env.lookup owner n := rfl
      rw [hl]
      cases env.lookup owner n with
      | property t isConst site => exact typeIndices_absorbs h span es (.refl t)
      | unknown | closed | missing | method => exact (typesOf_absorbs h es).andThen fun _ => .refl
    · -- Nothing is known of the object: its indices are still checked, though not for their types.
      intro hm
      obtain ⟨-, hts⟩ := typesOf_absorbs h es (mistakes_typesOf_of_typeOfMember hm)
      rw [ho, typeOfMember, Link.calls]
      exact ⟨.inr rfl, (List.append_nil _).trans hts⟩
  | .call n es span => by
    rw [typeOfMember, typeOfMember, Link.calls, Env.unknownInAll_append, Env.unknownInAll_singleton]
    refine (typesOf_absorbs h es).bind fun hts => ?_
    unfold Env.unknownIn Env.callee?
    dsimp only
    rcases ho with ho | ho
    · rw [ho]
      have hl : (env.holding less).lookup owner n = env.lookup owner n := rfl
      rw [hl]
      cases env.lookup owner n with
      | method sig receiver => exact applyTo_absorbs n.value sig hts receiver span
      | unknown | closed | missing | property => exact .refl
    · rw [ho]
      exact absorbs_san rfl rfl

theorem typeOfPlace_absorbs (h : less ⊆ env.valued) (access : Access) : ∀ p : Place,
    Absorbs Fades (typeOfPlace env access p) (typeOfPlace (env.holding less) access p)
      ((env.holding less).unknownInAll (p.calls access))
  | .link l => by
    rw [typeOfPlace, typeOfPlace, Place.calls]
    exact typeOfLink_absorbs h access l
  | .construct cls es span => by
    rw [typeOfPlace, typeOfPlace, Place.calls, Env.unknownInAll_append,
      Env.unknownInAll_singleton]
    exact (typesOf_absorbs h es).bind fun hts => construct_absorbs cls hts span
  | .member object l span => by
    rw [typeOfPlace, typeOfPlace, Place.calls, Env.unknownInAll_append]
    refine (typeOfPlace_absorbs h access.ofObject object).bind fun ho => ?_
    exact (checkConstMember_absorbs access ho l.head).silent fun _ =>
      typeOfMember_absorbs h object access.ofObject ho l

end

/-! ### Values -/

theorem san_fits (expected : DataType) : DataType.san.fits expected false := by
  unfold DataType.fits
  split <;> rfl

/-- A value that fits, or of which nothing is known, may be declared, assigned and given back. -/
theorem Fades.fits {t t' expected : DataType} (h : Fades t t') (hf : t.fits expected false) :
    t'.fits expected false := by
  rcases h with rfl | rfl
  · exact hf
  · exact san_fits expected

/-- A mistake that is not found with the types that are known is not found with those that fade. -/
theorem reportIf_absorbs {found found' : Bool} (h : found = false → found' = false)
    {cause cause' : Cause} {span : Span} {t t' : DataType} (ht : Fades t t') :
    Absorbs Fades
      (do
        if found then report cause span
        return t)
      (do
        if found' then report cause' span
        return t') [] := by
  intro hm
  cases found with
  | true => cases hm
  | false =>
    rw [h rfl]
    exact ⟨ht, rfl⟩

theorem valueFor_absorbs (h : less ⊆ env.valued) (expected : DataType) (e : Expr) :
    Absorbs Fades (valueFor expected e env) (valueFor expected e (env.holding less))
      ((env.holding less).unknownInAll e.calls) := by
  refine (typeOf_absorbs h e).andThen fun ht => reportIf_absorbs (fun hf => ?_) ht
  rw [Bool.not_eq_false'] at hf ⊢
  exact ht.fits hf

theorem valueTo_absorbs (h : less ⊆ env.valued) {target target' : DataType}
    (htarget : Fades target target') (a : Assignment) :
    Absorbs Fades (valueTo target a env) (valueTo target' a (env.holding less))
      ((env.holding less).unknownInAll a.value.calls) := by
  refine (typeOf_absorbs h a.value).andThen fun ht => ?_
  have misfit {given given' : DataType} (hgiven : Fades given given')
      (hf : (!target.isNothing && !given.fits target false) = false) :
      (!target'.isNothing && !given'.fits target' false) = false := by
    rcases htarget with rfl | rfl
    · cases hn : target'.isNothing with
      | true => rfl
      | false =>
        rw [hn, Bool.not_false, Bool.true_and, Bool.not_eq_false'] at hf
        rw [hgiven.fits hf]
        rfl
    · rfl
  cases a.op.value.infix? with
  | none => exact reportIf_absorbs (misfit ht) ht
  | some op =>
    have hgiven := arithmetic_absorbs op.spelling
      (.cons (a := (target, a.target.span)) (b := (target', a.target.span)) ⟨htarget, rfl⟩
        (.cons (a := (_, a.value.span)) (b := (_, a.value.span)) ⟨ht, rfl⟩ .nil))
    exact hgiven.andThen fun hg => reportIf_absorbs (misfit hg) ht

end Typing

/-! ### Clauses -/

def Declaration.calls (d : Declaration) : List Call :=
  (d.value.map Expr.calls).getD []

def Assignment.calls (a : Assignment) : List Call :=
  a.target.calls .write ++ a.value.calls

namespace Clause

/-- The calls in a clause, in the order in which they are checked. -/
def calls : Clause → List Call
  | declare d => d.calls
  | assign a => a.calls
  | evaluate e => e.calls
  | print args => exprCalls args
  | start (.declare d) => d.calls
  | start (.assign a) | update (.assign a) => a.calls
  | update (.postfixed target op span) => (Expr.postfixed target op span).calls
  | leave value _ => (value.map Expr.calls).getD []
  | stop | blockEnd => []

end Clause

namespace Typing

theorem noted_subset {valued less : List Span} (h : less ⊆ valued) {site : Span}
    {holds holds' : Bool} (hh : holds' = true → holds = true) :
    noted less (some (site, holds')) ⊆ noted valued (some (site, holds)) := by
  intro x hx
  rw [mem_noted] at hx ⊢
  rcases hx with hs | ⟨hx, hs⟩
  · obtain ⟨rfl, hb⟩ := Prod.mk.inj (Option.some.inj hs)
    exact .inl (by rw [hh hb])
  · refine .inr ⟨h hx, fun b hb => hs holds' ?_⟩
    rw [(Prod.mk.inj (Option.some.inj hb)).1]

/-- The effect has the mistakes `ds` where `effect` has none, and leaves fewer variables with a
value. -/
def EffectAbsorbs (valued less : List Span) (effect effect' : Effect) (ds : List Diagnostic) :
    Prop :=
  effect.mistakes = [] →
    effect'.mistakes = ds ∧ noted less effect'.note ⊆ noted valued effect.note

variable {env : Env} {less : List Span}

/-- The effect of a clause that gives no variable a value. -/
theorem Absorbs.effect {α β : Type} {R : α → β → Prop} {c : Checked α} {c' : Checked β}
    {ds : List Diagnostic} (hc : Absorbs R c c' ds) {valued less : List Span} (h : less ⊆ valued) :
    EffectAbsorbs valued less ⟨c.mistakes, none⟩ ⟨c'.mistakes, none⟩ ds :=
  fun hm => ⟨(hc hm).2, h⟩

theorem declarationEffect_absorbs (h : less ⊆ env.valued) (d : Declaration) :
    EffectAbsorbs env.valued less (declarationEffect d env)
      (declarationEffect d (env.holding less)) ((env.holding less).unknownInAll d.calls) := by
  unfold declarationEffect Declaration.calls
  cases d.value with
  | none => exact fun _ => ⟨rfl, noted_subset h id⟩
  | some e =>
    intro hm
    exact ⟨(valueFor_absorbs h d.type e hm).2, noted_subset h fun _ => List.isEmpty_iff.2 hm⟩

theorem assignmentEffect_absorbs (h : less ⊆ env.valued) (a : Assignment) :
    EffectAbsorbs env.valued less (assignmentEffect a env)
      (assignmentEffect a (env.holding less)) ((env.holding less).unknownInAll a.calls) := by
  intro hm
  obtain ⟨ht, hv⟩ := List.append_eq_nil_iff.1 hm
  obtain ⟨htarget, htm⟩ := typeOfPlace_absorbs h .write a.target ht
  obtain ⟨-, hvm⟩ := valueTo_absorbs h htarget a hv
  refine ⟨?_, ?_⟩
  · rw [assignmentEffect, htm, hvm, Assignment.calls, Env.unknownInAll_append]
  · have hvars : (env.holding less).vars = env.vars := rfl
    unfold assignmentEffect
    dsimp only
    rw [hvars]
    cases assignedVariable? env.vars a.target with
    | none => exact h
    | some v => exact noted_subset h fun _ => List.isEmpty_iff.2 hv

theorem leaveMistakes_absorbs (h : less ⊆ env.valued) (result : Result) (value : Option Expr)
    (span : Span) (hm : leaveMistakes result value span env = []) :
    leaveMistakes result value span (env.holding less) =
      (env.holding less).unknownInAll ((value.map Expr.calls).getD []) := by
  cases value with
  | none => exact hm
  | some e =>
    obtain ⟨ht, hf⟩ := List.append_eq_nil_iff.1 hm
    obtain ⟨hfades, htm⟩ := typeOf_absorbs h e ht
    have hfits : (typeOf (env.holding less) e).value.fits result.type false := by
      refine hfades.fits ?_
      by_contra hn
      rw [Bool.not_eq_true] at hn
      rw [hn] at hf
      cases hf
    unfold leaveMistakes
    dsimp only
    rw [htm, hfits]
    exact List.append_nil _

end Typing

/-- Where a clause has no mistakes, then with fewer variables that hold a value it has those of the
calls with unknown arguments, and still fewer variables hold a value after it. -/
theorem Clause.effect_absorbs {env : Env} {less : List Span} (h : less ⊆ env.valued)
    (result : Result) (c : Clause) : EffectAbsorbs env.valued less (c.effect result env)
      (c.effect result (env.holding less)) ((env.holding less).unknownInAll c.calls) := by
  cases c with
  | declare d => exact declarationEffect_absorbs h d
  | assign a => exact assignmentEffect_absorbs h a
  | evaluate e => exact (typeOf_absorbs h e).effect h
  | print args => exact (typesOf_absorbs h args).effect h
  | start st =>
    cases st with
    | assign a => exact assignmentEffect_absorbs h a
    | declare d =>
      intro hm
      obtain ⟨hc, hd⟩ := List.append_eq_nil_iff.1 hm
      obtain ⟨he, hn⟩ := declarationEffect_absorbs h (loopVariable d) hd
      refine ⟨?_, hn⟩
      rw [Clause.effect, loopStartEffect, hc, he]
      rfl
  | update u =>
    cases u with
    | assign a => exact assignmentEffect_absorbs h a
    | postfixed target op span => exact (typeOf_absorbs h (.postfixed target op span)).effect h
  | leave value span => exact fun hm => ⟨leaveMistakes_absorbs h result value span hm, h⟩
  | stop | blockEnd => exact fun _ => ⟨rfl, h⟩

end Uwu
