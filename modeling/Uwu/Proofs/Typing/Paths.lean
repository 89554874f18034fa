import Uwu.Proofs.Typing.Writes

/-! The types of access paths, and expressions without mistakes: they write no constant that is
declared. -/

namespace Uwu.Typing

/-! ### What the checker finds -/

theorem rootOf?_name (signatures : Signatures) (cls : Option String) (vars : Variables) (n : Name) :
    rootOf? signatures cls vars (.name n) =
      (vars.get? n.value).map fun v => .property v.type v.isConst v.site := rfl

theorem rootOf?_indexed (signatures : Signatures) (cls : Option String) (vars : Variables)
    (n : Name) (es : List Expr) (span : Span) :
    rootOf? signatures cls vars (.indexed n es span) =
      (vars.get? n.value).map fun v => .property v.type v.isConst v.site := rfl

theorem bind_mistakes_eq_nil {α β : Type} {c : Checked α} {f : α → Checked β} :
    (c >>= f).mistakes = [] ↔ c.mistakes = [] ∧ (f c.value).mistakes = [] := by
  rw [Checked.mistakes_bind, List.append_eq_nil_iff]

theorem eq_san_of_isNothing {t : DataType} (h : t.isNothing) : t = .san := by
  obtain ⟨base, dimension⟩ := t
  simp only [DataType.isNothing, Bool.and_eq_true, beq_iff_eq] at h
  rw [h.1, h.2]
  rfl

/-- The declaration that was found. -/
def Lookup.member? : Lookup → Option Member
  | .property type isConst site => some (.property type isConst site)
  | .method sig _ => some (.method sig)
  | .unknown | .closed | .missing => none

theorem value_applyTo (callee : String) (sig : Signature) (args : List DataType)
    (receiver : Option DataType) (span : Span) :
    (applyTo callee sig args receiver span).value = sig.returnType := by
  unfold applyTo
  dsimp only
  split <;> split <;> rfl

section Paths

variable (env : Env)

theorem value_elementType (t : DataType) (span : Span) : (elementType t span).value = indexed t := by
  by_cases hn : t.isNothing
  · rw [eq_san_of_isNothing hn]
    rfl
  · rw [elementType, if_neg hn, indexed]
    split
    next => rfl
    next => split <;> rfl

theorem indexedBy_san (es : List Expr) : indexedBy es .san = .san := by
  induction es with
  | nil => rfl
  | cons e es ih => exact ih

theorem value_typeIndices (span : Span) (es : List Expr) (t : DataType) :
    (typeIndices env span es t).value = indexedBy es t := by
  induction es generalizing t with
  | nil => rfl
  | cons e es ih =>
    rw [typeIndices, indexedBy, ← value_elementType t span]
    exact ih _

theorem member?_lookup (owner : DataType) (name : Name) :
    (env.lookup owner name).member? = memberOf? env.signatures owner name.value := by
  by_cases hn : owner.isNothing
  · rw [eq_san_of_isNothing hn]
    rfl
  · rw [Env.lookup, if_neg hn, memberOf?]
    by_cases hc : owner.isClass
    · rw [if_pos hc, if_pos hc]
      cases env.signatures.member? owner.base.shown name.value with
      | none => rfl
      | some m => cases m <;> rfl
    · rw [if_neg hc, if_neg hc, methodOf?]
      by_cases hs : owner.isString
      · rw [if_pos hs, if_pos (by rw [hs]; rfl)]
        cases stringMethod? name.value <;> rfl
      · rw [if_neg hs]
        by_cases ha : owner.isArray
        · rw [if_pos ha, if_pos (by rw [ha, Bool.or_true])]
          cases arrayMethod? name.value <;> rfl
        · rw [if_neg ha, if_neg (by simp [hs, ha])]
          rfl

/-- What the checker finds under the name of a member is what is declared. -/
theorem value_typeOfMember (owner : DataType) (l : Link) :
    (typeOfMember env owner l).value =
      linkType l (memberOf? env.signatures owner l.head.value) := by
  rw [← member?_lookup]
  cases l with
  | name n =>
    rw [typeOfMember, Link.head]
    cases env.lookup owner n <;> rfl
  | indexed n es span =>
    rw [typeOfMember, Link.head]
    cases env.lookup owner n with
    | property t isConst site => exact value_typeIndices env span es t
    | _ => rfl
  | call n es span =>
    rw [typeOfMember, Link.head, Checked.value_bind]
    cases env.lookup owner n with
    | method sig receiver => exact value_applyTo ..
    | _ => rfl

theorem value_readName {n : Name} (h : env.declared? n = none) :
    (readName env n).value = .san := by
  rw [readName, h]
  dsimp only
  split
  next => rfl
  next => split <;> rfl

/-- To write a variable or a member of it the checker looks at its declaration. -/
theorem value_accessName {access : Access} (h : access ≠ .read) (n : Name) :
    (accessName env access n).value = ((env.vars.get? n.value).map Variable.type).getD .san := by
  change _ = ((env.declared? n).map Variable.type).getD .san
  unfold accessName
  cases hn : env.declared? n with
  | none => cases access <;> exact value_readName env hn
  | some v =>
    cases access with
    | read => exact absurd rfl h
    | write | owner => rfl

theorem value_callName {n : Name} {ts : List DataType} {span : Span}
    (h : (callName env n ts span).mistakes = []) (es : List Expr) :
    (callName env n ts span).value = linkType (.call n es span)
      (rootOf? env.signatures env.cls env.vars (.call n es span)) := by
  have hown : (env.cls.bind fun c => env.signatures.member? c n.value) = env.ownMember? n := rfl
  rw [rootOf?, hown]
  unfold callName at h ⊢
  cases hm : env.ownMember? n with
  | some m =>
    cases m with
    | method sig => exact value_applyTo ..
    | property t isConst site =>
      rw [hm] at h
      cases h
  | none =>
    rw [hm] at h
    dsimp only at h ⊢
    by_cases hd : (env.declared? n).isSome
    · rw [if_pos hd] at h
      cases h
    · rw [if_neg hd]
      cases env.signatures.functions.get? n.value with
      | none => rfl
      | some sig => exact value_applyTo ..

/-- Without mistakes the object of a write has the type that its declarations give it. -/
theorem value_typeOfPlace : ∀ {p : Place}, (typeOfPlace env .owner p).mistakes = [] →
    (typeOfPlace env .owner p).value = pathType env.signatures env.cls env.vars p
  | .link (.name n), _ => by
    rw [pathType, rootOf?_name, typeOfPlace, typeOfLink, value_accessName env Access.noConfusion]
    cases env.vars.get? n.value <;> rfl
  | .link (.indexed n es span), _ => by
    rw [pathType, rootOf?_indexed, typeOfPlace, typeOfLink, Checked.value_bind,
      value_typeIndices, value_accessName env Access.noConfusion]
    cases env.vars.get? n.value with
    | none => exact indexedBy_san es
    | some v => rfl
  | .link (.call n es span), h => by
    rw [typeOfPlace, typeOfLink] at h ⊢
    exact value_callName env (bind_mistakes_eq_nil.1 h).2 es
  | .construct c es span, _ => by
    rw [pathType, typeOfPlace, Checked.value_bind, construct]
    cases env.signatures.classes.get? c.value with
    | none => rfl
    | some sig => exact value_applyTo ..
  | .member object l span, h => by
    rw [typeOfPlace] at h ⊢
    have ih := value_typeOfPlace (bind_mistakes_eq_nil.1 h).1
    rw [Checked.value_bind, Checked.value_bind, Access.ofObject, ih, value_typeOfMember, pathType]

end Paths

/-! ### Targets -/

/-- By the declarations at a place none of the paths ends in a constant. -/
def Spares (signatures : Signatures) (cls : Option String) (vars : Variables)
    (targets : List Place) : Prop :=
  ∀ target ∈ targets, endsInConstant signatures cls vars target = false

section Targets

variable {signatures : Signatures} {cls : Option String} {vars : Variables}

theorem spares_nil : Spares signatures cls vars [] :=
  List.forall_mem_nil _

theorem spares_cons {target : Place} {targets : List Place}
    (h : endsInConstant signatures cls vars target = false)
    (hs : Spares signatures cls vars targets) : Spares signatures cls vars (target :: targets) :=
  List.forall_mem_cons.2 ⟨h, hs⟩

theorem spares_append {targets others : List Place} (h : Spares signatures cls vars targets)
    (hs : Spares signatures cls vars others) : Spares signatures cls vars (targets ++ others) :=
  List.forall_mem_append.2 ⟨h, hs⟩

end Targets

variable {env : Env}

theorem not_isConst_of_checkWrite {name : Name} {isConst : Bool} {site : Span}
    (h : (checkWrite .write name isConst site).mistakes = []) : isConst = false := by
  cases isConst with
  | false => rfl
  | true => cases h

theorem not_isConst_of_accessName {n : Name} (h : (accessName env .write n).mistakes = [])
    {v : Variable} (hv : env.vars.get? n.value = some v) : v.isConst = false := by
  change env.declared? n = some v at hv
  unfold accessName at h
  rw [hv] at h
  exact not_isConst_of_checkWrite (bind_mistakes_eq_nil.1 h).1

theorem not_isConst_of_checkConstMember {owner : DataType} {name : Name} {t : DataType}
    {isConst : Bool} {site : Span} (h : (checkConstMember env .write owner name).mistakes = [])
    (hm : memberOf? env.signatures owner name.value = some (.property t isConst site)) :
    isConst = false := by
  rw [← member?_lookup] at hm
  unfold checkConstMember at h
  cases hl : env.lookup owner name with
  | property t' isConst' site' =>
    rw [hl] at h hm
    cases hm
    exact not_isConst_of_checkWrite h
  | unknown | closed | missing | method =>
    rw [hl] at hm
    cases hm

/-- A written path without mistakes does not end in a constant. -/
theorem endsInConstant_eq_false : ∀ {p : Place}, (typeOfPlace env .write p).mistakes = [] →
    endsInConstant env.signatures env.cls env.vars p = false
  | .link (.name n), h => by
    rw [endsInConstant, declarationOf?, rootOf?_name]
    rw [typeOfPlace, typeOfLink] at h
    cases hv : env.vars.get? n.value with
    | none => rfl
    | some v => exact not_isConst_of_accessName h hv
  | .link (.indexed n es span), h => by
    rw [endsInConstant, declarationOf?, rootOf?_indexed]
    rw [typeOfPlace, typeOfLink] at h
    cases hv : env.vars.get? n.value with
    | none => rfl
    | some v => exact not_isConst_of_accessName (bind_mistakes_eq_nil.1 h).1 hv
  | .link (.call n es span), _ => by
    rw [endsInConstant, declarationOf?, rootOf?]
    split
    next hm =>
      split at hm
      next => cases hm
      next =>
        obtain ⟨sig, -, hs⟩ := Option.map_eq_some_iff.1 hm
        cases hs
    next => rfl
  | .construct .., _ => rfl
  | .member object l span, h => by
    rw [typeOfPlace] at h
    obtain ⟨ho, h⟩ := bind_mistakes_eq_nil.1 h
    rw [Access.ofObject] at ho h
    have hm := (bind_mistakes_eq_nil.1 h).1
    rw [value_typeOfPlace env ho] at hm
    rw [endsInConstant, declarationOf?]
    split
    next hd => exact not_isConst_of_checkConstMember hm hd
    next => rfl

mutual

theorem spares_typeOf : ∀ {e : Expr}, (typeOf env e).mistakes = [] →
    Spares env.signatures env.cls env.vars (exprTargets e)
  | .literal _ _, _ => spares_nil
  | .format segments _, h => by
    rw [typeOf] at h
    exact spares_typeSegments (bind_mistakes_eq_nil.1 h).1
  | .input none _, _ => spares_nil
  | .input (some prompt) _, h => by
    rw [typeOf] at h
    exact spares_typeOf (e := prompt) (bind_mistakes_eq_nil.1 h).1
  | .array elements span, h => by
    rw [typeOf] at h
    exact spares_typesOf (bind_mistakes_eq_nil.1 h).1
  | .prefixed op operand span, h => by
    rw [typeOf] at h
    exact spares_typeOf (e := operand) (bind_mistakes_eq_nil.1 h).1
  | .infixed left op right span, h => by
    rw [typeOf] at h
    obtain ⟨hl, h⟩ := bind_mistakes_eq_nil.1 h
    exact spares_append (spares_typeOf hl) (spares_typeOf (bind_mistakes_eq_nil.1 h).1)
  | .postfixed target op span, h => by
    rw [typeOf] at h
    obtain ⟨ht, h⟩ := bind_mistakes_eq_nil.1 h
    by_cases ha : target.isAssignable
    · rw [if_pos ha] at ht
      exact spares_cons (endsInConstant_eq_false ht) (spares_typeOfPlace ht)
    · rw [if_neg ha] at h
      cases h
  | .place p, h => by
    rw [typeOf] at h
    exact spares_typeOfPlace h

theorem spares_typesOf : ∀ {es : List Expr}, (typesOf env es).mistakes = [] →
    Spares env.signatures env.cls env.vars (listTargets es)
  | [], _ => spares_nil
  | e :: es, h => by
    rw [typesOf] at h
    obtain ⟨he, h⟩ := bind_mistakes_eq_nil.1 h
    exact spares_append (spares_typeOf he) (spares_typesOf (bind_mistakes_eq_nil.1 h).1)

theorem spares_typeSegments : ∀ {ss : List Segment}, (typeSegments env ss).mistakes = [] →
    Spares env.signatures env.cls env.vars (segmentTargets ss)
  | [], _ => spares_nil
  | .text _ :: ss, h => by
    rw [typeSegments] at h
    show Spares _ _ _ (segmentTargets ss)
    exact spares_typeSegments h
  | .expr e :: ss, h => by
    rw [typeSegments] at h
    obtain ⟨he, hs⟩ := bind_mistakes_eq_nil.1 h
    exact spares_append (spares_typeOf he) (spares_typeSegments hs)

theorem spares_typeIndices {span : Span} : ∀ {es : List Expr} {t : DataType},
    (typeIndices env span es t).mistakes = [] →
    Spares env.signatures env.cls env.vars (listTargets es)
  | [], _, _ => spares_nil
  | e :: es, t, h => by
    rw [typeIndices] at h
    obtain ⟨he, h⟩ := bind_mistakes_eq_nil.1 h
    have hs := (bind_mistakes_eq_nil.1 (bind_mistakes_eq_nil.1 h).2).2
    exact spares_append (spares_typeOf he) (spares_typeIndices hs)

theorem spares_typeOfLink {access : Access} : ∀ {l : Link},
    (typeOfLink env access l).mistakes = [] →
    Spares env.signatures env.cls env.vars (linkTargets l)
  | .name _, _ => spares_nil
  | .indexed n es span, h => by
    rw [typeOfLink] at h
    exact spares_typeIndices (bind_mistakes_eq_nil.1 h).2
  | .call n es span, h => by
    rw [typeOfLink] at h
    exact spares_typesOf (bind_mistakes_eq_nil.1 h).1

theorem spares_typeOfMember {owner : DataType} : ∀ {l : Link},
    (typeOfMember env owner l).mistakes = [] →
    Spares env.signatures env.cls env.vars (linkTargets l)
  | .name _, _ => spares_nil
  | .indexed n es span, h => by
    rw [typeOfMember] at h
    split at h
    next => exact spares_typeIndices h
    next => exact spares_typesOf (bind_mistakes_eq_nil.1 h).1
  | .call n es span, h => by
    rw [typeOfMember] at h
    exact spares_typesOf (bind_mistakes_eq_nil.1 h).1

theorem spares_typeOfPlace {access : Access} : ∀ {p : Place},
    (typeOfPlace env access p).mistakes = [] →
    Spares env.signatures env.cls env.vars (placeTargets p)
  | .link l, h => by
    rw [typeOfPlace] at h
    exact spares_typeOfLink h
  | .construct c args span, h => by
    rw [typeOfPlace] at h
    exact spares_typesOf (bind_mistakes_eq_nil.1 h).1
  | .member object l span, h => by
    rw [typeOfPlace] at h
    obtain ⟨ho, h⟩ := bind_mistakes_eq_nil.1 h
    exact spares_append (spares_typeOfPlace ho)
      (spares_typeOfMember (bind_mistakes_eq_nil.1 h).2)

end

end Uwu.Typing
