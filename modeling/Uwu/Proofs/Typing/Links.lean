import Uwu.Proofs.Scope.Roots
import Uwu.Proofs.Typing.Paths

/-! Expressions without mistakes: the links that begin their paths have none, at any depth. -/

namespace Uwu

namespace Typing

/-- Where a root is a link, it is used in some way without a mistake. -/
def Clean (env : Env) : Root → Prop
  | .link l => ∃ access, (typeOfLink env access l).mistakes = []
  | .construct _ _ => True

def CleanRoots (env : Env) (rs : List Root) : Prop :=
  ∀ r ∈ rs, Clean env r

section Roots

variable {env : Env} {rs qs : List Root}

theorem cleanRoots_nil : CleanRoots env [] :=
  List.forall_mem_nil _

theorem cleanRoots_cons {r : Root} (h : Clean env r) (hs : CleanRoots env rs) :
    CleanRoots env (r :: rs) :=
  List.forall_mem_cons.2 ⟨h, hs⟩

theorem cleanRoots_append (h : CleanRoots env rs) (hs : CleanRoots env qs) :
    CleanRoots env (rs ++ qs) :=
  List.forall_mem_append.2 ⟨h, hs⟩

end Roots

variable {env : Env}

mutual

theorem clean_typeOf : ∀ {e : Expr}, (typeOf env e).mistakes = [] → CleanRoots env e.roots
  | .literal _ _, _ => cleanRoots_nil
  | .format segments _, h => by
    rw [typeOf] at h
    exact clean_typeSegments (bind_mistakes_eq_nil.1 h).1
  | .input none _, _ => cleanRoots_nil
  | .input (some prompt) _, h => by
    rw [typeOf] at h
    exact clean_typeOf (e := prompt) (bind_mistakes_eq_nil.1 h).1
  | .array elements span, h => by
    rw [typeOf] at h
    exact clean_typesOf (bind_mistakes_eq_nil.1 h).1
  | .prefixed op operand span, h => by
    rw [typeOf] at h
    exact clean_typeOf (e := operand) (bind_mistakes_eq_nil.1 h).1
  | .infixed left op right span, h => by
    rw [typeOf] at h
    obtain ⟨hl, h⟩ := bind_mistakes_eq_nil.1 h
    exact cleanRoots_append (clean_typeOf hl) (clean_typeOf (bind_mistakes_eq_nil.1 h).1)
  | .postfixed target op span, h => by
    rw [typeOf] at h
    exact clean_typeOfPlace (bind_mistakes_eq_nil.1 h).1
  | .place p, h => by
    rw [typeOf] at h
    exact clean_typeOfPlace h

theorem clean_typesOf : ∀ {es : List Expr}, (typesOf env es).mistakes = [] →
    CleanRoots env (exprRoots es)
  | [], _ => cleanRoots_nil
  | e :: es, h => by
    rw [typesOf] at h
    obtain ⟨he, h⟩ := bind_mistakes_eq_nil.1 h
    exact cleanRoots_append (clean_typeOf he) (clean_typesOf (bind_mistakes_eq_nil.1 h).1)

theorem clean_typeSegments : ∀ {ss : List Segment}, (typeSegments env ss).mistakes = [] →
    CleanRoots env (segmentRoots ss)
  | [], _ => cleanRoots_nil
  | .text _ :: ss, h => by
    rw [typeSegments] at h
    rw [segmentRoots]
    exact clean_typeSegments h
  | .expr e :: ss, h => by
    rw [typeSegments] at h
    obtain ⟨he, hs⟩ := bind_mistakes_eq_nil.1 h
    exact cleanRoots_append (clean_typeOf he) (clean_typeSegments hs)

theorem clean_typeIndices {span : Span} : ∀ {es : List Expr} {t : DataType},
    (typeIndices env span es t).mistakes = [] → CleanRoots env (exprRoots es)
  | [], _, _ => cleanRoots_nil
  | e :: es, t, h => by
    rw [typeIndices] at h
    obtain ⟨he, h⟩ := bind_mistakes_eq_nil.1 h
    have hs := (bind_mistakes_eq_nil.1 (bind_mistakes_eq_nil.1 h).2).2
    exact cleanRoots_append (clean_typeOf he) (clean_typeIndices hs)

/-- The link itself is not among these. -/
theorem clean_typeOfLink {access : Access} : ∀ {l : Link},
    (typeOfLink env access l).mistakes = [] → CleanRoots env l.operandRoots
  | .name _, _ => cleanRoots_nil
  | .indexed n es span, h => by
    rw [typeOfLink] at h
    exact clean_typeIndices (bind_mistakes_eq_nil.1 h).2
  | .call n es span, h => by
    rw [typeOfLink] at h
    exact clean_typesOf (bind_mistakes_eq_nil.1 h).1

theorem clean_typeOfMember {owner : DataType} : ∀ {l : Link},
    (typeOfMember env owner l).mistakes = [] → CleanRoots env l.operandRoots
  | .name _, _ => cleanRoots_nil
  | .indexed n es span, h => by
    rw [typeOfMember] at h
    split at h
    next => exact clean_typeIndices h
    next => exact clean_typesOf (bind_mistakes_eq_nil.1 h).1
  | .call n es span, h => by
    rw [typeOfMember] at h
    exact clean_typesOf (bind_mistakes_eq_nil.1 h).1

theorem clean_typeOfPlace {access : Access} : ∀ {p : Place},
    (typeOfPlace env access p).mistakes = [] → CleanRoots env p.roots
  | .link l, h => by
    rw [typeOfPlace] at h
    exact cleanRoots_cons ⟨access, h⟩ (clean_typeOfLink h)
  | .construct c args span, h => by
    rw [typeOfPlace] at h
    exact cleanRoots_cons trivial (clean_typesOf (bind_mistakes_eq_nil.1 h).1)
  | .member object l span, h => by
    rw [typeOfPlace] at h
    obtain ⟨ho, h⟩ := bind_mistakes_eq_nil.1 h
    exact cleanRoots_append (clean_typeOfPlace ho) (clean_typeOfMember (bind_mistakes_eq_nil.1 h).2)

end

/-! ### Calls -/

/-- As many arguments as the signature has parameters, each of a type that may stand there. -/
def Signature.Accepts (sig : Signature) (args : List DataType) : Prop :=
  args.length = sig.params.length ∧
    ∀ x ∈ args.zip sig.params, ∃ expected ∈ x.2.resolve none, x.1.fits expected true

theorem argMismatches_eq_nil {n : Nat} {args : List DataType} {params : List ParamSlot}
    (h : argMismatches none n args params = []) :
    ∀ x ∈ args.zip params, ∃ expected ∈ x.2.resolve none, x.1.fits expected true := by
  induction args generalizing n params with
  | nil => exact List.forall_mem_nil _
  | cons arg args ih =>
    cases params with
    | nil => exact List.forall_mem_nil _
    | cons param params =>
      simp only [argMismatches] at h
      split at h
      next hfits => exact List.forall_mem_cons.2 ⟨List.any_eq_true.1 hfits, ih h⟩
      next => cases h

theorem accepts_of_applyTo {callee : String} {sig : Signature} {args : List DataType} {span : Span}
    (h : (applyTo callee sig args none span).mistakes = []) : sig.Accepts args := by
  unfold applyTo at h
  dsimp only at h
  by_cases hl : args.length = sig.params.length
  · refine ⟨hl, argMismatches_eq_nil (n := 1) ?_⟩
    rw [beq_iff_eq.2 hl, if_pos rfl, Bool.true_and] at h
    cases hm : argMismatches none 1 args sig.params with
    | nil => rfl
    | cons m ms =>
      rw [hm] at h
      cases h
  · rw [beq_eq_false_iff_ne.2 hl] at h
    cases h

/-- A call without mistakes: of a method, of a function, or of a name that stands for nothing. -/
theorem accepts_of_callName {n : Name} {args : List DataType} {span : Span}
    (h : (callName env n args span).mistakes = []) :
    (∃ sig, env.ownMember? n = some (.method sig) ∧ sig.Accepts args) ∨
      (env.ownMember? n = none ∧ env.declared? n = none ∧
        ∀ sig, env.signatures.functions.get? n.value = some sig → sig.Accepts args) := by
  unfold callName at h
  cases hm : env.ownMember? n with
  | some m =>
    rw [hm] at h
    cases m with
    | method sig => exact .inl ⟨sig, rfl, accepts_of_applyTo h⟩
    | property t isConst site => cases h
  | none =>
    rw [hm] at h
    cases hd : env.declared? n with
    | some v =>
      rw [hd] at h
      cases h
    | none =>
      rw [hd] at h
      refine .inr ⟨rfl, rfl, fun sig hs => ?_⟩
      simp only [hs] at h
      exact accepts_of_applyTo h

/-! ### Variables -/

/-- A name without a variable is used without mistakes only if it is no method and no function. -/
theorem of_accessName {access : Access} {n : Name} (h : (accessName env access n).mistakes = [])
    (hd : env.declared? n = none) :
    (∀ sig, env.ownMember? n ≠ some (.method sig)) ∧
      env.signatures.functions.contains n.value = false := by
  have hr : (readName env n).mistakes = [] := by
    unfold accessName at h
    rw [hd] at h
    cases access <;> exact h
  unfold readName at hr
  rw [hd] at hr
  dsimp only at hr
  split at hr
  next => cases hr
  next hm =>
    split at hr
    next => cases hr
    next hf => exact ⟨hm, Bool.eq_false_iff.2 hf⟩

end Typing

end Uwu
