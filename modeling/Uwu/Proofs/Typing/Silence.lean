import Uwu.Proofs.Typing.Absorption
import Uwu.Proofs.Typing.Answers
import Uwu.Proofs.Typing.Arrays

/-! Mistakes that are not reported. Type `san` passes for any operand, index and element, and is the
type of an expression with a mistake. In a body where no value is of that type by itself, an
expression has it only with a mistake that is reported. -/

namespace Uwu

open Typing

/-! ### Parts of expressions -/

mutual

/-- The expressions in an expression, at any depth. -/
def Expr.inner : Expr → List Expr
  | .literal _ _ => []
  | .format segments _ => segmentParts segments
  | .input none _ => []
  | .input (some prompt) _ => prompt :: prompt.inner
  | .array elements _ => exprParts elements
  | .prefixed _ operand _ => operand :: operand.inner
  | .infixed left _ right _ => (left :: left.inner) ++ (right :: right.inner)
  | .postfixed target _ _ => target.inner
  | .place p => p.inner

def exprParts : List Expr → List Expr
  | [] => []
  | e :: es => (e :: e.inner) ++ exprParts es

def segmentParts : List Segment → List Expr
  | [] => []
  | .text _ :: ss => segmentParts ss
  | .expr e :: ss => (e :: e.inner) ++ segmentParts ss

def Link.inner : Link → List Expr
  | .name _ => []
  | .indexed _ es _ | .call _ es _ => exprParts es

def Place.inner : Place → List Expr
  | .link l => l.inner
  | .construct _ args _ => exprParts args
  | .member object l _ => object.inner ++ l.inner

end

/-- An expression, and those in it. -/
def Expr.parts (e : Expr) : List Expr :=
  e :: e.inner

def Expr.isNuww : Expr → Bool
  | .literal .nuww _ => true
  | _ => false

/-- The literal `nuww` stands nowhere in the expression. -/
def Expr.LacksNuww (e : Expr) : Prop :=
  ∀ i ∈ e.parts, i.isNuww = false

def Declaration.exprs (d : Declaration) : List Expr :=
  (d.value.map Expr.parts).getD []

def Assignment.exprs (a : Assignment) : List Expr :=
  a.target.inner ++ a.value.parts

/-- The expressions in a clause, at any depth. -/
def Clause.exprs : Clause → List Expr
  | declare d => d.exprs
  | assign a => a.exprs
  | evaluate e => e.parts
  | print args => exprParts args
  | start (.declare d) => d.exprs
  | start (.assign a) | update (.assign a) => a.exprs
  | update (.postfixed target op span) => (Expr.postfixed target op span).parts
  | leave value _ => (value.map Expr.parts).getD []
  | stop | blockEnd => []

/-- The roots of expressions are among these. -/
def RootsWithin (rs : List Root) (es : List Expr) : Prop :=
  ∀ e ∈ es, e.roots ⊆ rs

section Roots

variable {rs qs : List Root} {es fs : List Expr}

theorem rootsWithin_nil : RootsWithin rs [] :=
  List.forall_mem_nil _

theorem RootsWithin.mono (h : RootsWithin rs es) (hsub : rs ⊆ qs) : RootsWithin qs es :=
  fun e he _ hr => hsub (h e he hr)

theorem RootsWithin.append (h : RootsWithin rs es) (h' : RootsWithin qs fs) :
    RootsWithin (rs ++ qs) (es ++ fs) :=
  List.forall_mem_append.2 ⟨h.mono (List.subset_append_left _ _),
    h'.mono (List.subset_append_right _ _)⟩

theorem RootsWithin.cons {e : Expr} (h : RootsWithin e.roots es) :
    RootsWithin e.roots (e :: es) :=
  List.forall_mem_cons.2 ⟨List.Subset.refl _, h⟩

end Roots

mutual

theorem Expr.rootsWithin : ∀ e : Expr, RootsWithin e.roots e.inner
  | .literal _ _ | .input none _ => rootsWithin_nil
  | .format segments _ => segments_rootsWithin segments
  | .input (some prompt) _ => (Expr.rootsWithin prompt).cons
  | .array elements _ => exprs_rootsWithin elements
  | .prefixed _ operand _ => (Expr.rootsWithin operand).cons
  | .infixed left _ right _ => (Expr.rootsWithin left).cons.append (Expr.rootsWithin right).cons
  | .postfixed target _ _ => Place.rootsWithin target
  | .place p => Place.rootsWithin p

theorem exprs_rootsWithin : ∀ es : List Expr, RootsWithin (exprRoots es) (exprParts es)
  | [] => rootsWithin_nil
  | e :: es => (Expr.rootsWithin e).cons.append (exprs_rootsWithin es)

theorem segments_rootsWithin : ∀ ss : List Segment, RootsWithin (segmentRoots ss) (segmentParts ss)
  | [] => rootsWithin_nil
  | .text _ :: ss => segments_rootsWithin ss
  | .expr e :: ss => (Expr.rootsWithin e).cons.append (segments_rootsWithin ss)

theorem Link.rootsWithin : ∀ l : Link, RootsWithin l.operandRoots l.inner
  | .name _ => rootsWithin_nil
  | .indexed _ es _ | .call _ es _ => exprs_rootsWithin es

theorem Place.rootsWithin : ∀ p : Place, RootsWithin p.roots p.inner
  | .link l => (Link.rootsWithin l).mono (List.subset_cons_self _ _)
  | .construct _ args _ => (exprs_rootsWithin args).mono (List.subset_cons_self _ _)
  | .member object l _ => (Place.rootsWithin object).append (Link.rootsWithin l)

end

theorem Assignment.rootsWithin (a : Assignment) : RootsWithin a.roots a.exprs :=
  a.target.rootsWithin.append a.value.rootsWithin.cons

theorem Declaration.rootsWithin (d : Declaration) : RootsWithin d.roots d.exprs := by
  rw [roots, exprs]
  cases d.value with
  | none => exact rootsWithin_nil
  | some e => exact e.rootsWithin.cons

theorem Clause.rootsWithin (c : Clause) : RootsWithin c.roots c.exprs := by
  cases c with
  | declare d => exact d.rootsWithin
  | assign a => exact a.rootsWithin
  | evaluate e => exact e.rootsWithin.cons
  | print args => exact exprs_rootsWithin args
  | start s =>
    cases s with
    | declare d => exact d.rootsWithin
    | assign a => exact a.rootsWithin
  | update u =>
    cases u with
    | assign a => exact a.rootsWithin
    | postfixed target op span => exact (Expr.postfixed target op span).rootsWithin.cons
  | leave value span =>
    cases value with
    | none => exact rootsWithin_nil
    | some e => exact e.rootsWithin.cons
  | stop | blockEnd => exact rootsWithin_nil

namespace Typing

variable {env : Env}

/-! ### Paths -/

/-- A method of arrays that gives nothing back. -/
def Env.isProcedure (env : Env) : Callee → Bool
  | .method object access n => (typeOfPlace env access object).value.isArray &&
      (n.value == "reverse" || n.value == "append")
  | .name _ | .construct _ => false

/-- All calls give something back. -/
def Env.LacksProcedures (env : Env) (cs : List Call) : Prop :=
  ∀ c ∈ cs, env.isProcedure c.callee = false

theorem isNothing_of_base {t : DataType} (h : t.base ≠ .san) : t.isNothing = false := by
  rw [DataType.isNothing, beq_eq_false_iff_ne.2 h]
  rfl

theorem definite_elementType {t : DataType} (h : t.base ≠ .san) (span : Span) :
    Definite (elementType t span) := by
  unfold elementType
  rw [isNothing_of_base h, if_neg Bool.false_ne_true]
  split
  next => exact definite_pure BaseType.noConfusion
  next =>
    split
    next => exact definite_pure h
    next => exact definite_report _ _ _

/-- Indices change no base type. -/
theorem definite_typeIndices (span : Span) (es : List Expr) {t : DataType} (h : t.base ≠ .san) :
    Definite (typeIndices env span es t) := by
  induction es generalizing t with
  | nil => exact definite_pure h
  | cons e es ih =>
    rw [typeIndices]
    refine definite_bind fun _ => definite_bind fun _ => definite_bind fun hm => ih ?_
    exact definite_elementType h span hm

theorem base_of_stringMethod? {name : String} {sig : Signature} (h : stringMethod? name = some sig) :
    sig.returnType.base ≠ .san := by
  unfold stringMethod? at h
  split at h <;> cases h <;> exact BaseType.noConfusion

theorem base_of_arrayMethod? {name : String} {sig : Signature} (h : arrayMethod? name = some sig)
    (hn : (name == "reverse" || name == "append") = false) : sig.returnType.base ≠ .san := by
  unfold arrayMethod? at h
  split at h
  all_goals cases h
  · exact BaseType.noConfusion
  · cases hn
  · exact BaseType.noConfusion
  · cases hn

section Members

variable (hf : env.Filled) {owner : DataType} {n : Name}
include hf

theorem base_of_property {t : DataType} {isConst : Bool} {site : Span}
    (h : env.lookup owner n = .property t isConst site) : t.base ≠ .san := by
  unfold Env.lookup at h
  repeat' split at h
  all_goals try cases h
  next hmember => exact hf.members _ (Table.mem_of_get? hmember)

theorem base_of_method {sig : Signature} {receiver : Option DataType}
    (h : env.lookup owner n = .method sig receiver)
    (hp : (owner.isArray && (n.value == "reverse" || n.value == "append")) = false) :
    sig.returnType.base ≠ .san := by
  unfold Env.lookup at h
  repeat' split at h
  all_goals try cases h
  next hmember => exact hf.members _ (Table.mem_of_get? hmember)
  next hmethod =>
    unfold methodOf? at hmethod
    split at hmethod
    next => exact base_of_stringMethod? hmethod
    next =>
      split at hmethod
      next harray =>
        rw [harray, Bool.true_and] at hp
        exact base_of_arrayMethod? hmethod hp
      next => cases hmethod

omit hf in
theorem definite_memberMistake (h : owner.base ≠ .san) (span : Span) :
    Definite (memberMistake owner n span (env.lookup owner n)) := by
  cases hl : env.lookup owner n with
  | unknown =>
    unfold Env.lookup at hl
    rw [isNothing_of_base h, if_neg Bool.false_ne_true] at hl
    repeat' split at hl
    all_goals cases hl
  | closed | missing => exact definite_report _ _ _
  | property | method => exact definite_roleMistake _ _ _

/-- A member of a value has a type, or it is a mistake. -/
theorem definite_typeOfMember {object : Place} {access : Access}
    (h : (typeOfPlace env access object).value.base ≠ .san) (l : Link)
    (hcalls : env.LacksProcedures (l.calls (.method object access))) :
    Definite (typeOfMember env (typeOfPlace env access object).value l) := by
  cases l with
  | name n =>
    rw [typeOfMember]
    split
    next hl => exact definite_pure (base_of_property hf hl)
    next => exact definite_memberMistake h _
  | indexed n es span =>
    rw [typeOfMember]
    split
    next hl => exact definite_typeIndices span es (base_of_property hf hl)
    next => exact definite_bind fun _ => definite_memberMistake h _
  | call n es span =>
    have hp := hcalls _ (List.mem_append_right _ List.mem_cons_self)
    rw [typeOfMember]
    refine definite_bind fun _ => ?_
    split
    next hl => exact definite_applyTo _ (base_of_method hf hl hp) _ _ _
    next => exact definite_memberMistake h _

end Members

theorem definite_typeOfLink {l : Link} (h : (Root.link l).Answers env) (access : Access) :
    Definite (typeOfLink env access l) := by
  cases l with
  | name n =>
    rw [typeOfLink]
    exact h access
  | indexed n es span =>
    rw [typeOfLink]
    exact definite_bind fun hm => definite_typeIndices span es (h access hm)
  | call n es span =>
    rw [typeOfLink]
    exact definite_bind fun _ => h _

/-- A path whose first link has a type has one itself, or a mistake on the way. Only the objects are
gone into, since the type does not depend on what indices and arguments are. -/
theorem definite_typeOfPlace (hf : env.Filled) : ∀ (p : Place) (access : Access),
    (∀ r ∈ p.roots, r.Answers env) → env.LacksProcedures (p.calls access) →
      Definite (typeOfPlace env access p)
  | .link l, access, hroots, _ => by
    rw [typeOfPlace]
    exact definite_typeOfLink (hroots _ List.mem_cons_self) access
  | .construct cls args span, access, hroots, _ => by
    rw [typeOfPlace]
    exact definite_bind fun _ => hroots _ List.mem_cons_self _ _
  | .member object l span, access, hroots, hcalls => by
    obtain ⟨hobject, -⟩ := List.forall_mem_append.1 hroots
    obtain ⟨hbefore, hlast⟩ := List.forall_mem_append.1 hcalls
    rw [typeOfPlace]
    refine definite_bind fun hm => definite_bind fun _ => ?_
    exact definite_typeOfMember hf (definite_typeOfPlace hf object _ hobject hbefore hm) l hlast

/-! ### Expressions -/

/-- Where nothing is known of a value, there is a mistake. -/
def Reports (c : Checked DataType) : Prop :=
  c.mistakes = [] → c.value.isNothing = false

theorem Definite.reports {c : Checked DataType} (h : Definite c) : Reports c :=
  fun hm => isNothing_of_base (h hm)

theorem reports_pure {t : DataType} (h : t.isNothing = false) : Reports (pure t) :=
  fun _ => h

theorem reports_bind {α : Type} {c : Checked α} {f : α → Checked DataType}
    (h : c.mistakes = [] → Reports (f c.value)) : Reports (c >>= f) := by
  intro hm
  obtain ⟨hc, hf⟩ := bind_mistakes_eq_nil.1 hm
  exact h hc hf

theorem reports_report (cause : Cause) (span : Span) (f : Unit → Checked DataType) :
    Reports (report cause span >>= f) :=
  (definite_report cause span f).reports

/-- Operands that are known and no mistakes are all numeric. -/
theorem value_numericOperands (op : String) {operands : List (DataType × Span)}
    (h : ∀ x ∈ operands, x.1.isNothing = false) (hm : (numericOperands op operands).mistakes = []) :
    (numericOperands op operands).value = true := by
  induction operands with
  | nil => rfl
  | cons x xs ih =>
    obtain ⟨t, span⟩ := x
    obtain ⟨ht, hts⟩ := List.forall_mem_cons.1 h
    obtain ⟨hvalue, hmistakes⟩ := numericOperands_cons op t span xs
    obtain ⟨hnumber, hrest⟩ := hmistakes.1 hm
    rw [ht, Bool.false_or] at hnumber
    rw [hvalue, hnumber, ih hts hrest]
    rfl

theorem reports_arithmetic (op : String) {operands : List (DataType × Span)}
    (h : ∀ x ∈ operands, x.1.isNothing = false) : Reports (arithmetic op operands) := by
  rw [arithmetic_eq]
  refine reports_bind fun hm => reports_pure ?_
  rw [value_numericOperands op h hm, if_pos rfl]
  split <;> rfl

theorem reports_infixType (op : InfixOp) {left right : DataType × Span}
    (hl : left.1.isNothing = false) (hr : right.1.isNothing = false) :
    Reports (infixType op left right) := by
  have h : ∀ x ∈ [left, right], x.1.isNothing = false :=
    List.forall_mem_cons.2 ⟨hl, List.forall_mem_singleton.2 hr⟩
  cases op with
  | join | equal | notEqual | and | or => exact reports_pure rfl
  | less | lessEqual | greater | greaterEqual =>
    refine reports_bind fun hm => reports_pure ?_
    rw [value_numericOperands _ h hm]
    rfl
  | add | subtract | multiply | divide | remainder => exact reports_arithmetic _ h

theorem reports_arrayType {types : List DataType} (h : ∀ t ∈ types, t.isNothing = false)
    (span : Span) : Reports (arrayType types span) := by
  unfold arrayType
  rw [if_neg (not_any_isNothing h)]
  dsimp only
  split
  next => exact reports_pure rfl
  next t ts _ =>
    split
    next =>
      refine reports_pure ?_
      rw [DataType.isNothing, DataType.arrayOf, Bool.and_eq_false_iff]
      exact .inr rfl
    next => exact reports_report _ _ _

mutual

theorem reports_typeOf (hf : env.Filled) : ∀ e : Expr, (∀ r ∈ e.roots, r.Answers env) →
    env.LacksProcedures e.calls → e.LacksNuww → Reports (typeOf env e)
  | .literal value span, _, _, hn => by
    rw [typeOf]
    refine reports_pure ?_
    have hvalue := hn _ List.mem_cons_self
    cases value with
    | nuww => cases hvalue
    | _ => rfl
  | .format segments _, _, _, _ => by
    rw [typeOf]
    exact reports_bind fun _ => reports_pure rfl
  | .input none _, _, _, _ => reports_pure rfl
  | .input (some _) _, _, _, _ => by
    rw [typeOf]
    exact reports_bind fun _ => reports_pure rfl
  | .array elements span, hroots, hcalls, hn => by
    have hparts := (List.forall_mem_cons.1 hn).2
    rw [typeOf]
    refine reports_bind fun hm => reports_arrayType ?_ span
    exact known_typesOf hf elements hroots hcalls hparts hm
  | .prefixed op operand span, hroots, hcalls, hn => by
    have hparts : operand.LacksNuww := (List.forall_mem_cons.1 hn).2
    rw [typeOf]
    refine reports_bind fun hm => ?_
    have hoperand := reports_typeOf hf operand hroots hcalls hparts hm
    cases op.value with
    | not => exact reports_pure rfl
    | negate => exact reports_arithmetic _ (List.forall_mem_singleton.2 hoperand)
  | .infixed left op right span, hroots, hcalls, hn => by
    obtain ⟨hrootsl, hrootsr⟩ := List.forall_mem_append.1 hroots
    obtain ⟨hcallsl, hcallsr⟩ := List.forall_mem_append.1 hcalls
    obtain ⟨hpartsl, hpartsr⟩ := List.forall_mem_append.1 (List.forall_mem_cons.1 hn).2
    rw [typeOf]
    refine reports_bind fun hml => reports_bind fun hmr => ?_
    have hleft := reports_typeOf hf left hrootsl hcallsl hpartsl hml
    exact reports_infixType _ hleft (reports_typeOf hf right hrootsr hcallsr hpartsr hmr)
  | .postfixed target op span, hroots, hcalls, _ => by
    rw [Expr.calls] at hcalls
    rw [typeOf]
    cases ha : target.isAssignable with
    | true =>
      rw [ha] at hcalls
      refine reports_bind fun hm => reports_arithmetic _ (List.forall_mem_singleton.2 ?_)
      exact (definite_typeOfPlace hf target .write hroots hcalls).reports hm
    | false => exact reports_bind fun _ => reports_report _ _ _
  | .place p, hroots, hcalls, _ => by
    rw [typeOf]
    exact (definite_typeOfPlace hf p .read hroots hcalls).reports

theorem known_typesOf (hf : env.Filled) : ∀ es : List Expr, (∀ r ∈ exprRoots es, r.Answers env) →
    env.LacksProcedures (exprCalls es) → (∀ i ∈ exprParts es, i.isNuww = false) →
      (typesOf env es).mistakes = [] → ∀ t ∈ (typesOf env es).value, t.isNothing = false
  | [], _, _, _, _ => List.forall_mem_nil _
  | e :: es, hroots, hcalls, hn, hm => by
    obtain ⟨hroot, hroots⟩ := List.forall_mem_append.1 hroots
    obtain ⟨hcall, hcalls⟩ := List.forall_mem_append.1 hcalls
    obtain ⟨hpart, hparts⟩ := List.forall_mem_append.1 hn
    rw [typesOf] at hm ⊢
    obtain ⟨hme, hm⟩ := bind_mistakes_eq_nil.1 hm
    obtain ⟨hms, -⟩ := bind_mistakes_eq_nil.1 hm
    exact List.forall_mem_cons.2 ⟨reports_typeOf hf e hroot hcall hpart hme,
      known_typesOf hf es hroots hcalls hparts hms⟩

end

end Typing

/-- In a function or a method, where every variable holds a value, nothing is declared with base
type `san`, and neither `nuww` nor a method of arrays that gives nothing back is in an expression,
then it has type `san` only if a mistake is reported. -/
theorem Visit.reported_of_isNothing {p : Program} {lines : List String} {names : Names}
    (hp : Program.ofTokens (Lexed.ofLines lines names).tokens (Lexed.ofLines lines names).names =
      .ok p)
    (h : p.checkNames = []) {b : Body} (hb : b ∈ p.bodies) {x : Visit} (hx : x.view ∈ b.views p)
    (hf : (x.env p).Filled) {e : Expr} (he : e ∈ x.view.clause.exprs) (hn : e.LacksNuww)
    (hcalls : (x.env p).LacksProcedures e.calls)
    (hnothing : (typeOf (x.env p) e).value.isNothing) : (typeOf (x.env p) e).mistakes ≠ [] := by
  intro hm
  have hroots : ∀ r ∈ e.roots, r.Answers (x.env p) := fun r hr =>
    Visit.answers hp h hb hx hf r (x.view.clause.rootsWithin e he hr)
  have hknown := reports_typeOf hf e hroots hcalls hn hm
  cases hnothing.symm.trans hknown

/-- A program that adds to a number what the negation of an array does not give. -/
def negatedArray : String :=
  "fwunc mainuwu-san() [[\na-chan[] = {1, 2}~\npwint(1 + -a)~\n]]\n"

theorem negatedArray_reported :
    ∃ p, Program.ofTokens (Lexed.ofLines (splitLines negatedArray) .empty).tokens
      (Lexed.ofLines (splitLines negatedArray) .empty).names = .ok p ∧ p.checkNames = [] ∧
    ∃ b ∈ p.bodies, ∃ x : Visit, x.view ∈ b.views p ∧ (x.env p).Filled ∧
      ∃ e ∈ x.view.clause.exprs, e.LacksNuww ∧ (x.env p).LacksProcedures e.calls ∧
        (typeOf (x.env p) e).value.isNothing ∧ (typeOf (x.env p) e).mistakes ≠ [] := by
  let initialised (v : View) : Visit := ⟨v, v.vars.toList.map fun row => row.2.site⟩
  let silent (p : Program) (x : Visit) (e : Expr) : Bool :=
    e.parts.all (fun i => !i.isNuww) && e.calls.all (fun c => !(x.env p).isProcedure c.callee) &&
      (typeOf (x.env p) e).value.isNothing
  obtain ⟨p, hp, ht⟩ := exists_parsed negatedArray .empty (fun p => p.checkNames.isEmpty &&
    p.bodies.any fun b => (b.views p).any fun v => decide ((initialised v).env p).Filled &&
      v.clause.exprs.any (silent p (initialised v))) (toList_of_eq rfl) (by decide +kernel)
  rw [Bool.and_eq_true, List.isEmpty_iff, List.any_eq_true] at ht
  obtain ⟨h, b, hb, hviews⟩ := ht
  obtain ⟨v, hv, hview⟩ := List.any_eq_true.1 hviews
  rw [Bool.and_eq_true, decide_eq_true_eq, List.any_eq_true] at hview
  obtain ⟨hf, e, he, hsilent⟩ := hview
  simp only [silent, Bool.and_eq_true, List.all_eq_true, Bool.not_eq_true'] at hsilent
  obtain ⟨⟨hn, hcalls⟩, hnothing⟩ := hsilent
  exact ⟨p, hp, h, b, hb, initialised v, hv, hf, e, he, hn, hcalls, hnothing,
    Visit.reported_of_isNothing hp h hb hv hf he hn hcalls hnothing⟩

end Uwu
