import Uwu.Compile
import Uwu.Proofs.Places.Scoping
import Uwu.Proofs.Typing.Signatures

/-! The mistakes in the types of a program point to spans of the program: to those of its
expressions, and to the declarations of constants. -/

namespace Uwu.Typing

variable {G : Span → Prop}

/-! ### Operators and calls -/

section Rules

variable {α β : Type}

theorem marks_bind {c : Checked α} {f : α → Checked β} (hc : Marks G c.mistakes)
    (hf : Marks G (f c.value).mistakes) : Marks G (c >>= f).mistakes :=
  marks_append.2 ⟨hc, hf⟩

theorem marks_pure (a : α) : Marks G (pure a : Checked α).mistakes :=
  marks_nil

theorem marks_report {cause : Cause} {x : Span} (hc : cause.sites = []) (h : G x) :
    Marks G (report cause x).mistakes :=
  marks_singleton hc h

theorem marks_ite {b : Prop} [Decidable b] {c d : Checked α} (hc : Marks G c.mistakes)
    (hd : Marks G d.mistakes) : Marks G (if b then c else d).mistakes := by
  split
  next => exact hc
  next => exact hd

end Rules

theorem marks_numericOperands (op : String) {operands : List (DataType × Span)}
    (h : ∀ operand ∈ operands, G operand.2) : Marks G (numericOperands op operands).mistakes := by
  induction operands with
  | nil => exact marks_nil
  | cons operand operands ih =>
    obtain ⟨hspan, hrest⟩ := List.forall_mem_cons.1 h
    have hbehind : Marks G (do
        let rest ← numericOperands op operands
        return operand.1.countsAsNumber && rest).mistakes :=
      marks_bind (ih hrest) (marks_pure _)
    exact marks_ite (marks_bind (marks_report rfl hspan) hbehind) hbehind

theorem marks_arithmetic (op : String) {operands : List (DataType × Span)}
    (h : ∀ operand ∈ operands, G operand.2) : Marks G (arithmetic op operands).mistakes := by
  refine marks_bind (marks_numericOperands op h) ?_
  split <;> exact marks_pure _

theorem marks_infixType (op : InfixOp) {left right : DataType × Span} (hl : G left.2)
    (hr : G right.2) : Marks G (infixType op left right).mistakes := by
  have h : ∀ operand ∈ [left, right], G operand.2 :=
    List.forall_mem_cons.2 ⟨hl, List.forall_mem_singleton.2 hr⟩
  have hcompare : Marks G (do
      return if ← numericOperands op.spelling [left, right] then DataType.sama
        else DataType.san).mistakes := marks_bind (marks_numericOperands _ h) (marks_pure _)
  cases op with
  | join | equal | notEqual | and | or => exact marks_pure _
  | less | lessEqual | greater | greaterEqual => exact hcompare
  | add | subtract | multiply | divide | remainder => exact marks_arithmetic _ h

theorem marks_arrayType (types : List DataType) {x : Span} (h : G x) :
    Marks G (arrayType types x).mistakes := by
  have hmistake : Marks G (arrayMistake types x).mistakes :=
    marks_bind (marks_report rfl h) (marks_pure _)
  unfold arrayType
  refine marks_ite (marks_pure _) ?_
  dsimp only
  split
  next => exact marks_pure _
  next => exact marks_ite (marks_pure _) hmistake

theorem marks_elementType (t : DataType) {x : Span} (h : G x) :
    Marks G (elementType t x).mistakes :=
  marks_ite (marks_pure _) (marks_ite (marks_pure _) (marks_ite (marks_pure _)
    (marks_bind (marks_report rfl h) (marks_pure _))))

theorem marks_checkIndex (t : DataType) {x : Span} (h : G x) :
    Marks G (checkIndex t x).mistakes :=
  marks_ite (marks_report rfl h) (marks_pure _)

theorem marks_applyTo (callee : String) (sig : Signature) (args : List DataType)
    (receiver : Option DataType) {x : Span} (h : G x) :
    Marks G (applyTo callee sig args receiver x).mistakes :=
  marks_ite (marks_bind (marks_report rfl h) (marks_pure _)) (marks_pure _)

theorem marks_roleMistake {name : Name} (expected actual : String) (h : G name.span) :
    Marks G (roleMistake name expected actual).mistakes :=
  marks_bind (marks_report rfl h) (marks_pure _)

/-! ### Names and members -/

/-- Variables are declared at such places. -/
def Variables.Sited (G : Span → Prop) (vars : Variables) : Prop :=
  ∀ name v, vars.get? name = some v → G v.site

/-- Properties are declared at such places. -/
def Signatures.Sited (G : Span → Prop) (s : Signatures) : Prop :=
  ∀ key type isConst site, s.memberTable.get? key = some (.property type isConst site) → G site

structure Env.Sited (G : Span → Prop) (env : Env) : Prop where
  vars : Variables.Sited G env.vars
  signatures : env.signatures.Sited G

variable {env : Env}

theorem marks_checkWrite (access : Access) {name : Name} (isConst : Bool) {site : Span}
    (hn : G name.span) (hs : G site) :
    Marks G (checkWrite access name isConst site).mistakes := by
  refine marks_ite ?_ (marks_pure _)
  rw [mistakes_report, Marks, List.forall_mem_singleton]
  exact List.forall_mem_cons.2 ⟨hn, List.forall_mem_singleton.2 hs⟩

theorem marks_readName {n : Name} (h : G n.span) : Marks G (readName env n).mistakes := by
  unfold readName
  split
  next => exact marks_pure _
  next =>
    split
    next => exact marks_roleMistake _ _ h
    next => exact marks_ite (marks_roleMistake _ _ h) (marks_pure _)

theorem marks_accessName (henv : env.Sited G) (access : Access) {n : Name} (h : G n.span) :
    Marks G (accessName env access n).mistakes := by
  unfold accessName
  split
  next v hv => exact marks_bind (marks_checkWrite _ _ h (henv.vars _ v hv)) (marks_pure _)
  next v hv => exact marks_bind (marks_checkWrite _ _ h (henv.vars _ v hv)) (marks_pure _)
  next => exact marks_readName h

theorem marks_callName {n : Name} (args : List DataType) {x : Span} (hn : G n.span) (h : G x) :
    Marks G (callName env n args x).mistakes := by
  unfold callName
  split
  next => exact marks_applyTo _ _ _ _ h
  next => exact marks_roleMistake _ _ hn
  next =>
    refine marks_ite (marks_roleMistake _ _ hn) ?_
    split
    next => exact marks_applyTo _ _ _ _ h
    next => exact marks_pure _

theorem marks_construct (cls : Name) (args : List DataType) {x : Span} (h : G x) :
    Marks G (construct env cls args x).mistakes := by
  unfold construct
  split
  next => exact marks_applyTo _ _ _ _ h
  next => exact marks_pure _

theorem marks_memberMistake (owner : DataType) {n : Name} {x : Span} (found : Lookup)
    (hn : G n.span) (h : G x) : Marks G (memberMistake owner n x found).mistakes := by
  cases found with
  | unknown => exact marks_pure _
  | closed | missing => exact marks_bind (marks_report rfl h) (marks_pure _)
  | property | method => exact marks_roleMistake _ _ hn

/-- A property is found where it is declared. -/
theorem Env.Sited.lookup (henv : env.Sited G) {owner : DataType} {n : Name} {type : DataType}
    {isConst : Bool} {site : Span} (h : env.lookup owner n = .property type isConst site) :
    G site := by
  unfold Env.lookup at h
  repeat' split at h
  all_goals try cases h
  next hmember => exact henv.signatures _ _ _ _ hmember

theorem marks_checkConstMember (henv : env.Sited G) (access : Access) (owner : DataType)
    {n : Name} (h : G n.span) : Marks G (checkConstMember env access owner n).mistakes := by
  unfold checkConstMember
  split
  next hfound => exact marks_checkWrite _ _ h (henv.lookup hfound)
  next => exact marks_pure _

/-! ### Expressions -/

mutual

theorem marks_typeOf (henv : env.Sited G) : ∀ e : Expr, (∀ x ∈ e.spans, G x) →
    Marks G (typeOf env e).mistakes
  | .literal _ _, _ => marks_pure _
  | .format segments _, h => by
    rw [typeOf]
    exact marks_bind (marks_typeSegments henv segments (List.forall_mem_cons.1 h).2) (marks_pure _)
  | .input none _, _ => marks_pure _
  | .input (some prompt) _, h => by
    rw [typeOf]
    exact marks_bind (marks_typeOf henv prompt (List.forall_mem_cons.1 h).2) (marks_pure _)
  | .array elements x, h => by
    obtain ⟨hx, hes⟩ := List.forall_mem_cons.1 h
    rw [typeOf]
    exact marks_bind (marks_typesOf henv elements hes) (marks_arrayType _ hx)
  | .prefixed op operand _, h => by
    simp only [Expr.spans, List.forall_mem_cons] at h
    rw [typeOf]
    refine marks_bind (marks_typeOf henv operand h.2.2) ?_
    split
    next => exact marks_pure _
    next => exact marks_arithmetic _ (List.forall_mem_singleton.2 (h.2.2 _ operand.span_mem_spans))
  | .infixed left op right _, h => by
    simp only [Expr.spans, List.forall_mem_cons, List.forall_mem_append] at h
    obtain ⟨-, -, hl, hr⟩ := h
    rw [typeOf]
    refine marks_bind (marks_typeOf henv left hl) (marks_bind (marks_typeOf henv right hr) ?_)
    exact marks_infixType _ (hl _ left.span_mem_spans) (hr _ right.span_mem_spans)
  | .postfixed target op _, h => by
    simp only [Expr.spans, List.forall_mem_cons] at h
    have hspan := h.2.2 _ target.span_mem_spans
    rw [typeOf]
    refine marks_bind (marks_typeOfPlace henv _ target h.2.2) (marks_ite ?_ ?_)
    · exact marks_arithmetic _ (List.forall_mem_singleton.2 hspan)
    · exact marks_bind (marks_report rfl hspan) (marks_pure _)
  | .place p, h => by
    rw [typeOf]
    exact marks_typeOfPlace henv _ p h

theorem marks_typesOf (henv : env.Sited G) : ∀ es : List Expr, (∀ x ∈ exprSpans es, G x) →
    Marks G (typesOf env es).mistakes
  | [], _ => marks_pure _
  | e :: es, h => by
    obtain ⟨he, hes⟩ := List.forall_mem_append.1 h
    rw [typesOf]
    exact marks_bind (marks_typeOf henv e he)
      (marks_bind (marks_typesOf henv es hes) (marks_pure _))

theorem marks_typeSegments (henv : env.Sited G) : ∀ ss : List Segment,
    (∀ x ∈ segmentSpans ss, G x) → Marks G (typeSegments env ss).mistakes
  | [], _ => marks_pure _
  | .text _ :: ss, h => by
    rw [typeSegments]
    exact marks_typeSegments henv ss h
  | .expr e :: ss, h => by
    obtain ⟨he, hss⟩ := List.forall_mem_append.1 h
    rw [typeSegments]
    exact marks_bind (marks_typeOf henv e he) (marks_typeSegments henv ss hss)

theorem marks_typeIndices (henv : env.Sited G) {x : Span} (hx : G x) :
    ∀ (es : List Expr) (t : DataType), (∀ x ∈ exprSpans es, G x) →
      Marks G (typeIndices env x es t).mistakes
  | [], _, _ => marks_pure _
  | e :: es, t, h => by
    obtain ⟨he, hes⟩ := List.forall_mem_append.1 h
    rw [typeIndices]
    exact marks_bind (marks_typeOf henv e he)
      (marks_bind (marks_checkIndex _ (he _ e.span_mem_spans))
        (marks_bind (marks_elementType t hx) (marks_typeIndices henv hx es _ hes)))

theorem marks_typeOfLink (henv : env.Sited G) (access : Access) : ∀ l : Link,
    (∀ x ∈ l.spans, G x) → Marks G (typeOfLink env access l).mistakes
  | .name n, h => by
    rw [typeOfLink]
    exact marks_accessName henv access (h _ List.mem_cons_self)
  | .indexed n indices x, h => by
    simp only [Link.spans, List.forall_mem_cons] at h
    obtain ⟨hn, hx, hes⟩ := h
    rw [typeOfLink]
    exact marks_bind (marks_accessName henv access hn) (marks_typeIndices henv hx indices _ hes)
  | .call n args x, h => by
    simp only [Link.spans, List.forall_mem_cons] at h
    obtain ⟨hn, hx, hes⟩ := h
    rw [typeOfLink]
    exact marks_bind (marks_typesOf henv args hes) (marks_callName _ hn hx)

theorem marks_typeOfMember (henv : env.Sited G) (owner : DataType) : ∀ l : Link,
    (∀ x ∈ l.spans, G x) → Marks G (typeOfMember env owner l).mistakes
  | .name n, h => by
    have hn := h _ List.mem_cons_self
    rw [typeOfMember]
    split
    next => exact marks_pure _
    next => exact marks_memberMistake _ _ hn hn
  | .indexed n indices x, h => by
    simp only [Link.spans, List.forall_mem_cons] at h
    obtain ⟨hn, hx, hes⟩ := h
    rw [typeOfMember]
    split
    next => exact marks_typeIndices henv hx indices _ hes
    next => exact marks_bind (marks_typesOf henv indices hes) (marks_memberMistake _ _ hn hx)
  | .call n args x, h => by
    simp only [Link.spans, List.forall_mem_cons] at h
    obtain ⟨hn, hx, hes⟩ := h
    rw [typeOfMember]
    refine marks_bind (marks_typesOf henv args hes) ?_
    split
    next => exact marks_applyTo _ _ _ _ hx
    next => exact marks_memberMistake _ _ hn hx

theorem marks_typeOfPlace (henv : env.Sited G) (access : Access) : ∀ p : Place,
    (∀ x ∈ p.spans, G x) → Marks G (typeOfPlace env access p).mistakes
  | .link l, h => by
    rw [typeOfPlace]
    exact marks_typeOfLink henv access l h
  | .construct cls args x, h => by
    simp only [Place.spans, List.forall_mem_cons] at h
    rw [typeOfPlace]
    exact marks_bind (marks_typesOf henv args h.2.2) (marks_construct _ _ h.2.1)
  | .member object l _, h => by
    simp only [Place.spans, List.forall_mem_cons, List.forall_mem_append] at h
    obtain ⟨-, hobject, hl⟩ := h
    rw [typeOfPlace]
    exact marks_bind (marks_typeOfPlace henv _ object hobject)
      (marks_bind (marks_checkConstMember henv access _ (hl _ l.head_mem_spans))
        (marks_typeOfMember henv _ l hl))

end

/-! ### Tables -/

namespace Variables

theorem sited_empty : Sited G .empty := by
  intro name v h
  cases h

/-- A table with a variable more. -/
theorem Sited.addNew {vars : Variables} {name : String} {v : Variable} (hvars : Sited G vars)
    (hv : G v.site) : Sited G (vars.addNew name v) := by
  intro name' w h
  rw [Table.get?_addNew] at h
  split at h
  next =>
    cases h
    cases hold : vars.get? name with
    | none => exact hv
    | some u => exact hvars name u hold
  next => exact hvars name' w h

theorem Sited.declare {vars : Variables} {d : Declaration} (hvars : Sited G vars)
    (hd : G d.name.span) : Sited G (vars.declare d) :=
  hvars.addNew hd

theorem Sited.declareAll {ds : List Declaration} {vars : Variables} (hvars : Sited G vars)
    (hds : ∀ d ∈ ds, G d.name.span) : Sited G (ds.foldl Variables.declare vars) := by
  induction ds generalizing vars with
  | nil => exact hvars
  | cons d ds ih =>
    obtain ⟨hd, hds⟩ := List.forall_mem_cons.1 hds
    exact ih (hvars.declare hd) hds

theorem Sited.declareParams {ps : List Param} {vars : Variables} (hvars : Sited G vars)
    (hps : ∀ p ∈ ps, G p.name.span) : Sited G (ps.foldl Variables.declareParam vars) := by
  induction ps generalizing vars with
  | nil => exact hvars
  | cons p ps ih =>
    obtain ⟨hp, hps⟩ := List.forall_mem_cons.1 hps
    exact ih (hvars.addNew hp) hps

end Variables

theorem sited_addClass {c : Class} {s : Signatures} (hs : s.Sited G)
    (hc : ∀ d ∈ c.properties, G d.name.span) : (s.addClass c).Sited G := by
  intro key type isConst site h
  simp only [Signatures.addClass, Signatures.foldl_addMember] at h
  rcases Signatures.mem_of_foldl_addNew _ _ h with h | h
  · rcases Signatures.mem_of_foldl_addNew _ _ h with h | h
    · exact hs key type isConst site h
    · obtain ⟨d, hd, heq⟩ := List.mem_map.1 h
      cases heq
      exact hc d hd
  · obtain ⟨f, -, heq⟩ := List.mem_map.1 h
    cases heq

theorem sited_addClasses {cs : List Class} {s : Signatures} (hs : s.Sited G)
    (hcs : ∀ c ∈ cs, ∀ d ∈ c.properties, G d.name.span) :
    (cs.foldl Signatures.addClass s).Sited G := by
  induction cs generalizing s with
  | nil => exact hs
  | cons c cs ih =>
    obtain ⟨hc, hcs⟩ := List.forall_mem_cons.1 hcs
    exact ih (sited_addClass hs hc) hcs

/-- The signatures of a program know its properties by the spans of their names. -/
theorem sited_ofProgram {p : Program} (h : ∀ x ∈ p.spans, G x) :
    (Signatures.ofProgram p).Sited G := by
  refine sited_addClasses ?_ fun c hc => ?_
  · intro key type isConst site hmember
    rw [Signatures.memberTable_addFunctions] at hmember
    cases hmember
  · simp only [Program.spans, List.forall_mem_append, List.forall_mem_flatMap (l := p.classes)] at h
    have hspans := h.2 c hc
    simp only [Class.spans, List.forall_mem_cons, List.forall_mem_append] at hspans
    exact declarationNames_spans hspans.2.2.1.2

/-! ### Statements -/

/-- The check adds only mistakes with such places. -/
def Marking (G : Span → Prop) {α : Type} (c : Check α) : Prop :=
  ∀ s, Marks G s.mistakes → Marks G (c s).2.mistakes

section Marking

variable {α β : Type} {setting : Setting}

theorem Marking.pure (a : α) : Marking G (pure a : Check α) :=
  fun _ h => h

theorem Marking.bind {c : Check α} {f : α → Check β} (hc : Marking G c)
    (hf : ∀ a, Marking G (f a)) : Marking G (c >>= f) :=
  fun s h => hf _ _ (hc s h)

theorem Marking.forM {as : List α} {f : α → Check Unit} (h : ∀ a ∈ as, Marking G (f a)) :
    Marking G (as.forM f) := by
  induction as with
  | nil => exact .pure ()
  | cons a as ih =>
    obtain ⟨ha, has⟩ := List.forall_mem_cons.1 h
    exact ha.bind fun _ => ih has

theorem Marking.ite {b : Prop} [Decidable b] {c d : Check α} (hc : Marking G c)
    (hd : Marking G d) : Marking G (if b then c else d) := by
  split
  next => exact hc
  next => exact hd

theorem Marking.mistake {cause : Cause} {x : Span} (hc : cause.sites = []) (h : G x) :
    Marking G (mistake cause x) :=
  fun _ hs => marks_append.2 ⟨hs, marks_singleton hc h⟩

theorem Marking.annotate (x : Span) (t : DataType) : Marking G (annotate x t) :=
  fun _ h => h

theorem Marking.setValued (site : Span) (holds : Bool) : Marking G (setValued site holds) :=
  fun _ h => h

variable (hsig : setting.signatures.Sited G)
include hsig

theorem Marking.infer {vars : Variables} {check : Env → Checked α} (hvars : vars.Sited G)
    (h : ∀ env : Env, env.Sited G → Marks G (check env).mistakes) :
    Marking G (infer setting vars check) :=
  fun _ hs => marks_append.2 ⟨hs, h _ ⟨hvars, hsig⟩⟩

theorem marking_checkExpr {e : Expr} {vars : Variables} (he : ∀ x ∈ e.spans, G x)
    (hvars : vars.Sited G) : Marking G (checkExpr setting vars e) :=
  (Marking.infer hsig hvars fun _ henv => marks_typeOf henv e he).bind fun _ => .pure ()

theorem marking_checkDeclaration {d : Declaration} {vars : Variables}
    (hd : ∀ x ∈ d.spans, G x) (hvars : vars.Sited G) :
    Marking G (checkDeclaration setting d vars) := by
  simp only [Declaration.spans, List.forall_mem_cons] at hd
  unfold checkDeclaration
  cases hvalue : d.value with
  | none => exact (Marking.pure false).bind fun _ => .setValued _ _
  | some e =>
    rw [hvalue] at hd
    have he : ∀ x ∈ e.spans, G x := hd.2.2
    have hinfer : Marking G (infer setting vars (valueFor d.type e)) :=
      .infer hsig hvars fun _ henv => marks_bind (marks_typeOf henv e he)
        (marks_ite (marks_bind (marks_report rfl (he _ e.span_mem_spans)) (marks_pure _))
          (marks_pure _))
    exact hinfer.bind fun t => (Marking.annotate _ _).bind fun _ =>
      (Marking.pure _).bind fun _ => .setValued _ _

theorem marking_checkAssignment {a : Assignment} {vars : Variables} (ha : ∀ x ∈ a.spans, G x)
    (hvars : vars.Sited G) : Marking G (checkAssignment setting a vars) := by
  simp only [Assignment.spans, List.forall_mem_cons, List.forall_mem_append] at ha
  obtain ⟨-, -, htarget, hvalue⟩ := ha
  have hplace := htarget _ a.target.span_mem_spans
  have hspan := hvalue _ a.value.span_mem_spans
  have hinfer (t : DataType) : Marking G (infer setting vars (valueTo t a)) := by
    refine .infer hsig hvars fun env henv => marks_bind (marks_typeOf henv a.value hvalue) ?_
    have hgiven (given : DataType) : Marks G (do
        if !t.isNothing && !given.fits t false then
          report (.typeMismatch t.shown given.shown) a.value.span
        return (typeOf env a.value).value : Checked DataType).mistakes :=
      marks_ite (marks_bind (marks_report rfl hspan) (marks_pure _)) (marks_pure _)
    dsimp only
    split
    next =>
      refine marks_bind (marks_arithmetic _ ?_) (hgiven _)
      exact List.forall_mem_cons.2 ⟨hplace, List.forall_mem_singleton.2 hspan⟩
    next => exact marks_bind (marks_pure _) (hgiven _)
  unfold checkAssignment
  refine (Marking.infer hsig hvars fun _ henv =>
    marks_typeOfPlace henv .write a.target htarget).bind fun t => (hinfer _).bind fun v => ?_
  refine (Marking.annotate _ _).bind fun _ => ?_
  split
  next => exact .setValued _ _
  next => exact .pure ()

theorem marking_checkLoopStart {start : LoopStart} {vars : Variables}
    (h : ∀ x ∈ start.spans, G x) (hvars : vars.Sited G) :
    Marking G (checkLoopStart setting start vars) := by
  cases start with
  | assign a => exact marking_checkAssignment hsig h hvars
  | declare d =>
    have hd : Marking G (checkDeclaration setting (loopVariable d) vars) :=
      marking_checkDeclaration (d := loopVariable d) hsig h hvars
    exact Marking.ite ((Marking.mistake rfl (h _ List.mem_cons_self)).bind fun _ => hd) hd

theorem marking_checkLoopUpdate {update : LoopUpdate} {vars : Variables}
    (h : ∀ x ∈ update.spans, G x) (hvars : vars.Sited G) :
    Marking G (checkLoopUpdate setting update vars) := by
  cases update with
  | assign a => exact marking_checkAssignment hsig h hvars
  | postfixed target op s => exact marking_checkExpr (e := .postfixed target op s) hsig h hvars

theorem marking_checkLeave {result : Result} {vars : Variables} {span : Span}
    {value : Option Expr} (h : ∀ x ∈ span :: (value.map Expr.spans).getD [], G x)
    (hvars : vars.Sited G) : Marking G (checkLeave setting result vars span value) := by
  obtain ⟨hspan, hvalue⟩ := List.forall_mem_cons.1 h
  cases value with
  | none => exact Marking.ite (.mistake rfl hspan) (.pure ())
  | some e =>
    have he : ∀ x ∈ e.spans, G x := hvalue
    exact (Marking.infer hsig hvars fun _ henv => marks_typeOf henv e he).bind fun _ =>
      Marking.ite (.mistake rfl (he _ e.span_mem_spans)) (.pure ())

theorem marking_checkClause {result : Result} {c : Clause} {vars : Variables}
    (h : ∀ x ∈ c.spans, G x) (hvars : vars.Sited G) :
    Marking G (c.check setting result vars) := by
  cases c with
  | declare d => exact marking_checkDeclaration hsig h hvars
  | assign a => exact marking_checkAssignment hsig h hvars
  | evaluate e => exact marking_checkExpr hsig h hvars
  | print args =>
    exact (Marking.infer hsig hvars fun _ henv => marks_typesOf henv args h).bind fun _ => .pure ()
  | start st => exact marking_checkLoopStart hsig h hvars
  | update u => exact marking_checkLoopUpdate hsig h hvars
  | leave value span => exact marking_checkLeave hsig h hvars
  | stop | blockEnd => exact .pure ()

theorem marking_checkBlock {result : Result} {b : Block} {vars : Variables}
    (h : ∀ x ∈ b.spans, G x) (hvars : vars.Sited G) :
    Marking G (checkBlock setting result b vars) := by
  rw [checkBlock_eq]
  refine .forM fun pt hpt => ?_
  obtain ⟨hbefore, hclause⟩ := List.forall_mem_append.1 (b.points_spans h pt hpt)
  exact marking_checkClause hsig hclause (hvars.declareAll (List.forall_mem_map.1 hbefore))

/-! ### Functions, classes and programs -/

theorem marking_checkFunction {f : Function} {vars : Variables} (h : ∀ x ∈ f.spans, G x)
    (hvars : vars.Sited G) : Marking G (checkFunction setting vars f) := by
  simp only [Function.spans, List.forall_mem_cons, List.forall_mem_append] at h
  obtain ⟨hname, -, hps, hbody⟩ := h
  refine (Marking.forM fun _ _ => .setValued _ _).bind fun _ => ?_
  refine (marking_checkBlock hsig hbody (hvars.declareParams (paramNames_spans hps))).bind
    fun _ => ?_
  exact Marking.ite (.mistake rfl hname) (.pure ())

theorem marking_checkDeclarations {ds : List Declaration} {vars : Variables}
    (h : ∀ x ∈ ds.flatMap Declaration.spans, G x) (hvars : vars.Sited G) :
    Marking G (checkDeclarations setting ds vars) := by
  induction ds generalizing vars with
  | nil => exact .pure ()
  | cons d ds ih =>
    obtain ⟨hd, hds⟩ := List.forall_mem_append.1 h
    exact (marking_checkDeclaration hsig hd hvars).bind fun _ =>
      ih hds (hvars.declare (hd _ List.mem_cons_self))

end Marking

theorem marking_checkClass {signatures : Signatures} (hsig : signatures.Sited G) {c : Class}
    (h : ∀ x ∈ c.spans, G x) : Marking G (checkClass signatures c) := by
  simp only [Class.spans, List.forall_mem_cons, List.forall_mem_append] at h
  obtain ⟨-, -, ⟨hps, hds⟩, hfs⟩ := h
  have hparams : (c.params.foldl Variables.declareParam .empty).Sited G :=
    Variables.sited_empty.declareParams (paramNames_spans hps)
  rw [List.forall_mem_flatMap] at hfs
  refine (Marking.forM fun _ _ => .setValued _ _).bind fun _ => ?_
  refine (marking_checkDeclarations hsig hds hparams).bind fun _ => .forM fun f hf => ?_
  exact marking_checkFunction hsig (hfs f hf) (hparams.declareAll (declarationNames_spans hds))

theorem marking_checkProgram {p : Program} (h : ∀ x ∈ p.spans, G x) :
    Marking G (checkProgram p) := by
  have hsig := sited_ofProgram h
  simp only [Program.spans, List.forall_mem_append] at h
  obtain ⟨⟨hds, hfs⟩, hcs⟩ := h
  rw [List.forall_mem_flatMap] at hfs hcs
  refine (marking_checkDeclarations hsig hds Variables.sited_empty).bind fun _ => ?_
  refine (Marking.forM fun f hf => ?_).bind fun _ => .forM fun c hc => ?_
  · exact marking_checkFunction hsig (hfs f hf)
      (Variables.sited_empty.declareAll (declarationNames_spans hds))
  · exact marking_checkClass hsig (hcs c hc)

end Uwu.Typing

namespace Uwu

variable {G : Span → Prop}

/-- The mistakes in the types of a program point to its spans. -/
theorem Program.marks_checkTypes {p : Program} (h : ∀ x ∈ p.spans, G x) :
    Marks G p.checkTypes.mistakes :=
  Typing.marking_checkProgram h .initial marks_nil

/-- Whichever check finds mistakes in a program, they point to its spans. -/
theorem Program.marks_mistakes {p : Program} (h : ∀ x ∈ p.spans, G x) : Marks G p.mistakes := by
  unfold Program.mistakes
  split
  next => exact p.marks_checkTypes h
  next => exact p.marks_checkNames h

end Uwu
