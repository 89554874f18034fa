import Uwu.Proofs.Typing.Beside
import Uwu.Proofs.Typing.Effects

/-! What the check of a place depends on. Of the variables that hold a value, only those count that
are read there: one that is written, or of which a member is written, needs no value. -/

namespace Uwu

open Typing

/-! ### Names that are read -/

/-- The name of a variable that is accessed, if its value is read. -/
def Typing.Access.reads (access : Access) (n : Name) : List String :=
  if access = .read then [n.value] else []

mutual

/-- The names of which an expression reads the value. -/
def Expr.reads : Expr → List String
  | .literal _ _ => []
  | .format segments _ => segmentReads segments
  | .input none _ => []
  | .input (some prompt) _ => prompt.reads
  | .array elements _ => exprReads elements
  | .prefixed _ operand _ => operand.reads
  | .infixed left _ right _ => left.reads ++ right.reads
  | .postfixed target _ _ => target.reads (if target.isAssignable then .write else .read)
  | .place p => p.reads .read

def exprReads : List Expr → List String
  | [] => []
  | e :: es => e.reads ++ exprReads es

def segmentReads : List Segment → List String
  | [] => []
  | .text _ :: ss => segmentReads ss
  | .expr e :: ss => e.reads ++ segmentReads ss

/-- Those in the indices or arguments of a link. -/
def Link.operandReads : Link → List String
  | .name _ => []
  | .indexed _ es _ | .call _ es _ => exprReads es

/-- Those in a link that begins a path. -/
def Link.reads (access : Access) : Link → List String
  | .name n => access.reads n
  | .indexed n es _ => access.reads n ++ exprReads es
  | .call _ es _ => exprReads es

def Place.reads (access : Access) : Place → List String
  | .link l => l.reads access
  | .construct _ es _ => exprReads es
  | .member object l _ => object.reads access.ofObject ++ l.operandReads

end

namespace Typing

/-! ### Environments that agree -/

/-- The same is declared, whatever the order. -/
structure Signatures.Same (s s' : Signatures) : Prop where
  functions : ∀ name, s'.functions.get? name = s.functions.get? name
  classes : s'.classes = s.classes
  memberTable : s'.memberTable = s.memberTable

/-- The variables with these names hold a value in both environments or in none. -/
structure Env.AgreesOn (env : Env) (names : List String) (env' : Env) : Prop where
  signatures : env.signatures.Same env'.signatures
  cls : env'.cls = env.cls
  vars : env'.vars = env.vars
  valued : ∀ name ∈ names, ∀ v, env.vars.get? name = some v →
    (v.site ∈ env'.valued ↔ v.site ∈ env.valued)

variable {env env' : Env} {names : List String}

theorem Env.AgreesOn.mono (h : env.AgreesOn names env') {fewer : List String}
    (hs : fewer ⊆ names) : env.AgreesOn fewer env' :=
  ⟨h.signatures, h.cls, h.vars, fun name hn => h.valued name (hs hn)⟩

theorem Env.AgreesOn.left {more : List String} (h : env.AgreesOn (names ++ more) env') :
    env.AgreesOn names env' :=
  h.mono (List.subset_append_left names more)

theorem Env.AgreesOn.right {more : List String} (h : env.AgreesOn (names ++ more) env') :
    env.AgreesOn more env' :=
  h.mono (List.subset_append_right names more)

/-! ### Names -/

section Names

variable (h : env.AgreesOn names env')
include h

theorem declared?_congr (n : Name) : env'.declared? n = env.declared? n := by
  rw [Env.declared?, Env.declared?, h.vars]

theorem ownMember?_congr (n : Name) : env'.ownMember? n = env.ownMember? n := by
  rw [Env.ownMember?, Env.ownMember?, h.cls]
  congr 1
  funext cls
  rw [Signatures.member?, Signatures.member?, h.signatures.memberTable]

/-- A name that is not declared as a variable reads no value. -/
theorem readName_congr_of_none {n : Name} (hn : env.declared? n = none) :
    readName env' n = readName env n := by
  unfold readName
  rw [declared?_congr h, ownMember?_congr h, hn]
  dsimp only
  rw [Table.contains, Table.contains, h.signatures.functions]

theorem readName_congr {n : Name} (hn : n.value ∈ names) : readName env' n = readName env n := by
  cases hv : env.declared? n with
  | none => exact readName_congr_of_none h hv
  | some v =>
    have hvalued : env'.valued.contains v.site = env.valued.contains v.site := by
      rw [Bool.eq_iff_iff, List.contains_iff_mem, List.contains_iff_mem]
      exact h.valued n.value hn v hv
    unfold readName
    rw [declared?_congr h, ownMember?_congr h, hv]
    dsimp only
    rw [hvalued]

theorem callName_congr (n : Name) (args : List DataType) (span : Span) :
    callName env' n args span = callName env n args span := by
  unfold callName
  rw [ownMember?_congr h, declared?_congr h, h.signatures.functions]

theorem construct_congr (cls : Name) (args : List DataType) (span : Span) :
    construct env' cls args span = construct env cls args span := by
  unfold construct
  rw [h.signatures.classes]

theorem lookup_congr (owner : DataType) (n : Name) : env'.lookup owner n = env.lookup owner n := by
  unfold Env.lookup
  rw [Signatures.member?, Signatures.member?, h.signatures.memberTable]

theorem checkConstMember_congr (access : Access) (owner : DataType) (n : Name) :
    checkConstMember env' access owner n = checkConstMember env access owner n := by
  unfold checkConstMember
  rw [lookup_congr h]

omit h in
theorem accessName_congr {access : Access} {n : Name} (h : env.AgreesOn (access.reads n) env') :
    accessName env' access n = accessName env access n := by
  unfold accessName
  rw [declared?_congr h]
  cases access with
  | read => exact readName_congr h List.mem_cons_self
  | write | owner =>
    cases hv : env.declared? n with
    | some v => rfl
    | none => exact readName_congr_of_none h hv

end Names

/-! ### Expressions -/

mutual

theorem typeOf_congr : ∀ {e : Expr}, env.AgreesOn e.reads env' → typeOf env' e = typeOf env e
  | .literal _ _, _ => rfl
  | .format segments _, h => by
    rw [Expr.reads] at h
    rw [typeOf, typeOf, typeSegments_congr h]
  | .input none _, _ => rfl
  | .input (some prompt) _, h => by
    rw [Expr.reads] at h
    rw [typeOf, typeOf, typeOf_congr h]
  | .array elements span, h => by
    rw [Expr.reads] at h
    rw [typeOf, typeOf, typesOf_congr h]
  | .prefixed op operand span, h => by
    rw [Expr.reads] at h
    rw [typeOf, typeOf, typeOf_congr h]
  | .infixed left op right span, h => by
    rw [Expr.reads] at h
    rw [typeOf, typeOf, typeOf_congr h.left, typeOf_congr h.right]
  | .postfixed target op span, h => by
    rw [Expr.reads] at h
    rw [typeOf, typeOf, typeOfPlace_congr h]
  | .place p, h => by
    rw [Expr.reads] at h
    rw [typeOf, typeOf, typeOfPlace_congr h]

theorem typesOf_congr : ∀ {es : List Expr}, env.AgreesOn (exprReads es) env' →
    typesOf env' es = typesOf env es
  | [], _ => rfl
  | e :: es, h => by
    rw [exprReads] at h
    rw [typesOf, typesOf, typeOf_congr h.left, typesOf_congr h.right]

theorem typeSegments_congr : ∀ {ss : List Segment}, env.AgreesOn (segmentReads ss) env' →
    typeSegments env' ss = typeSegments env ss
  | [], _ => rfl
  | .text _ :: ss, h => by
    rw [segmentReads] at h
    rw [typeSegments, typeSegments, typeSegments_congr h]
  | .expr e :: ss, h => by
    rw [segmentReads] at h
    rw [typeSegments, typeSegments, typeOf_congr h.left, typeSegments_congr h.right]

theorem typeIndices_congr {span : Span} : ∀ {es : List Expr} {t : DataType},
    env.AgreesOn (exprReads es) env' → typeIndices env' span es t = typeIndices env span es t
  | [], _, _ => rfl
  | e :: es, t, h => by
    rw [exprReads] at h
    rw [typeIndices, typeIndices, typeOf_congr h.left]
    simp only [typeIndices_congr h.right]

theorem typeOfLink_congr {access : Access} : ∀ {l : Link}, env.AgreesOn (l.reads access) env' →
    typeOfLink env' access l = typeOfLink env access l
  | .name n, h => by
    rw [Link.reads] at h
    rw [typeOfLink, typeOfLink, accessName_congr h]
  | .indexed n es span, h => by
    rw [Link.reads] at h
    rw [typeOfLink, typeOfLink, accessName_congr h.left]
    simp only [typeIndices_congr h.right]
  | .call n es span, h => by
    rw [Link.reads] at h
    rw [typeOfLink, typeOfLink, typesOf_congr h]
    simp only [callName_congr h]

theorem typeOfMember_congr {owner : DataType} : ∀ {l : Link}, env.AgreesOn l.operandReads env' →
    typeOfMember env' owner l = typeOfMember env owner l
  | .name n, h => by rw [typeOfMember, typeOfMember, lookup_congr h]
  | .indexed n es span, h => by
    rw [typeOfMember, typeOfMember, lookup_congr h]
    rw [Link.operandReads] at h
    simp only [typesOf_congr h, typeIndices_congr h]
  | .call n es span, h => by
    rw [typeOfMember, typeOfMember, lookup_congr h]
    rw [Link.operandReads] at h
    rw [typesOf_congr h]

theorem typeOfPlace_congr {access : Access} : ∀ {p : Place}, env.AgreesOn (p.reads access) env' →
    typeOfPlace env' access p = typeOfPlace env access p
  | .link l, h => by
    rw [Place.reads] at h
    rw [typeOfPlace, typeOfPlace, typeOfLink_congr h]
  | .construct cls es span, h => by
    rw [Place.reads] at h
    rw [typeOfPlace, typeOfPlace, typesOf_congr h]
    simp only [construct_congr h]
  | .member object l span, h => by
    rw [Place.reads] at h
    rw [typeOfPlace, typeOfPlace, typeOfPlace_congr h.left]
    simp only [checkConstMember_congr h, typeOfMember_congr h.right]

end

end Typing

/-! ### Clauses -/

def Declaration.reads (d : Declaration) : List String :=
  (d.value.map Expr.reads).getD []

def Assignment.reads (a : Assignment) : List String :=
  a.target.reads .write ++ a.value.reads

namespace Clause

/-- The names of which a clause reads the value. -/
def reads : Clause → List String
  | declare d | start (.declare d) => d.reads
  | assign a | start (.assign a) | update (.assign a) => a.reads
  | evaluate e => e.reads
  | print args => exprReads args
  | update (.postfixed target op span) => (Expr.postfixed target op span).reads
  | leave value _ => (value.map Expr.reads).getD []
  | stop | blockEnd => []

/-- The site of the variable that a clause declares or assigns. -/
def sets (vars : Variables) : Clause → Option Span
  | declare d | start (.declare d) => some d.name.span
  | assign a | start (.assign a) | update (.assign a) =>
    (assignedVariable? vars a.target).map Variable.site
  | evaluate _ | print _ | update (.postfixed ..) | leave _ _ | stop | blockEnd => none

end Clause

namespace Typing

section Effects

variable {env env' : Env}

theorem declarationEffect_congr {d : Declaration} (h : env.AgreesOn d.reads env') :
    declarationEffect d env' = declarationEffect d env := by
  unfold Declaration.reads at h
  unfold declarationEffect
  cases hv : d.value with
  | none => rfl
  | some e =>
    rw [hv] at h
    have he : typeOf env' e = typeOf env e := typeOf_congr h
    dsimp only
    rw [valueFor, valueFor, he]

theorem assignmentEffect_congr {a : Assignment} (h : env.AgreesOn a.reads env') :
    assignmentEffect a env' = assignmentEffect a env := by
  unfold assignmentEffect valueTo
  rw [typeOfPlace_congr h.left, typeOf_congr h.right, h.vars]

theorem leaveMistakes_congr {value : Option Expr}
    (h : env.AgreesOn ((value.map Expr.reads).getD []) env') (result : Result) (span : Span) :
    leaveMistakes result value span env' = leaveMistakes result value span env := by
  unfold leaveMistakes
  cases value with
  | none => rfl
  | some e =>
    have he : typeOf env' e = typeOf env e := typeOf_congr h
    dsimp only
    rw [he]

end Effects

end Typing

/-- A clause does the same wherever the variables that it reads hold a value or not alike. -/
theorem Clause.effect_congr {env env' : Env} {c : Clause} (h : env.AgreesOn c.reads env')
    (result : Result) : c.effect result env' = c.effect result env := by
  cases c with
  | declare d => exact declarationEffect_congr h
  | assign a => exact assignmentEffect_congr h
  | evaluate e => rw [effect, effect, typeOf_congr h]
  | print args => rw [effect, effect, typesOf_congr h]
  | start st =>
    cases st with
    | assign a => exact assignmentEffect_congr h
    | declare d =>
      have hd : env.AgreesOn (loopVariable d).reads env' := h
      rw [effect, effect, loopStartEffect, loopStartEffect, declarationEffect_congr hd]
  | update u =>
    cases u with
    | assign a => exact assignmentEffect_congr h
    | postfixed target op span =>
      rw [effect, effect, loopUpdateEffect, loopUpdateEffect, typeOf_congr h]
  | leave value span => rw [effect, effect, leaveMistakes_congr h]
  | stop | blockEnd => rfl

/-- The variable that the effect of a clause is about. -/
theorem Clause.site_note (result : Result) (c : Clause) (env : Env) :
    (c.effect result env).note.map Prod.fst = c.sets env.vars := by
  have hdeclare (d : Declaration) :
      (declarationEffect d env).note.map Prod.fst = some d.name.span := by
    obtain ⟨holds, hn⟩ := declarationEffect_note d env
    rw [hn]
    rfl
  have hassign (a : Assignment) : (assignmentEffect a env).note.map Prod.fst =
      (assignedVariable? env.vars a.target).map Variable.site := by
    rw [assignmentEffect, Option.map_map]
    rfl
  cases c with
  | declare d => exact hdeclare d
  | assign a => exact hassign a
  | start st =>
    cases st with
    | assign a => exact hassign a
    | declare d => exact hdeclare (loopVariable d)
  | update u =>
    cases u with
    | assign a => exact hassign a
    | postfixed => rfl
  | evaluate | print | leave | stop | blockEnd => rfl

end Uwu
