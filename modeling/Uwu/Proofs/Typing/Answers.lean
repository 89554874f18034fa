import Uwu.Proofs.Scope.ClassTypes
import Uwu.Proofs.Typing.Calls

/-! What paths begin with. In a body whose names are resolved, where all variables hold a value and
nothing is declared with base type `san`, a path that begins without a mistake has a type from its
first link on. -/

namespace Uwu

open Typing

theorem Table.mem_of_get? {κ ν : Type} [BEq κ] [LawfulBEq κ] {t : Table κ ν} {k : κ} {v : ν}
    (h : t.get? k = some v) : (k, v) ∈ t.toList := by
  obtain ⟨before, behind, hrows, -⟩ := List.lookup_eq_some_iff.1 h
  rw [hrows]
  exact List.mem_append_right _ List.mem_cons_self

namespace Typing

/-- What is read of a member, or given back by it. -/
def Member.given : Member → DataType
  | property t _ _ => t
  | method sig => sig.returnType

/-- All variables hold a value, and the base type `san` is that of no variable and no member, and
nothing that can be called gives it back. -/
structure Env.Filled (env : Env) : Prop where
  valued : ∀ x ∈ env.vars.toList, x.2.site ∈ env.valued
  vars : ∀ x ∈ env.vars.toList, x.2.type.base ≠ .san
  functions : ∀ x ∈ env.signatures.functions.toList, x.2.returnType.base ≠ .san
  classes : ∀ x ∈ env.signatures.classes.toList, x.2.returnType.base ≠ .san
  members : ∀ x ∈ env.signatures.memberTable.toList, x.2.given.base ≠ .san

instance (env : Env) : Decidable env.Filled :=
  decidable_of_iff ((∀ x ∈ env.vars.toList, x.2.site ∈ env.valued) ∧
    (∀ x ∈ env.vars.toList, x.2.type.base ≠ .san) ∧
    (∀ x ∈ env.signatures.functions.toList, x.2.returnType.base ≠ .san) ∧
    (∀ x ∈ env.signatures.classes.toList, x.2.returnType.base ≠ .san) ∧
    ∀ x ∈ env.signatures.memberTable.toList, x.2.given.base ≠ .san)
    ⟨fun ⟨hvalued, hvars, hfunctions, hclasses, hmembers⟩ =>
      ⟨hvalued, hvars, hfunctions, hclasses, hmembers⟩,
    fun h => ⟨h.valued, h.vars, h.functions, h.classes, h.members⟩⟩

/-- Where `c` has no mistakes, its type is another than `san` and arrays of it. -/
def Definite (c : Checked DataType) : Prop :=
  c.mistakes = [] → c.value.base ≠ .san

section Rules

variable {α : Type}

theorem definite_pure {t : DataType} (h : t.base ≠ .san) : Definite (pure t) :=
  fun _ => h

theorem definite_bind {c : Checked α} {f : α → Checked DataType}
    (h : c.mistakes = [] → Definite (f c.value)) : Definite (c >>= f) := by
  intro hm
  obtain ⟨hc, hf⟩ := bind_mistakes_eq_nil.1 hm
  exact h hc hf

/-- After a step with a mistake. -/
theorem definite_report (cause : Cause) (span : Span) (f : Unit → Checked DataType) :
    Definite (report cause span >>= f) :=
  definite_bind fun h => nomatch h

theorem definite_roleMistake (name : Name) (expected actual : String) :
    Definite (roleMistake name expected actual) :=
  definite_report _ _ _

theorem definite_applyTo (callee : String) {sig : Signature} (h : sig.returnType.base ≠ .san)
    (args : List DataType) (receiver : Option DataType) (span : Span) :
    Definite (applyTo callee sig args receiver span) := by
  intro _
  rw [value_applyTo]
  exact h

end Rules

end Typing

/-- However the name is used and whatever the arguments are, the root has a type or a mistake. -/
def Root.Answers (env : Env) : Root → Prop
  | link (.call n _ span) => ∀ args, Definite (callName env n args span)
  | link l => ∀ access, Definite (accessName env access l.head)
  | construct cls _ => ∀ args span, Definite (Typing.construct env cls args span)

/-! ### Roots at a visit -/

namespace Visit

variable {p : Program} {x : Visit} {n : Name}

theorem definite_accessName (hf : (x.env p).Filled) (access : Access) {y : Variable}
    (hy : x.view.vars.get? n.value = some y) : Definite (accessName (x.env p) access n) := by
  have hrow : (n.value, y) ∈ (x.env p).vars.toList := Table.mem_of_get? hy
  have hbase := hf.vars _ hrow
  have hd : (x.env p).declared? n = some y := hy
  have hvalued : (x.env p).valued.contains y.site := List.contains_iff_mem.2 (hf.valued _ hrow)
  unfold accessName
  rw [hd]
  cases access with
  | read =>
    dsimp only
    rw [readName, hd]
    dsimp only
    rw [if_pos hvalued]
    exact definite_pure hbase
  | write | owner => exact definite_bind fun _ => definite_pure hbase

/-- In a body a name that is used as a variable is a variable. -/
theorem answers_name (hd : Scope.duplicates .empty p.entries = [])
    (hnamed : p.Named) (hcs : ∀ c ∈ p.classes, Scope.duplicates .empty c.entries = [])
    (hx : x.view.Resolved p) (hbody : x.view.function.isSome) (hf : (x.env p).Filled)
    (hn : ∀ c ∈ p.classes, c.name.value ≠ n.value) {r : Root} (hr : r ∈ x.view.clause.roots)
    (hrn : r.reference = ⟨n, .globalVariable⟩) (access : Access) :
    Definite (accessName (x.env p) access n) := by
  intro hm
  obtain ⟨b, hb, hrole⟩ := exists_variable hx hd hnamed hcs hn hm hr hrn
  cases hy : x.view.vars.get? n.value with
  | some y => exact definite_accessName hf access hy hm
  | none =>
    rw [(hx.others n.value b hb hrole hy).1] at hbody
    cases hbody

/-- In a body a name that is called is that of a function or a method. -/
theorem answers_call (hd : Scope.duplicates .empty p.entries = [])
    (hnamed : p.Named) (hx : x.view.Resolved p)
    (hbody : x.view.function.isSome) (hf : (x.env p).Filled)
    (hn : ∀ c ∈ p.classes, c.name.value ≠ n.value) {es : List Expr} {span : Span}
    (hr : Root.link (.call n es span) ∈ x.view.clause.roots) (args : List DataType) :
    Definite (callName (x.env p) n args span) := by
  intro hm
  rcases accepts_of_callName hm with ⟨sig, hsig, -⟩ | ⟨hmember, hvars, -⟩
  · obtain ⟨c, -, hget⟩ := Option.bind_eq_some_iff.1 hsig
    unfold callName
    rw [hsig]
    dsimp only
    rw [value_applyTo]
    exact hf.members _ (Table.mem_of_get? hget)
  · have hforward : ¬x.view.isForwardCall p (.link (.call n es span)) := by
      obtain ⟨f, hsome⟩ := Option.isSome_iff_exists.1 hbody
      simp [View.isForwardCall, hsome]
    have hnone := hmember
    rw [ownMember?_eq hd hnamed hx] at hnone
    obtain ⟨f, hfound⟩ := exists_functionOf? (function_of_call hx hr hn hforward hnone hvars)
    have hget : (x.env p).signatures.functions.get? n.value = some f.signature := by
      rw [get?_functions, hfound, Option.map_some]
    unfold callName
    rw [hmember, hvars, hget]
    dsimp only [Option.isSome_none]
    rw [if_neg Bool.false_ne_true, value_applyTo]
    exact hf.functions _ (Table.mem_of_get? hget)

theorem answers_construct (hf : (x.env p).Filled) (hclass : n.value ∈ p.classNames)
    (args : List DataType) (span : Span) : Definite (construct (x.env p) n args span) := by
  obtain ⟨c, hc⟩ := exists_classOf? (List.mem_map.1 hclass)
  have hget : (x.env p).signatures.classes.get? n.value = some c.signature := by
    rw [env, classes_ofProgram, hc, Option.map_some]
  unfold construct
  rw [hget]
  exact definite_applyTo _ (hf.classes _ (Table.mem_of_get? hget)) _ _ _

end Visit

/-! ### Programs that are read from a text -/

theorem Body.views_subset {p : Program} {b : Body} (hb : b ∈ p.bodies) : b.views p ⊆ p.views := by
  intro v hv
  rw [Program.views, List.mem_append, List.mem_append]
  rcases List.mem_append.1 hb with hb | hb
  · exact .inr (.inl (List.mem_flatMap.2 ⟨b, hb, hv⟩))
  · obtain ⟨c, hc, hb⟩ := List.mem_flatMap.1 hb
    refine .inr (.inr (List.mem_flatMap.2 ⟨c, hc, ?_⟩))
    exact List.mem_append_right _ (List.mem_flatMap.2 ⟨b, hb, hv⟩)

section Texts

variable {p : Program} {lines : List String} {names : Names}
  (hp : Program.ofTokens (Lexed.ofLines lines names).tokens (Lexed.ofLines lines names).names =
    .ok p)
include hp

/-- The class of which an object is made in a body is declared. -/
theorem Program.mem_classNames_of_construct (h : p.checkNames = []) {b : Body} (hb : b ∈ p.bodies)
    {v : View} (hv : v ∈ b.views p) {cls : Name} {args : List Expr}
    (hr : Root.construct cls args ∈ v.clause.roots) : cls.value ∈ p.classNames := by
  have hplain := Grammar.plain_ofTokens (Lexed.told_ofLines lines names) hp
  obtain ⟨hclass, hword⟩ : Root.Plain _ (.construct cls args) :=
    hplain.views v (Body.views_subset hb hv) _ hr
  have hnot := Program.not_mem_plainNames hp hclass hword
  have hres := Body.resolved h hb v hv
  rcases Scope.unresolved_eq_nil.1 hres.uses _ (List.mem_map_of_mem hr) with hvisible | ⟨-, houter⟩
  · obtain ⟨pt, hpt, rfl⟩ := List.mem_map.1 hv
    exact (Body.known_view hb hpt _ hvisible).resolve_right hnot
  · exact Program.mem_classNames_of_outerIn houter

/-- In a body every path begins with a type, or with a mistake. -/
theorem Visit.answers (h : p.checkNames = []) {b : Body} (hb : b ∈ p.bodies) {x : Visit}
    (hx : x.view ∈ b.views p) (hf : (x.env p).Filled) :
    ∀ r ∈ x.view.clause.roots, r.Answers (x.env p) := by
  intro r hr
  obtain ⟨⟨hd, -, -⟩, hcs⟩ := Program.checkNames_eq_nil.1 h
  have hcs : ∀ c ∈ p.classes, Scope.duplicates .empty c.entries = [] := fun c hc => (hcs c hc).1
  have hplain := Grammar.plain_ofTokens (Lexed.told_ofLines lines names) hp
  have hnamed := Program.named_ofTokens (Lexed.worded_ofLines lines names) hp
  have hroot := hplain.views x.view (Body.views_subset hb hx) r hr
  have hres := Body.resolved h hb x.view hx
  have hbody : x.view.function.isSome := by
    obtain ⟨pt, -, hpt⟩ := List.mem_map.1 hx
    rw [← hpt]
    rfl
  cases r with
  | construct cls args =>
    exact Visit.answers_construct hf (Program.mem_classNames_of_construct hp h hb hx hr)
  | link l =>
    have hn : ∀ c ∈ p.classes, c.name.value ≠ l.head.value := hplain.ne_className hroot
    cases l with
    | call n es span => exact Visit.answers_call hd hnamed hres hbody hf hn hr
    | name n => exact Visit.answers_name hd hnamed hcs hres hbody hf hn hr rfl
    | indexed n es span => exact Visit.answers_name hd hnamed hcs hres hbody hf hn hr rfl

end Texts

end Uwu
