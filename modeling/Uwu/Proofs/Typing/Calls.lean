import Uwu.Proofs.Grammar.Heads
import Uwu.Proofs.Grammar.ItemNames
import Uwu.Proofs.Lexeme.ClassNames
import Uwu.Proofs.Scope.Meanings
import Uwu.Proofs.Typing.Signatures
import Uwu.Proofs.Typing.Visits

/-! Calls of programs that compile. A call runs a function that is declared and takes its arguments,
and a name that is read or written is a variable, except in initialisers of globals: there a global
that is declared later, called like a function, is not looked at. -/

namespace Uwu

open Typing

/-! ### Callees -/

/-- The function that a call runs: a method of the class around it, or a function of the program. -/
def View.callee? (p : Program) (v : View) (name : String) : Option Function :=
  (v.cls.bind fun c => functionOf? c.methods name).or (functionOf? p.functions name)

/-- As many arguments as there are parameters, each of a type that may stand there in a call. -/
def Function.Takes (f : Function) (args : List DataType) : Prop :=
  args.length = f.params.length ∧ ∀ x ∈ args.zip f.paramTypes, x.1.fits x.2 true

/-- A call has a callee that takes the arguments, and any other name that begins a path is visible
as a variable. -/
def Visit.Sound (p : Program) (x : Visit) : Root → Prop
  | .link (.call n args _) =>
    ∃ f, x.view.callee? p n.value = some f ∧
      f.Takes (args.map fun e => (typeOf (x.env p) e).value)
  | .link l => ∃ b, x.view.scope.get? l.head.value = some b ∧ b.role.isVariable
  | .construct _ _ => True

/-- In the value of a global, the call of a global that is declared with it or later. -/
def View.isForwardCall (p : Program) (v : View) : Root → Bool
  | .link (.call n _ _) =>
    v.cls.isNone && v.function.isNone && p.scope.has n.value .globalVariable &&
      !v.vars.contains n.value
  | _ => false

theorem Typing.value_typesOf (env : Env) (es : List Expr) :
    (typesOf env es).value = es.map fun e => (typeOf env e).value := by
  induction es with
  | nil => rfl
  | cons e es ih =>
    rw [typesOf, List.map_cons, ← ih]
    rfl

theorem Function.takes_of_accepts {f : Function} {args : List DataType}
    (h : f.signature.Accepts args) : f.Takes args := by
  obtain ⟨hl, hargs⟩ := h
  have hparams : f.signature.params = f.paramTypes.map .exact := rfl
  refine ⟨?_, fun x hx => ?_⟩
  · rw [hl, hparams, List.length_map, paramTypes, List.length_map]
  · rw [hparams, List.zip_map_right] at hargs
    obtain ⟨expected, hmem, hfits⟩ := hargs _ (List.mem_map_of_mem hx)
    cases List.mem_singleton.1 hmem
    exact hfits

/-- Without duplicates the name of a method is not that of a property. -/
theorem Class.member?_of_method {c : Class} {name : String}
    (h : Scope.duplicates .empty c.entries = []) (hf : ∃ f ∈ c.methods, f.name.value = name) :
    ∃ sig, c.member? name = some (.method sig) := by
  obtain ⟨f, hf, rfl⟩ := hf
  obtain ⟨g, hg⟩ := exists_functionOf? ⟨f, hf, rfl⟩
  refine ⟨g.signature, ?_⟩
  have hmethod := Scope.get?_ofEntries_of_mem h (mem_entries.2 (.inr (.inr ⟨f, hf, rfl⟩)))
  have hproperty : c.properties.find? (fun d => d.name.value == f.name.value) = none := by
    refine List.find?_eq_none.2 fun d hd hn => ?_
    have hd := Scope.get?_ofEntries_of_mem h (mem_entries.2 (.inr (.inl ⟨d, hd, rfl⟩)))
    rw [Declaration.entry, eq_of_beq hn, hmethod] at hd
    cases congrArg Binding.role (Option.some.inj hd)
  rw [member?, hproperty, hg]
  rfl

/-! ### Names at a view -/

section Views

variable {p : Program} {v : View} {n : String} {b : Binding}

/-- A visible name that is not the name of a class stands for a variable, or for a function, or in a
class for a method of it. -/
theorem View.Resolved.cases_of_visible (hv : v.Resolved p) (hb : v.scope.get? n = some b)
    (hn : ∀ c ∈ p.classes, c.name.value ≠ n) :
    b.role.isVariable ∨ (v.cls = none ∧ ∃ f ∈ p.functions, f.name.value = n) ∨
      ∃ c, v.cls = some c ∧ ∃ f ∈ c.methods, f.name.value = n := by
  rcases hv.scope n b hb with hl | hs
  · exact .inl (by rw [hl]; rfl)
  · cases hcls : v.cls with
    | none =>
      rw [hcls] at hs
      rcases Program.scope_cases hs with hg | ⟨-, hf⟩ | ⟨-, c, hc, hcn⟩
      · exact .inl (by rw [hg]; rfl)
      · exact .inr (.inl ⟨rfl, hf⟩)
      · exact absurd hcn (hn c hc)
    | some c =>
      rw [hcls] at hs
      rcases Class.scope_cases hs with ⟨hl, -⟩ | ⟨hp, -⟩ | ⟨-, hm⟩
      · exact .inl (by rw [hl]; rfl)
      · exact .inl (by rw [hp]; rfl)
      · exact .inr (.inr ⟨c, rfl, hm⟩)

/-- A visible variable that is not checked yet is a global, outside of functions, or a property. -/
theorem View.Resolved.cases_of_unchecked (hv : v.Resolved p) (hb : v.scope.get? n = some b)
    (hr : b.role.isVariable) (hn : v.vars.get? n = none) :
    (v.cls = none ∧ v.function = none ∧ p.scope.has n .globalVariable) ∨
      ∃ c, v.cls = some c ∧ ∃ d ∈ c.properties, d.name.value = n := by
  obtain ⟨hf, hl⟩ := hv.others n b hb hr hn
  have hs := (hv.scope n b hb).resolve_left hl
  cases hcls : v.cls with
  | none =>
    rw [hcls] at hs
    rcases Program.scope_cases hs with hg | ⟨hg, -⟩ | ⟨hg, -⟩
    · have hs' : p.scope.get? n = some b := hs
      exact .inl ⟨rfl, hf, by rw [Scope.has, hs', Option.any_some, hg]; rfl⟩
    · cases hg.symm ▸ hr
    · cases hg.symm ▸ hr
  | some c =>
    rw [hcls] at hs
    rcases Class.scope_cases hs with ⟨hg, -⟩ | ⟨-, hd⟩ | ⟨hg, -⟩
    · exact absurd hg hl
    · exact .inr ⟨c, rfl, hd⟩
    · cases hg.symm ▸ hr

end Views

/-! ### Roots at a visit -/

namespace Visit

variable {p : Program} {x : Visit} {n : Name}

theorem ownMember?_eq (hd : Scope.duplicates .empty p.entries = []) (hnamed : p.Named)
    (hx : x.view.Resolved p) :
    (x.env p).ownMember? n = x.view.cls.bind fun c => c.member? n.value := by
  rw [Env.ownMember?, env]
  dsimp only
  cases hc : x.view.cls with
  | none => rfl
  | some c =>
    have hnodup := Program.nodup_classNames hd
    exact member?_ofProgram p hnodup hnamed.dot_notMem (hx.cls c hc) n.value

theorem get?_functions (name : String) : (x.env p).signatures.functions.get? name =
    (functionOf? p.functions name).map Function.signature :=
  functions_ofProgram p name

/-- The callee of a call that runs no method. -/
theorem exists_function {args : List DataType}
    (hm : (x.view.cls.bind fun c => c.member? n.value) = none)
    (hf : ∃ f ∈ p.functions, f.name.value = n.value)
    (hs : ∀ sig, (x.env p).signatures.functions.get? n.value = some sig → sig.Accepts args) :
    ∃ f, x.view.callee? p n.value = some f ∧ f.Takes args := by
  obtain ⟨f, hf⟩ := exists_functionOf? hf
  have hget : (x.env p).signatures.functions.get? n.value = some f.signature := by
    rw [get?_functions, hf, Option.map_some]
  have hnone : (x.view.cls.bind fun c => functionOf? c.methods n.value) = none :=
    Option.bind_eq_none_iff.2 fun c hc =>
      (Class.member?_eq_none.1 (Option.bind_eq_none_iff.1 hm c hc)).2
  refine ⟨f, ?_, Function.takes_of_accepts (hs f.signature hget)⟩
  rw [View.callee?, hnone, Option.none_or, hf]

/-- A name in a call that is no member and no checked variable is that of a function, or the call is
a forward one. -/
theorem function_of_call (hx : x.view.Resolved p) {args : List Expr} {span : Span}
    (hr : Root.link (.call n args span) ∈ x.view.clause.roots)
    (hn : ∀ c ∈ p.classes, c.name.value ≠ n.value)
    (hf : ¬x.view.isForwardCall p (.link (.call n args span)))
    (hm : (x.view.cls.bind fun c => c.member? n.value) = none)
    (hvars : x.view.vars.get? n.value = none) : ∃ f ∈ p.functions, f.name.value = n.value := by
  rcases Scope.unresolved_eq_nil.1 hx.uses _ (List.mem_map_of_mem hr) with hs | ⟨-, hs⟩
  · obtain ⟨b, hb⟩ : ∃ b, x.view.scope.get? n.value = some b := Option.isSome_iff_exists.1 hs
    rcases hx.cases_of_visible hb hn with hrole | ⟨-, hfunction⟩ | ⟨c, hc, hmethod⟩
    · rcases hx.cases_of_unchecked hb hrole hvars with ⟨hcls, hfn, hg⟩ | ⟨c, hc, d, hd, hdn⟩
      · refine absurd ?_ hf
        simp only [View.isForwardCall, hcls, hfn, hg, Table.contains, hvars]
        rfl
      · rw [hc, Option.bind_some, Class.member?_eq_none] at hm
        exact absurd hdn (hm.1 d hd)
    · exact hfunction
    · rw [hc, Option.bind_some, Class.member?_eq_none] at hm
      obtain ⟨f, hfm⟩ := exists_functionOf? hmethod
      cases hfm.symm.trans hm.2
  · exact Program.function_of_outerIn hs

theorem sound_of_call (hd : Scope.duplicates .empty p.entries = [])
    (hnamed : p.Named) (hx : x.view.Resolved p)
    {args : List Expr} {span : Span} (hr : Root.link (.call n args span) ∈ x.view.clause.roots)
    (hn : ∀ c ∈ p.classes, c.name.value ≠ n.value)
    (hclean : Clean (x.env p) (.link (.call n args span)))
    (hf : ¬x.view.isForwardCall p (.link (.call n args span))) :
    x.Sound p (.link (.call n args span)) := by
  obtain ⟨access, hm⟩ := hclean
  rw [typeOfLink] at hm
  have haccepts := accepts_of_callName (bind_mistakes_eq_nil.1 hm).2
  rw [value_typesOf, ownMember?_eq hd hnamed hx] at haccepts
  rcases haccepts with ⟨sig, hsig, hargs⟩ | ⟨hnone, hvars, hsigs⟩
  · obtain ⟨c, hc, hm⟩ := Option.bind_eq_some_iff.1 hsig
    obtain ⟨f, hf, rfl⟩ := Class.exists_method hm
    refine ⟨f, ?_, Function.takes_of_accepts hargs⟩
    rw [View.callee?, hc, Option.bind_some, hf, Option.some_or]
  · exact exists_function hnone (function_of_call hx hr hn hf hnone hvars) hsigs

/-- A name that begins a path and is not called is that of a variable. -/
theorem exists_variable (hx : x.view.Resolved p) (hd : Scope.duplicates .empty p.entries = [])
    (hnamed : p.Named) (hcs : ∀ c ∈ p.classes, Scope.duplicates .empty c.entries = [])
    (hn : ∀ c ∈ p.classes, c.name.value ≠ n.value) {access : Access}
    (hm : (accessName (x.env p) access n).mistakes = [])
    {r : Root} (hr : r ∈ x.view.clause.roots) (hrn : r.reference = ⟨n, .globalVariable⟩) :
    ∃ b, x.view.scope.get? n.value = some b ∧ b.role.isVariable := by
  obtain ⟨b, hb⟩ : ∃ b, x.view.scope.get? n.value = some b := by
    have huse := List.mem_map_of_mem (f := Root.reference) hr
    rw [hrn] at huse
    exact exists_binding_of_unresolved hx.uses huse rfl
  cases hv : x.view.vars.get? n.value with
  | some y => exact hx.vars n.value y hv
  | none =>
    obtain ⟨hmethod, hfunction⟩ := of_accessName hm hv
    refine ⟨b, hb, ?_⟩
    rcases hx.cases_of_visible hb hn with hrole | ⟨-, hf⟩ | ⟨c, hc, hf⟩
    · exact hrole
    · obtain ⟨f, hf⟩ := exists_functionOf? hf
      rw [Table.contains, get?_functions, hf] at hfunction
      cases hfunction
    · obtain ⟨sig, hsig⟩ := Class.member?_of_method (hcs c (hx.cls c hc)) hf
      refine absurd ?_ (hmethod sig)
      rw [ownMember?_eq hd hnamed hx, hc]
      exact hsig

/-- A name cannot be that of a global and of a function, so there is no function to call. -/
theorem not_sound_of_isForwardCall (hd : Scope.duplicates .empty p.entries = []) {r : Root}
    (hf : x.view.isForwardCall p r) : ¬x.Sound p r := by
  unfold View.isForwardCall at hf
  split at hf
  next n args span =>
    simp only [Bool.and_eq_true, Option.isNone_iff_eq_none] at hf
    obtain ⟨⟨⟨hcls, -⟩, hg⟩, -⟩ := hf
    rintro ⟨f, hf, -⟩
    rw [View.callee?, hcls, Option.bind_none, Option.none_or] at hf
    have hmem : f ∈ p.functions := List.mem_of_find?_eq_some hf
    have hfind : p.functions.find? (fun f => f.name.value == n.value) = some f := hf
    have hfn := List.find?_some hfind
    have hs : p.scope.get? f.name.value = _ :=
      Scope.get?_ofEntries_of_mem hd (Program.mem_entries.2 (.inr (.inl ⟨f, hmem, rfl⟩)))
    rw [Scope.has, ← eq_of_beq hfn, hs] at hg
    cases hg
  next => cases hf

end Visit

/-! ### Programs that compile -/

/-- The roots at the views of a program are plain too. -/
theorem Grammar.PlainProgram.views {names : Names} {p : Program} (h : PlainProgram names p) :
    ∀ v ∈ p.views, PlainRoots names v.clause.roots := by
  have hinit (cls : Option Class) (scope : Scope) (ds : List Declaration) (vars : Variables)
      (hds : ∀ d ∈ ds, PlainRoots names d.roots) :
      ∀ v ∈ initialiserViews cls scope ds vars, PlainRoots names v.clause.roots := by
    intro v hv
    obtain ⟨-, -, -, ⟨d, hd, hc⟩, -⟩ := mem_initialiserViews v hv
    rw [hc]
    exact hds d hd
  have hbody (b : Body) (hb : Grammar.PlainBlock names b.function.body) :
      ∀ v ∈ b.views p, PlainRoots names v.clause.roots :=
    List.forall_mem_map.2 fun pt hpt => hb pt hpt
  refine List.forall_mem_append.2 ⟨hinit _ _ _ _ h.globals, List.forall_mem_append.2 ⟨?_, ?_⟩⟩
  · exact List.forall_mem_flatMap.2 (List.forall_mem_map.2 fun f hf => hbody _ (h.functions f hf))
  · refine List.forall_mem_flatMap.2 fun c hc => List.forall_mem_append.2
      ⟨hinit _ _ _ _ (h.classes c hc).properties, ?_⟩
    exact List.forall_mem_flatMap.2 (List.forall_mem_map.2 fun f hf =>
      hbody _ ((h.classes c hc).methods f hf))

/-- The name that begins a path is that of no class. -/
theorem Grammar.PlainProgram.ne_className {names : Names} {p : Program} (h : PlainProgram names p)
    {l : Link} (hl : (Root.link l).Plain names) : ∀ c ∈ p.classes, c.name.value ≠ l.head.value := by
  intro c hc hcn
  have hcls := (h.classes c hc).name
  rw [hcn, show names.isClass l.head.value = false from hl] at hcls
  cases hcls

theorem plain_of_compile {source : String} {names : Names} {p : Program}
    (h : (compile source names).outcome = .ok p) :
    Grammar.PlainProgram (Lexed.ofLines (splitLines source) names).names p := by
  obtain ⟨-, hp, -⟩ := compile_eq_ok.1 h
  exact Grammar.plain_ofTokens (Lexed.told_ofLines _ _) hp

theorem named_of_compile {source : String} {names : Names} {p : Program}
    (h : (compile source names).outcome = .ok p) : p.Named := by
  obtain ⟨-, hp, -⟩ := compile_eq_ok.1 h
  exact Program.named_ofTokens (Lexed.worded_ofLines _ _) hp

/-- A call in a program that compiles has a callee that is declared, with as many parameters as
there are arguments and of types that these fit, and every other name that begins a path is a
variable. The check goes through all views of the program, and fails to see this only where the
value of a global calls a global that is declared with it or later. -/
theorem calls_sound_iff {source : String} {names : Names} {p : Program}
    (h : (compile source names).outcome = .ok p) :
    p.visits.map Visit.view = p.views ∧
      ∀ x ∈ p.visits, ∀ r ∈ x.view.clause.roots, (x.Sound p r ↔ ¬x.view.isForwardCall p r) := by
  obtain ⟨hnames, htypes⟩ := Program.mistakes_eq_nil.1 (compile_eq_ok.1 h).2.2
  obtain ⟨⟨hd, -, -⟩, hcs⟩ := Program.checkNames_eq_nil.1 hnames
  replace hcs : ∀ c ∈ p.classes, Scope.duplicates .empty c.entries = [] := fun c hc => (hcs c hc).1
  have hplain := plain_of_compile h
  have hnamed := named_of_compile h
  refine ⟨view_visits, fun x hx r hr =>
    ⟨fun hs hf => Visit.not_sound_of_isForwardCall hd hf hs, fun hf => ?_⟩⟩
  have hv : x.view ∈ p.views := by
    rw [← view_visits]
    exact List.mem_map_of_mem hx
  have hres := Program.resolved hnames x.view hv
  have hclean := clean_visits htypes x hx r hr
  have hroot := hplain.views x.view hv r hr
  cases r with
  | construct cls args => trivial
  | link l =>
    have hn : ∀ c ∈ p.classes, c.name.value ≠ l.head.value := hplain.ne_className hroot
    cases l with
    | call n args span => exact Visit.sound_of_call hd hnamed hres hr hn hclean hf
    | name n =>
      obtain ⟨access, hm⟩ := hclean
      exact Visit.exists_variable hres hd hnamed hcs hn hm hr rfl
    | indexed n es span =>
      obtain ⟨access, hm⟩ := hclean
      rw [typeOfLink] at hm
      exact Visit.exists_variable hres hd hnamed hcs hn (bind_mistakes_eq_nil.1 hm).1 hr rfl

/-- A program that calls a function with `chan` for its `kun` parameter, and in a class a method. -/
def goodCalls : String :=
  "fwunc hawf-kun(k-kun) [[\nwetuwn k / 2~\n]]\ngwobaw n-kun = hawf(9)~\n" ++
    "cwass Cat(age-chan) [[\nspent-kun = hawf(age)~\nfwunc left-kun() [[\n" ++
    "wetuwn 9 - spent~\n]]\nfwunc worth-kun() [[\nwetuwn left() + hawf(1)~\n]]\n]]\n" ++
    "fwunc mainuwu-san() [[\npwint(n)~\n]]\n"

theorem goodCalls_sound : ∃ p, (compile goodCalls .empty).outcome = .ok p ∧
    (p.visits.flatMap fun x => x.view.clause.roots).length = 8 ∧
    ∀ x ∈ p.visits, ∀ r ∈ x.view.clause.roots, x.Sound p r := by
  have hs : goodCalls.toList = _ := toList_append_of_eq (toList_append_of_eq (toList_append_of_eq
    (toList_of_eq rfl) (toList_of_eq rfl)) (toList_of_eq rfl)) (toList_of_eq rfl)
  obtain ⟨p, hp, ht⟩ := exists_compiled goodCalls .empty
    (fun p => (p.visits.flatMap fun x => x.view.clause.roots).length == 8 &&
      p.visits.all fun x => x.view.clause.roots.all fun r => !x.view.isForwardCall p r)
    hs (by decide +kernel)
  rw [Bool.and_eq_true, beq_iff_eq, List.all_eq_true] at ht
  refine ⟨p, hp, ht.1, fun x hx r hr => ((calls_sound_iff hp).2 x hx r hr).2 ?_⟩
  have hn := List.all_eq_true.1 (ht.2 x hx) r hr
  rw [Bool.not_eq_true'] at hn
  exact Bool.not_eq_true _ ▸ hn

/-- A program that calls the variable `b` in the value of `a`, which is declared before `b`. -/
def laterGlobal : String :=
  "gwobaw a-chan = b()~\ngwobaw b-chan = 1~\nfwunc mainuwu-san() [[\n]]\n"

theorem laterGlobal_called : ∃ p, (compile laterGlobal .empty).outcome = .ok p ∧
    ∃ x ∈ p.visits, ∃ r ∈ x.view.clause.roots, ¬x.Sound p r := by
  obtain ⟨p, hp, ht⟩ := exists_compiled laterGlobal .empty
    (fun p => p.visits.any fun x => x.view.clause.roots.any (x.view.isForwardCall p))
    (toList_of_eq rfl) (by decide +kernel)
  obtain ⟨x, hx, hr⟩ := List.any_eq_true.1 ht
  obtain ⟨r, hr, hf⟩ := List.any_eq_true.1 hr
  have hnames := (Program.mistakes_eq_nil.1 (compile_eq_ok.1 hp).2.2).1
  have hd := (Program.checkNames_eq_nil.1 hnames).1.1
  exact ⟨p, hp, x, hx, r, hr, Visit.not_sound_of_isForwardCall hd hf⟩

end Uwu
