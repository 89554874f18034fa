import Uwu.Proofs.Grammar.Onsets
import Uwu.Proofs.Stages
import Uwu.Proofs.Typing.Before
import Uwu.Proofs.Typing.Effects

/-! Histories of variables. Which variables hold a value is noted for the whole program, while their
tables come and go with blocks. So a variable that is read has its type or not by what happened to
it last, in the order of the check and through all branches and loops. -/

namespace Uwu

open Typing

/-! ### Events -/

/-- What happens to a variable, known by its site. -/
structure Event where
  site : Span
  /-- From here on the variable holds a value. -/
  holds : Bool

/-- The path is a name alone. -/
def Place.isName : Place → Bool
  | link (.name _) => true
  | _ => false

namespace Setter

/-- A variable is declared, or assigned as a whole: it holds a value after it if the value is given
without a mistake. Mistakes in the target of an assignment do not count. -/
def event? (env : Env) : Setter → Option Event
  | declare d =>
    some ⟨d.name.span, d.value.any fun e => (valueFor d.type e env).mistakes.isEmpty⟩
  | assign a =>
    let target := (typeOfPlace env .write a.target).value
    (assignedVariable? env.vars a.target).map fun v =>
      ⟨v.site, (valueTo target a env).mistakes.isEmpty⟩

/-- A variable is declared, or assigned as a whole. -/
def isWhole : Setter → Bool
  | declare _ => true
  | assign a => a.target.isName

end Setter

/-- What the check of a step does to variables; parameters hold a value. -/
def Step.events (p : Program) (s : State) : Step → List Event
  | enter ps => ps.map fun q => ⟨q.name.span, true⟩
  | view v => (v.setter?.bind (Setter.event? ((p.settingIn v.cls).env v.vars s))).toList
  | leave _ => []

/-- What happens to variables in steps that begin in a state. -/
def history (p : Program) : List Step → State → List Event
  | [], _ => []
  | st :: sts, s => st.events p s ++ history p sts (st.run p s).2

/-- Whether a variable holds a value by what happened to it last, if anything did. -/
def latest? (site : Span) (events : List Event) : Option Bool :=
  ((events.filter fun e => e.site == site).getLast?).map Event.holds

/-! ### One step -/

theorem latest?_nil (site : Span) : latest? site [] = none := rfl

theorem latest?_append (site : Span) (es fs : List Event) :
    latest? site (es ++ fs) = (latest? site fs).or (latest? site es) := by
  rw [latest?, latest?, latest?, List.filter_append, List.getLast?_append, Option.map_or]

theorem isSome_latest? {site : Span} {es : List Event} :
    (latest? site es).isSome ↔ site ∈ es.map Event.site := by
  rw [latest?, Option.isSome_map, List.getLast?_isSome, ne_eq, List.filter_eq_nil_iff, List.mem_map]
  simp

/-- The variables with a value are those with one before, but for what the events say. -/
def Notes (valued valued' : List Span) (events : List Event) : Prop :=
  ∀ site, valued'.contains site = (latest? site events).getD (valued.contains site)

theorem Notes.refl (valued : List Span) : Notes valued valued [] :=
  fun _ => rfl

theorem Notes.trans {valued valued' valued'' : List Span} {es fs : List Event}
    (h : Notes valued valued' es) (h' : Notes valued' valued'' fs) :
    Notes valued valued'' (es ++ fs) := by
  intro site
  rw [h' site, h site, latest?_append]
  cases latest? site fs <;> rfl

def Event.ofNote (note : Span × Bool) : Event :=
  ⟨note.1, note.2⟩

theorem notes_noted (valued : List Span) (note : Option (Span × Bool)) :
    Notes valued (noted valued note) (note.map Event.ofNote).toList := by
  intro site
  rw [Bool.eq_iff_iff, List.contains_iff_mem, mem_noted]
  cases note with
  | none => simp [latest?_nil]
  | some b =>
    obtain ⟨x, holds⟩ := b
    by_cases hx : x = site
    · cases holds <;> simp [latest?, Event.ofNote, hx]
    · simp [latest?, Event.ofNote, hx]

/-! ### Steps -/

theorem Clause.event?_eq (c : Clause) (result : Result) (env : Env) :
    c.setter?.bind (Setter.event? env) = (c.effect result env).note.map Event.ofNote := by
  have hdeclare (d : Declaration) :
      Setter.event? env (.declare d) = (declarationEffect d env).note.map Event.ofNote := by
    rw [declarationEffect, Setter.event?]
    cases d.value <;> rfl
  have hassign (a : Assignment) :
      Setter.event? env (.assign a) = (assignmentEffect a env).note.map Event.ofNote := by
    rw [assignmentEffect, Setter.event?, Option.map_map]
    rfl
  cases c with
  | declare d => exact hdeclare d
  | assign a => exact hassign a
  | start st =>
    cases st with
    | declare d => exact hdeclare (loopVariable d)
    | assign a => exact hassign a
  | update u =>
    cases u with
    | assign a => exact hassign a
    | postfixed => rfl
  | evaluate | print | leave | stop | blockEnd => rfl

section Steps

variable (p : Program)

theorem notes_enter (ps : List Param) (valued : List Span) :
    Notes valued (entered ps valued) (ps.map fun q => ⟨q.name.span, true⟩) := by
  induction ps generalizing valued with
  | nil => exact .refl valued
  | cons q ps ih => exact (notes_noted valued (some (q.name.span, true))).trans (ih _)

theorem Step.run_notes (st : Step) (s : State) :
    Notes s.valued (st.run p s).2.valued (st.events p s) := by
  cases st with
  | enter ps =>
    change Notes s.valued (enterParams ps s).2.valued _
    rw [enterParams_run]
    exact notes_enter ps s.valued
  | view v =>
    change Notes s.valued (v.check p s).2.valued (v.clause.setter?.bind _).toList
    rw [(v.check_brings p s).2, Clause.event?_eq v.clause v.result]
    exact notes_noted _ _
  | leave f =>
    change Notes s.valued (checkReturn f s).2.valued []
    rw [checkReturn_run]
    exact .refl _

/-- After steps a variable holds a value by the latest event in them. -/
theorem steps_notes (sts : List Step) (s : State) :
    Notes s.valued ((sts.forM (Step.run p)) s).2.valued (history p sts s) := by
  induction sts generalizing s with
  | nil => exact .refl _
  | cons st sts ih => exact (st.run_notes p s).trans (ih (st.run p s).2)

/-- What a step declares has an event in it. -/
theorem Step.declares_subset_events (st : Step) (s : State) :
    st.declares ⊆ (st.events p s).map Event.site := by
  cases st with
  | enter ps =>
    rw [declares, events, List.map_map]
    exact List.Subset.refl _
  | view v =>
    rw [declares, events, Clause.sites_declarations, View.setter?]
    rcases v.clause.setter? with _ | d | a
    · exact List.nil_subset _
    · exact List.Subset.refl _
    · exact List.nil_subset _
  | leave f => exact List.nil_subset _

theorem declares_subset_history (sts : List Step) (s : State) :
    sts.flatMap Step.declares ⊆ (history p sts s).map Event.site := by
  induction sts generalizing s with
  | nil => exact List.nil_subset _
  | cons st sts ih =>
    rw [List.flatMap_cons, history, List.map_append]
    exact List.append_subset.2 ⟨List.subset_append_of_subset_left _ (st.declares_subset_events p s),
      List.subset_append_of_subset_right _ (ih _)⟩

theorem run_append (before after : List Step) (s : State) :
    (((before ++ after).forM (Step.run p)) s).2 =
      ((after.forM (Step.run p)) ((before.forM (Step.run p)) s).2).2 := by
  rw [List.forM_eq_forM, List.forM_append]
  rfl

end Steps

/-! ### Reads -/

theorem assignedVariable?_of_not_isName (vars : Variables) {target : Place}
    (h : target.isName = false) : assignedVariable? vars target = none := by
  cases target with
  | link l =>
    cases l with
    | name n => cases h
    | indexed | call => rfl
  | construct | member => rfl

/-- What neither declares a variable nor assigns to one as a whole is no event. -/
theorem event?_of_not_isWhole {env : Env} {x : Setter} (h : x.isWhole = false) :
    x.event? env = none := by
  cases x with
  | declare d => cases h
  | assign a =>
    rw [Setter.event?, assignedVariable?_of_not_isName env.vars h]
    rfl

theorem View.check_keeps (p : Program) {v : View} (h : v.setter?.any Setter.isWhole = false)
    (s : State) : (v.check p s).2.valued = s.valued := by
  rw [(v.check_brings p s).2]
  have hnone : (v.clause.effect v.result ((p.settingIn v.cls).env v.vars s)).note = none := by
    rw [← Option.map_eq_none_iff (f := Event.ofNote), ← Clause.event?_eq]
    rw [View.setter?] at h
    cases hx : v.clause.setter? with
    | none => rfl
    | some x =>
      rw [hx] at h
      exact event?_of_not_isWhole h
  rw [hnone]
  rfl

/-- At every step of the check of a parsed program, a variable that is read has its declared type
if it holds a value by what happened to it last, and else its type is not known. What neither
declares a variable nor assigns to one as a whole changes no variable. -/
theorem reads_by_history {p : Program} {lines : List String} {names known : Names}
    (h : Program.ofTokens (Lexed.ofLines lines names).tokens known = .ok p) :
    p.variableSites.Nodup ∧ ∀ before v after, p.steps = before ++ .view v :: after →
      let s := ((before.forM (Step.run p)) .initial).2
      let env := (p.settingIn v.cls).env v.vars s
      p.checkTypes = ((after.forM (Step.run p)) (v.check p s).2).2 ∧
        (v.check p s).2.mistakes = s.mistakes ++ (v.clause.effect v.result env).mistakes ∧
        (∀ (n : Name) x, v.vars.get? n.value = some x → x.site ∈ p.variableSites ∧
          ∃ holds, latest? x.site (history p before .initial) = some holds ∧
            typeOf env (.place (.link (.name n))) = pure (if holds then x.type else .san)) ∧
        (v.setter?.any Setter.isWhole = false → (v.check p s).2.valued = s.valued) := by
  refine ⟨Program.nodup_variableSites h, fun before v after hsteps => ?_⟩
  intro s env
  refine ⟨?_, (v.check_brings p s).1, fun n x hx => ?_, fun hw => v.check_keeps p hw s⟩
  · rw [Program.checkTypes, checkProgram_eq, hsteps]
    exact run_append p before (.view v :: after) .initial
  · have hseen : x.site ∈ before.flatMap Step.declares := by
      have hsupplied : Supplied (Step.sees fun _ => [n.value]) Step.declares [] p.steps :=
        supplied_steps p
      rw [hsteps] at hsupplied
      have hneeds := hsupplied.needs_subset
      rw [List.nil_append] at hneeds
      refine hneeds (List.mem_filterMap.2 ⟨n.value, List.mem_singleton_self _, ?_⟩)
      rw [hx]
      rfl
    have hdeclared : x.site ∈ p.variableSites := by
      rw [← declares_steps, hsteps, List.flatMap_append]
      exact List.mem_append_left _ hseen
    obtain ⟨holds, hlatest⟩ := Option.isSome_iff_exists.1
      (isSome_latest?.2 (declares_subset_history p before .initial hseen))
    refine ⟨hdeclared, holds, hlatest, ?_⟩
    have hvalued : env.valued.contains x.site = holds :=
      (steps_notes p before .initial x.site).trans (by rw [hlatest]; rfl)
    have hread : typeOf env (.place (.link (.name n))) = readName env n := rfl
    have hdecl : env.declared? n = some x := hx
    rw [hread, readName, hdecl]
    dsimp only
    rw [hvalued]

/-- The type and the history of a variable at the `i`-th step, if that is a view. -/
def Program.held? (p : Program) (i : Nat) (name : String) : Option (DataType × Option Bool) := do
  let v ← p.steps[i]?.bind Step.view?
  let x ← v.vars.get? name
  return (x.type, latest? x.site (history p (p.steps.take i) .initial))

theorem Program.exists_of_held? {p : Program} {i : Nat} {name : String} {t : DataType} {b : Bool}
    (h : p.held? i name = some (t, some b)) :
    ∃ v x, p.steps[i]? = some (.view v) ∧
      p.steps = p.steps.take i ++ .view v :: p.steps.drop (i + 1) ∧ v.vars.get? name = some x ∧
      x.type = t ∧ latest? x.site (history p (p.steps.take i) .initial) = some b := by
  obtain ⟨v, hv, h⟩ := Option.bind_eq_some_iff.1 h
  obtain ⟨x, hx, h⟩ := Option.bind_eq_some_iff.1 h
  obtain ⟨st, hst, hv⟩ := Option.bind_eq_some_iff.1 hv
  obtain ⟨htype, hlatest⟩ := Prod.mk.inj (Option.some.inj h)
  cases st with
  | view u =>
    cases hv
    obtain ⟨hi, hview⟩ := List.getElem?_eq_some_iff.1 hst
    refine ⟨v, x, hst, ?_, hx, htype, hlatest⟩
    rw [← hview, ← List.drop_eq_getElem_cons hi, List.take_append_drop]
  | enter | leave => cases hv

/-- A program that gives `a` a value in a branch, and takes it back by a mistake. -/
def givenAndTaken : String :=
  "fwunc f-san(n-chan) [[\na-chan~\niwf (fax) [[\na = n~\n]]\npwint(a)~\na = \"s\"~\n" ++
    "pwint(a)~\n]]\nfwunc mainuwu-san() [[\n]]\n"

/-- Before the mistake `a` has its type where it is printed, and behind it none. -/
theorem givenAndTaken_reads :
    let a : Expr := .place (.link (.name ⟨"a", .point ⟨0, 0⟩⟩))
    ∃ p, Program.ofTokens (Lexed.ofLines (splitLines givenAndTaken) .empty).tokens
      (Lexed.ofLines (splitLines givenAndTaken) .empty).names = .ok p ∧ p.checkNames = [] ∧
    (∃ v, p.steps[5]? = some (.view v) ∧
      typeOf ((p.settingIn v.cls).env v.vars (((p.steps.take 5).forM (Step.run p)) .initial).2) a =
        pure .chan) ∧
    ∃ v, p.steps[7]? = some (.view v) ∧
      typeOf ((p.settingIn v.cls).env v.vars (((p.steps.take 7).forM (Step.run p)) .initial).2) a =
        pure .san := by
  intro a
  have hs : givenAndTaken.toList = _ := toList_append_of_eq (toList_of_eq rfl) (toList_of_eq rfl)
  obtain ⟨p, hp, ht⟩ := exists_parsed givenAndTaken .empty (fun p => p.checkNames.isEmpty &&
    (p.held? 5 "a" == some (.chan, some true) && p.held? 7 "a" == some (.chan, some false))) hs
    (by decide +kernel)
  simp only [Bool.and_eq_true, List.isEmpty_iff, beq_iff_eq] at ht
  obtain ⟨hn, hfive, hseven⟩ := ht
  have hread {i : Nat} {b : Bool} (h : p.held? i "a" = some (.chan, some b)) :
      ∃ v, p.steps[i]? = some (.view v) ∧
        typeOf ((p.settingIn v.cls).env v.vars
            (((p.steps.take i).forM (Step.run p)) .initial).2) a =
          pure (if b then .chan else .san) := by
    obtain ⟨v, x, hv, hsteps, hx, htype, hlatest⟩ := Program.exists_of_held? h
    obtain ⟨-, holds, hholds, hread⟩ :=
      ((reads_by_history hp).2 _ v _ hsteps).2.2.1 ⟨"a", .point ⟨0, 0⟩⟩ x hx
    cases hholds.symm.trans hlatest
    exact ⟨v, hv, htype ▸ hread⟩
  exact ⟨p, hp, hn, hread hfive, hread hseven⟩

end Uwu
