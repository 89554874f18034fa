import Mathlib.Data.List.Nodup
import Uwu.Proofs.Scope.Meanings
import Uwu.Proofs.Typing.Before
import Uwu.Proofs.Typing.Dependence

/-! The order of functions. The variables that hold a value are noted for the whole program, function
by function. Functions may be checked in any order where none changes whether a global holds a value
that another one reads. -/

namespace Uwu

open Typing

namespace Typing

/-! ### Checks that do the same -/

/-- At these sites the same variables hold a value. -/
def AgreeOn (sites : List Span) (valued valued' : List Span) : Prop :=
  ∀ site ∈ sites, (site ∈ valued' ↔ site ∈ valued)

/-- Where the variables at the sites `reads` hold a value alike, both checks find the same mistakes
and leave the variables at the sites `sets` alike. Others stay as they are. -/
structure Acts (c c' : Check Unit) (reads sets : List Span) : Prop where
  frame : ∀ s, ∀ site, site ∉ sets → (site ∈ (c s).2.valued ↔ site ∈ s.valued)
  frame' : ∀ s, ∀ site, site ∉ sets → (site ∈ (c' s).2.valued ↔ site ∈ s.valued)
  same : ∀ s s', AgreeOn reads s.valued s'.valued →
    AgreeOn sets (c s).2.valued (c' s').2.valued ∧
      ∃ ds, (c s).2.mistakes = s.mistakes ++ ds ∧ (c' s').2.mistakes = s'.mistakes ++ ds

section Acts

variable {c c' d d' : Check Unit} {reads more sets others : List Span}

theorem AgreeOn.mono {valued valued' : List Span} (h : AgreeOn reads valued valued')
    (hs : more ⊆ reads) : AgreeOn more valued valued' :=
  fun site hm => h site (hs hm)

theorem Acts.mono (h : Acts c c' reads sets) (hs : reads ⊆ more) : Acts c c' more sets :=
  ⟨h.frame, h.frame', fun s s' ha => h.same s s' (ha.mono hs)⟩

/-- After the checks the variables that agree before them still do. -/
theorem Acts.agree (h : Acts c c' reads sets) {s s' : State}
    (ha : AgreeOn reads s.valued s'.valued) :
    AgreeOn (reads ++ sets) (c s).2.valued (c' s').2.valued := by
  intro site hsite
  by_cases hs : site ∈ sets
  · exact (h.same s s' ha).1 site hs
  · rw [h.frame s site hs, h.frame' s' site hs]
    exact ha site ((List.mem_append.1 hsite).resolve_right hs)

theorem Acts.andThen (h : Acts c c' reads sets) (hd : Acts d d' (reads ++ sets) others) :
    Acts (c >>= fun _ => d) (c' >>= fun _ => d') reads (sets ++ others) where
  frame s site hs := by
    rw [List.mem_append, not_or] at hs
    exact (hd.frame _ site hs.2).trans (h.frame s site hs.1)
  frame' s site hs := by
    rw [List.mem_append, not_or] at hs
    exact (hd.frame' _ site hs.2).trans (h.frame' s site hs.1)
  same s s' ha := by
    have hagree := h.agree ha
    obtain ⟨-, ds, hm, hm'⟩ := h.same s s' ha
    obtain ⟨-, es, he, he'⟩ := hd.same _ _ hagree
    refine ⟨(hd.agree hagree).mono ?_, ds ++ es, ?_, ?_⟩
    · intro site hsite
      rcases List.mem_append.1 hsite with hs | hs
      · exact List.mem_append_left _ (List.mem_append_right _ hs)
      · exact List.mem_append_right _ hs
    · rw [← List.append_assoc, ← hm]
      exact he
    · rw [← List.append_assoc, ← hm']
      exact he'

theorem acts_pure : Acts (pure ()) (pure ()) reads [] where
  frame _ _ _ := Iff.rfl
  frame' _ _ _ := Iff.rfl
  same _ _ _ := ⟨List.forall_mem_nil _, [], (List.append_nil _).symm, (List.append_nil _).symm⟩

end Acts

end Typing

/-! ### Steps -/

namespace Step

/-- The sites of the variables of which a step reads the value. -/
def reads : Step → List Span
  | view v => v.clause.reads.filterMap fun n => (v.vars.get? n).map Variable.site
  | enter _ | leave _ => []

/-- The sites of the variables that a step gives a value or takes it from. -/
def sets : Step → List Span
  | enter ps => ps.map fun q => q.name.span
  | view v => (v.clause.sets v.vars).toList
  | leave _ => []

end Step

section Steps

variable {p p' : Program}

theorem mem_entered {ps : List Param} {valued : List Span} {site : Span} :
    site ∈ entered ps valued ↔ (site ∈ ps.map fun q => q.name.span) ∨ site ∈ valued := by
  induction ps generalizing valued with
  | nil => exact (or_iff_right List.not_mem_nil).symm
  | cons q ps ih =>
    have hq : site ∈ noted valued (some (q.name.span, true)) ↔
        site = q.name.span ∨ site ∈ valued := by
      by_cases hs : q.name.span = site
      · simp [mem_noted, hs]
      · simp [mem_noted, hs, Ne.symm hs]
    rw [entered, List.foldl_cons]
    refine ih.trans ?_
    rw [hq, List.map_cons, List.mem_cons]
    exact or_left_comm.trans or_assoc.symm

theorem enter_acts (ps : List Param) :
    Acts (enterParams ps) (enterParams ps) [] (ps.map fun q => q.name.span) where
  frame s site hs := by
    rw [enterParams_run]
    exact mem_entered.trans (or_iff_right hs)
  frame' s site hs := by
    rw [enterParams_run]
    exact mem_entered.trans (or_iff_right hs)
  same s s' _ := by
    rw [enterParams_run, enterParams_run]
    refine ⟨fun site hs => ?_, [], (List.append_nil _).symm, (List.append_nil _).symm⟩
    rw [mem_entered, mem_entered]
    exact iff_of_true (.inl hs) (.inl hs)

/-- A note changes nothing at other sites. -/
theorem mem_noted_of_ne {valued : List Span} {note : Option (Span × Bool)} {site : Span}
    (h : site ∉ (note.map Prod.fst).toList) : site ∈ noted valued note ↔ site ∈ valued := by
  cases note with
  | none => rfl
  | some b =>
    have hne : ∀ holds, some b ≠ some (site, holds) := by
      rintro holds ⟨⟩
      exact h List.mem_cons_self
    rw [mem_noted]
    exact ⟨fun hs => (hs.resolve_left (hne true)).1, fun hs => .inr ⟨hs, hne⟩⟩

/-- A note settles what holds at its site. -/
theorem mem_noted_iff {valued valued' : List Span} {note : Option (Span × Bool)} {site : Span}
    (h : site ∈ (note.map Prod.fst).toList) : site ∈ noted valued' note ↔ site ∈ noted valued note := by
  cases note with
  | none => cases h
  | some b =>
    obtain ⟨x, holds⟩ := b
    obtain rfl : site = x := List.mem_singleton.1 h
    cases holds <;> simp [mem_noted]

theorem view_acts (hs : (Signatures.ofProgram p).Same (Signatures.ofProgram p')) {v v' : View}
    (h : v.Beside v') (hc : v'.clause = v.clause) :
    Acts (v.check p) (v'.check p') (Step.view v).reads (Step.view v).sets where
  frame s site hn := by
    rw [(v.check_brings p s).2]
    refine mem_noted_of_ne ?_
    rw [Clause.site_note]
    exact hn
  frame' s site hn := by
    rw [(v'.check_brings p' s).2]
    refine mem_noted_of_ne ?_
    rw [Clause.site_note, hc]
    have hvars : ((p'.settingIn v'.cls).env v'.vars s).vars = v.vars := h.vars
    rw [hvars]
    exact hn
  same s s' ha := by
    obtain ⟨hm, hv⟩ := v.check_brings p s
    obtain ⟨hm', hv'⟩ := v'.check_brings p' s'
    have henv : ((p.settingIn v.cls).env v.vars s).AgreesOn v.clause.reads
        ((p'.settingIn v'.cls).env v'.vars s') := by
      refine ⟨hs, h.cls, h.vars, fun name hn x hx => ha x.site (List.mem_filterMap.2 ⟨name, hn, ?_⟩)⟩
      rw [show v.vars.get? name = some x from hx]
      rfl
    have heffect : v'.clause.effect v'.result ((p'.settingIn v'.cls).env v'.vars s') =
        v.clause.effect v.result ((p.settingIn v.cls).env v.vars s) := by
      rw [hc, h.result, Clause.effect_congr henv]
    rw [hv, hv', hm, hm', heffect]
    refine ⟨fun site hsite => mem_noted_iff ?_, _, rfl, rfl⟩
    rw [Clause.site_note]
    exact hsite

theorem leave_acts {f f' : Function} (hn : f'.name = f.name) (ht : f'.returnType = f.returnType)
    (hr : f'.body.returns = f.body.returns) : Acts (checkReturn f) (checkReturn f') [] [] where
  frame s site _ := by rw [checkReturn_run]
  frame' s site _ := by rw [checkReturn_run]
  same s s' _ := by
    have hmistakes : returnMistakes f' = returnMistakes f := by
      rw [returnMistakes, returnMistakes, hn, ht, hr]
    rw [checkReturn_run, checkReturn_run, hmistakes]
    exact ⟨List.forall_mem_nil _, _, rfl, rfl⟩

theorem Step.acts (hs : (Signatures.ofProgram p).Same (Signatures.ofProgram p')) {st st' : Step}
    (h : st.Like st') : Acts (st.run p) (st'.run p') st.reads st.sets := by
  cases h with
  | enter ps => exact enter_acts ps
  | view h hc => exact view_acts hs h hc
  | leave hn ht hr => exact leave_acts hn ht hr

/-! ### Runs -/

/-- What the steps read is at these sites, or is set by the steps before. -/
abbrev Covered : List Span → List Step → Prop :=
  Supplied Step.reads Step.sets

theorem steps_acts (hs : (Signatures.ofProgram p).Same (Signatures.ofProgram p'))
    {sts sts' : List Step} (h : List.Forall₂ Step.Like sts sts') {sites : List Span}
    (hc : Covered sites sts) : Acts (sts.forM (Step.run p)) (sts'.forM (Step.run p')) sites
      (sts.flatMap Step.sets) := by
  induction h generalizing sites with
  | nil => exact acts_pure
  | cons h _ ih => exact ((Step.acts hs h).mono hc.1).andThen (ih hc.2)

end Steps

/-! ### What is set before a step -/

/-- What a clause declares is set by it. -/
theorem Clause.declared_sets (c : Clause) (vars : Variables) :
    (c.declarations.map fun d => d.name.span) ⊆ (c.sets vars).toList := by
  cases c with
  | declare d => exact List.Subset.refl _
  | start st =>
    cases st with
    | declare d => exact List.Subset.refl _
    | assign a => exact List.nil_subset _
  | _ => exact List.nil_subset _

theorem Step.declares_sets (st : Step) : st.declares ⊆ st.sets := by
  cases st with
  | enter ps => exact List.Subset.refl _
  | view v => exact v.clause.declared_sets v.vars
  | leave f => exact List.Subset.refl _

/-- What steps read is a part of what they see. -/
theorem covered_of_supplied {sites : List Span} {sts : List Step}
    (h : Supplied (Step.sees Clause.reads) Step.declares sites sts) : Covered sites sts :=
  h.mono_gives Step.declares_sets

/-- The names that a body reads. -/
def Function.names (f : Function) : List String :=
  f.body.points.flatMap fun pt => pt.clause.reads

theorem Function.mem_names {f : Function} {pt : Point} (hpt : pt ∈ f.body.points) {n : String}
    (hn : n ∈ pt.clause.reads) : n ∈ f.names :=
  List.mem_flatMap.2 ⟨pt, hpt, hn⟩

/-! ### Functions on their own -/

/-- What is found where the first function is checked. -/
def Program.opened (p : Program) : State :=
  ((checkDeclarations ⟨Signatures.ofProgram p, none⟩ p.globals .empty) .initial).2

/-- The sites of the globals that hold a value there. -/
def Program.valuedGlobals (p : Program) : List Span :=
  p.opened.valued

/-- The program with its functions in another order, or with other ones. -/
def Program.withFunctions (p : Program) (fs : List Function) : Program :=
  { p with functions := fs }

namespace Function

variable (p : Program) (f : Function)

/-- The sites of the globals of which a function reads the value. -/
def reads : List Span :=
  f.names.filterMap fun n => (p.globalVars.get? n).map Variable.site

/-- The sites of all variables that a function declares or assigns. -/
def sets : List Span :=
  (Body.steps p ⟨f, none⟩).flatMap Step.sets

/-- The check of a function that comes right after the globals. -/
def alone : State :=
  ((checkFunction ⟨Signatures.ofProgram p, none⟩ p.globalVars f) ⟨p.valuedGlobals, [], []⟩).2

/-- The sites of the variables that hold a value then. -/
def leaves : List Span :=
  (f.alone p).valued

/-- `f` does not change whether a global holds a value that `g` reads. -/
def Keeps (g : Function) : Prop :=
  ∀ site ∈ g.reads p, site ∈ f.leaves p ↔ site ∈ p.valuedGlobals

/-- Both leave a global alike that both assign and the entry reads. -/
def LeavesLike (g : Function) : Prop :=
  ∀ site ∈ p.entry.reads p, site ∈ f.sets p → site ∈ g.sets p →
    (site ∈ f.leaves p ↔ site ∈ g.leaves p)

instance (g : Function) : Decidable (f.Keeps p g) := by
  unfold Keeps
  infer_instance

instance (g : Function) : Decidable (f.LeavesLike p g) := by
  unfold LeavesLike
  infer_instance

end Function

/-- No function interferes with another one over a global, nor both with the entry. -/
def Program.Orderless (p : Program) : Prop :=
  ∀ f ∈ p.functions, ∀ g ∈ p.functions, f.name.value ≠ g.name.value →
    f.Keeps p g ∧ f.LeavesLike p g

instance (p : Program) : Decidable p.Orderless := by
  unfold Program.Orderless
  infer_instance

section Functions

variable {p p' : Program}

theorem Function.mem_reads (f : Function) : ∀ n ∈ f.names, ∀ v,
    p.globalVars.get? n = some v → v.site ∈ f.reads p :=
  fun n hn v hget => List.mem_filterMap.2 ⟨n, hn, Option.map_eq_some_iff.2 ⟨v, hget, rfl⟩⟩

/-- Where the globals that a function reads hold a value as right after the globals, it does what it
does on its own. -/
theorem Function.acts (hs : (Signatures.ofProgram p).Same (Signatures.ofProgram p'))
    (hg : p'.globals = p.globals) (f : Function) :
    Acts ((Body.steps p ⟨f, none⟩).forM (Step.run p)) ((Body.steps p' ⟨f, none⟩).forM (Step.run p'))
      (f.reads p) (f.sets p) := by
  have hbeside : p.Beside p' none none := by
    refine ⟨?_, rfl⟩
    rw [Program.varsIn, Program.varsIn, Program.globalVars, Program.globalVars, hg]
  have hcovered : Covered (f.reads p) (Body.steps p ⟨f, none⟩) :=
    covered_of_supplied (supplied_body ⟨f, none⟩ fun pt hpt n hn v hget =>
      f.mem_reads n (mem_names hpt hn) v hget)
  exact steps_acts hs (Body.steps_like hbeside f) hcovered

theorem Function.alone_eq (p : Program) (f : Function) : f.alone p =
    (((Body.steps p ⟨f, none⟩).forM (Step.run p)) ⟨p.valuedGlobals, [], []⟩).2 := by
  rw [alone, ← Body.check_eq p ⟨f, none⟩]
  rfl

/-- A function as it is checked in a program with the same globals. -/
theorem Function.run_eq (hs : (Signatures.ofProgram p).Same (Signatures.ofProgram p'))
    (hg : p'.globals = p.globals) (f : Function) {s : State}
    (ha : AgreeOn (f.reads p) p.valuedGlobals s.valued) :
    let after := (((Body.steps p' ⟨f, none⟩).forM (Step.run p')) s).2
    after.mistakes = s.mistakes ++ (f.alone p).mistakes ∧
      ∀ site, site ∈ after.valued ↔ if site ∈ f.sets p then site ∈ f.leaves p else site ∈ s.valued := by
  have hacts := f.acts hs hg
  obtain ⟨hvalued, ds, hm, hm'⟩ := hacts.same ⟨p.valuedGlobals, [], []⟩ s ha
  have hds : (f.alone p).mistakes = ds := by
    rw [alone_eq, hm]
    rfl
  refine ⟨hds ▸ hm', fun site => ?_⟩
  split
  next hsite =>
    rw [leaves, alone_eq]
    exact hvalued site hsite
  next hsite => exact hacts.frame' s site hsite

theorem functionSteps_cons (f : Function) (fs : List Function) : functionSteps p none (f :: fs) =
    Body.steps p ⟨f, none⟩ ++ functionSteps p none fs := rfl

/-- Functions of which none changes what another one reads find what they find on their own. Where
all that set a variable leave it alike, so do they together. -/
theorem run_functions (hs : (Signatures.ofProgram p).Same (Signatures.ofProgram p'))
    (hg : p'.globals = p.globals) {fs : List Function}
    (hk : fs.Pairwise fun f g => f.Keeps p g) {s : State}
    (ha : ∀ f ∈ fs, AgreeOn (f.reads p) p.valuedGlobals s.valued) :
    let after := (((functionSteps p' none fs).forM (Step.run p')) s).2
    after.mistakes = s.mistakes ++ fs.flatMap (fun f => (f.alone p).mistakes) ∧
      ∀ site b, (∀ f ∈ fs, site ∈ f.sets p → (site ∈ f.leaves p ↔ b)) →
        (site ∈ after.valued ↔ if ∃ f ∈ fs, site ∈ f.sets p then b else site ∈ s.valued) := by
  induction fs generalizing s with
  | nil =>
    refine ⟨(List.append_nil _).symm, fun site b _ => ?_⟩
    rw [if_neg (by rintro ⟨f, hf, -⟩; cases hf)]
    rfl
  | cons f fs ih =>
    obtain ⟨hf, hfs⟩ := List.pairwise_cons.1 hk
    obtain ⟨haf, hafs⟩ := List.forall_mem_cons.1 ha
    obtain ⟨hm, hv⟩ := f.run_eq hs hg haf
    -- What the functions after `f` read is after `f` as it is right after the globals.
    have hagree : ∀ g ∈ fs, AgreeOn (g.reads p) p.valuedGlobals
        (((Body.steps p' ⟨f, none⟩).forM (Step.run p')) s).2.valued := by
      intro g hg site hsite
      rw [hv site]
      split
      next => exact hf g hg site hsite
      next => exact hafs g hg site hsite
    obtain ⟨hms, hvs⟩ := ih hfs hagree
    have hrun : (((functionSteps p' none (f :: fs)).forM (Step.run p')) s).2 =
        (((functionSteps p' none fs).forM (Step.run p'))
          (((Body.steps p' ⟨f, none⟩).forM (Step.run p')) s).2).2 := by
      rw [functionSteps_cons, List.forM_eq_forM, List.forM_append]
      rfl
    rw [hrun]
    refine ⟨?_, fun site b hb => ?_⟩
    · rw [hms, hm, List.append_assoc]
      rfl
    · obtain ⟨hbf, hbs⟩ := List.forall_mem_cons.1 hb
      rw [hvs site b hbs, hv site]
      by_cases hset : site ∈ f.sets p
      · by_cases hsets : ∃ g ∈ fs, site ∈ g.sets p
        · simp [hsets]
        · simp [hsets, hset, hbf hset]
      · simp [hset]

end Functions

/-! ### Signatures -/

namespace Typing.Signatures

theorem Same.refl (s : Signatures) : s.Same s :=
  ⟨fun _ => rfl, rfl, rfl⟩

/-- Classes add nothing to the functions, and do not look at them. -/
theorem same_addClass {s s' : Signatures} (h : s.Same s') (c : Class) :
    (s.addClass c).Same (s'.addClass c) := by
  refine ⟨fun name => ?_, ?_, ?_⟩
  · rw [functions_addClass, functions_addClass, h.functions]
  · simp only [addClass, foldl_addMember, h.classes]
  · simp only [addClass, foldl_addMember, h.memberTable]

theorem same_addClasses {s s' : Signatures} (h : s.Same s') (cs : List Class) :
    (cs.foldl addClass s).Same (cs.foldl addClass s') := by
  induction cs generalizing s s' with
  | nil => exact h
  | cons c cs ih => exact ih (same_addClass h c)

end Typing.Signatures

section Programs

variable {p : Program} {fs : List Function}

/-- Functions with different names may be declared in any order. -/
theorem same_ofProgram (hd : (p.functions.map fun f => f.name.value).Nodup)
    (hfs : p.functions.Perm fs) :
    (Signatures.ofProgram p).Same (Signatures.ofProgram (p.withFunctions fs)) := by
  refine Signatures.same_addClasses ⟨fun name => ?_, ?_, ?_⟩ p.classes
  · rw [Signatures.functions_addFunctions, Signatures.functions_addFunctions,
      Signatures.get?_foldl_addNew, Signatures.get?_foldl_addNew, find?_perm hfs hd]
    rfl
  · rw [Signatures.classes_addFunctions, Signatures.classes_addFunctions]
  · rw [Signatures.memberTable_addFunctions, Signatures.memberTable_addFunctions]

/-! ### Whole programs -/

/-- The checks that come after the functions. -/
def Program.closing (p : Program) : List Step :=
  functionSteps p none [p.entry] ++ classSteps p p.classes

theorem Program.opened_eq (p : Program) :
    p.opened = (((p.initialisers.map .view).forM (Step.run p)) .initial).2 := by
  rw [initialisers, ← checkDeclarations_eq]
  rfl

theorem Program.mistakes_run (p : Program) : p.checkTypes.mistakes =
    ((p.closing.forM (Step.run p))
      (((functionSteps p none p.functions).forM (Step.run p)) p.opened).2).2.mistakes := by
  have hsteps : p.steps = p.initialisers.map .view ++
      (functionSteps p none p.functions ++ p.closing) := by
    rw [closing, ← List.append_assoc (functionSteps p none p.functions), ← functionSteps_append]
    rfl
  rw [checkTypes, checkProgram_eq, hsteps, opened_eq]
  simp only [List.forM_eq_forM, List.forM_append]
  rfl

/-- What functions that do not interfere leave of what the entry reads. -/
theorem leavesLike_of_orderless (hd : (p.functions.map fun f => f.name.value).Nodup)
    (h : p.Orderless) {site : Span} (hs : site ∈ p.entry.reads p) :
    ∀ f ∈ p.functions, site ∈ f.sets p →
      (site ∈ f.leaves p ↔ ∃ g ∈ p.functions, site ∈ g.sets p ∧ site ∈ g.leaves p) := by
  intro f hf hset
  refine ⟨fun hl => ⟨f, hf, hset, hl⟩, ?_⟩
  rintro ⟨g, hg, hset', hl⟩
  by_cases hne : f.name.value = g.name.value
  · rw [List.inj_on_of_nodup_map hd hf hg hne]
    exact hl
  · exact ((h f hf g hg hne).2 site hs hset hset').2 hl

theorem pairwise_keeps (hd : (p.functions.map fun f => f.name.value).Nodup) (h : p.Orderless)
    (hfs : p.functions.Perm fs) : fs.Pairwise fun f g => f.Keeps p g := by
  have hnames := List.pairwise_map.1 ((hfs.map fun f => f.name.value).nodup_iff.1 hd)
  refine hnames.imp_of_mem fun hf hg hne => ?_
  exact (h _ (hfs.mem_iff.2 hf) _ (hfs.mem_iff.2 hg) hne).1

end Programs

section Orders

variable {p : Program} {fs : List Function}

theorem closing_acts
    (hs : (Signatures.ofProgram p).Same (Signatures.ofProgram (p.withFunctions fs))) :
    Acts (p.closing.forM (Step.run p))
      ((p.withFunctions fs).closing.forM (Step.run (p.withFunctions fs))) (p.entry.reads p)
      (p.closing.flatMap Step.sets) := by
  have hbeside : p.Beside (p.withFunctions fs) none none := ⟨rfl, rfl⟩
  have hentry : Covered (p.entry.reads p) (functionSteps p none [p.entry]) := by
    refine covered_of_supplied (supplied_functions _ fun f hf pt hpt n hn v hget => ?_)
    obtain rfl := List.mem_singleton.1 hf
    exact p.entry.mem_reads n (Function.mem_names hpt hn) v hget
  exact steps_acts hs (List.rel_append (functionSteps_like hbeside [p.entry])
    (classSteps_like p.classes)) (hentry.append (covered_of_supplied (supplied_classes p.classes)))

/-- The globals come out the same, whatever the order of the functions. -/
theorem opened_withFunctions
    (hs : (Signatures.ofProgram p).Same (Signatures.ofProgram (p.withFunctions fs))) :
    (p.withFunctions fs).opened.mistakes = p.opened.mistakes ∧
      ∀ site, site ∈ (p.withFunctions fs).opened.valued ↔ site ∈ p.valuedGlobals := by
  have hlike : List.Forall₂ Step.Like (p.initialisers.map .view)
      ((p.withFunctions fs).initialisers.map .view) := initialisers_like rfl _ _ _ _
  have hcovered : Covered [] (p.initialisers.map .view) :=
    covered_of_supplied (supplied_initialisers p.scope fun n v hget => nomatch hget)
  have hacts := steps_acts hs hlike hcovered
  obtain ⟨hvalued, ds, hm, hm'⟩ := hacts.same .initial .initial (List.forall_mem_nil _)
  rw [Program.valuedGlobals, Program.opened_eq, Program.opened_eq]
  refine ⟨hm'.trans hm.symm, fun site => ?_⟩
  by_cases hsite : site ∈ (p.initialisers.map Step.view).flatMap Step.sets
  · exact hvalued site hsite
  · exact (hacts.frame' _ site hsite).trans (hacts.frame _ site hsite).symm

end Orders

/-- Where names have no mistakes, and no function changes whether a global holds a value that another
function reads, nor leaves one otherwise than another function that the entry reads, the mistakes
are the same for every order of the functions. -/
theorem Program.mistakes_perm {p : Program} {fs : List Function} (hn : p.checkNames = [])
    (h : p.Orderless) (hfs : p.functions.Perm fs) :
    p.checkTypes.mistakes.Perm (p.withFunctions fs).checkTypes.mistakes := by
  have hd := Program.nodup_functionNames (Program.checkNames_eq_nil.1 hn).1.1
  have hs := same_ofProgram hd hfs
  obtain ⟨hm, hv⟩ := opened_withFunctions hs
  obtain ⟨hfm, hfv⟩ := run_functions (p := p) (.refl _) rfl (pairwise_keeps hd h (.refl _))
    (s := p.opened) fun f _ site _ => Iff.rfl
  obtain ⟨hfm', hfv'⟩ := run_functions hs rfl (pairwise_keeps hd h hfs)
    (s := (p.withFunctions fs).opened) fun f _ site _ => hv site
  have hentry : AgreeOn (p.entry.reads p)
      (((functionSteps p none p.functions).forM (Step.run p)) p.opened).2.valued
      (((functionSteps (p.withFunctions fs) none fs).forM (Step.run (p.withFunctions fs)))
        (p.withFunctions fs).opened).2.valued := by
    intro site hsite
    -- Both runs leave the site as any one function does that sets it, or as the globals do.
    have hleaves := leavesLike_of_orderless hd h hsite
    have hleaves' := fun f hf => hleaves f (hfs.mem_iff.2 hf)
    refine (hfv' site _ hleaves').trans (Iff.trans ?_ (hfv site _ hleaves).symm)
    simp only [hfs.mem_iff, hv site, valuedGlobals]
  obtain ⟨-, ds, hc, hc'⟩ := (closing_acts hs).same _ _ hentry
  have hfunctions : (p.withFunctions fs).functions = fs := rfl
  rw [mistakes_run, mistakes_run, hfunctions, hc, hc', hfm, hfm', hm]
  exact ((hfs.flatMap_right _).append_left _).append_right _

/-- A program in which `first` gives `u` its value and `second` keeps that of `g`, both with another
mistake. -/
def apartGlobals : String :=
  "gwobaw g-chan = 1~\ngwobaw u-chan~\nfwunc first-san() [[\nu = g~\na-chan = \"s\" - 1~\n]]\n" ++
    "fwunc second-san() [[\ng = g + 1~\nb-chan = g - \"s\"~\n]]\n" ++
    "fwunc mainuwu-san() [[\npwint(u)~\n]]\n"

theorem apartGlobals_reversed : ∃ p,
    Program.ofTokens (Lexed.ofLines (splitLines apartGlobals) .empty).tokens
      (Lexed.ofLines (splitLines apartGlobals) .empty).names = .ok p ∧
    p.checkNames = [] ∧ p.Orderless ∧ p.checkTypes.mistakes.length = 2 ∧
    p.checkTypes.mistakes.Perm (p.withFunctions p.functions.reverse).checkTypes.mistakes := by
  have hs : apartGlobals.toList = _ := toList_append_of_eq
    (toList_append_of_eq (toList_of_eq rfl) (toList_of_eq rfl)) (toList_of_eq rfl)
  obtain ⟨p, hp, ht⟩ := exists_parsed apartGlobals .empty (fun p =>
    p.checkNames.isEmpty && decide p.Orderless && p.checkTypes.mistakes.length == 2) hs
    (by decide +kernel)
  simp only [Bool.and_eq_true, List.isEmpty_iff, decide_eq_true_eq, beq_iff_eq] at ht
  obtain ⟨⟨hn, ho⟩, hl⟩ := ht
  exact ⟨p, hp, hn, ho, hl,
    Program.mistakes_perm hn ho (List.reverse_perm p.functions).symm⟩

/-- A program in which `set` gives the global `g` a value before `use` passes it on. -/
def setThenUse : String :=
  "gwobaw g-chan~\nfwunc h-san(n-chan) [[\n]]\nfwunc set-san() [[\ng = 1~\n]]\n" ++
    "fwunc use-san() [[\nh(g)~\n]]\nfwunc mainuwu-san() [[\n]]\n"

/-- With its functions the other way round there is a mistake. -/
theorem setThenUse_ordered : ∃ p, (compile setThenUse .empty).outcome = .ok p ∧
    p.checkNames = [] ∧ ∃ fs, p.functions.Perm fs ∧
      ¬p.checkTypes.mistakes.Perm (p.withFunctions fs).checkTypes.mistakes := by
  have hs : setThenUse.toList = _ := toList_append_of_eq (toList_of_eq rfl) (toList_of_eq rfl)
  obtain ⟨p, hp, ht⟩ := exists_compiled setThenUse .empty
    (fun p => (p.withFunctions p.functions.reverse).checkTypes.mistakes.length == 1) hs
    (by decide +kernel)
  obtain ⟨hn, hm⟩ := Program.mistakes_eq_nil.1 (compile_eq_ok.1 hp).2.2
  refine ⟨p, hp, hn, p.functions.reverse, (List.reverse_perm p.functions).symm, fun h => ?_⟩
  rw [beq_iff_eq, ← h.length_eq, hm] at ht
  cases ht

end Uwu
