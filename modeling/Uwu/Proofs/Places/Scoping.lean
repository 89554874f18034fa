import Uwu.Proofs.Places.Spans
import Uwu.Proofs.Scope.Meanings

/-! The mistakes in the names of a program point to spans of the program, to those of declarations
of the same name too. What holds of all spans of the program therefore holds of theirs. -/

namespace Uwu

/-- The places of the diagnostics are of the kind `G`. -/
def Marks (G : Span → Prop) (ds : List Diagnostic) : Prop :=
  ∀ d ∈ ds, ∀ x ∈ d.spans, G x

variable {G : Span → Prop}

theorem marks_nil : Marks G [] :=
  List.forall_mem_nil _

theorem marks_append {ds es : List Diagnostic} : Marks G (ds ++ es) ↔ Marks G ds ∧ Marks G es :=
  List.forall_mem_append

theorem marks_flatMap {α : Type} {as : List α} {mistakes : α → List Diagnostic} :
    Marks G (as.flatMap mistakes) ↔ ∀ a ∈ as, Marks G (mistakes a) :=
  List.forall_mem_flatMap

/-- A cause that points to no second place is marked where it is seen. -/
theorem marks_singleton {cause : Cause} {x : Span} (hc : cause.sites = []) (h : G x) :
    Marks G [⟨cause, x⟩] := by
  rw [Marks, List.forall_mem_singleton, Diagnostic.spans, hc]
  exact List.forall_mem_singleton.2 h

namespace Scope

/-! ### Scopes -/

/-- Whatever is bound is bound at such a place. -/
def Sited (G : Span → Prop) (s : Scope) : Prop :=
  ∀ name b, s.get? name = some b → G b.site

theorem sited_empty : Sited G .empty := by
  intro name b h
  cases h

theorem Sited.declareAll {s : Scope} {es : List Entry} (hs : s.Sited G)
    (hes : ∀ e ∈ es, G e.name.span) : (s.declareAll es).Sited G := by
  intro name b h
  rw [get?_declareAll, Option.or_eq_some_iff] at h
  rcases h with h | ⟨-, h⟩
  · exact hs name b h
  · obtain ⟨e, he, rfl⟩ := Option.map_eq_some_iff.1 h
    exact hes e (List.mem_of_find?_eq_some he)

theorem Sited.declare {s : Scope} {e : Entry} (hs : s.Sited G) (he : G e.name.span) :
    (s.declare e).Sited G :=
  hs.declareAll (List.forall_mem_singleton.2 he)

variable {outer : Option Scope} {s : Scope}

theorem marks_unresolved {rs : List Reference} (h : ∀ r ∈ rs, G r.name.span) :
    Marks G (s.unresolved outer rs) := by
  intro d hd
  obtain ⟨r, hr, hmistake⟩ := List.mem_filterMap.1 hd
  unfold unresolved? at hmistake
  dsimp only at hmistake
  split at hmistake
  next => cases hmistake
  next =>
    cases hmistake
    exact List.forall_mem_singleton.2 (h r hr)

/-- A duplicate points to both declarations. -/
theorem marks_duplicate {e : Entry} (hs : s.Sited G) (he : G e.name.span) :
    Marks G (s.duplicate e) := by
  unfold duplicate
  split
  next => exact marks_nil
  next first hfirst =>
    rw [Marks, List.forall_mem_singleton]
    exact List.forall_mem_cons.2 ⟨he, List.forall_mem_singleton.2 (hs _ first hfirst)⟩

theorem marks_duplicates {es : List Entry} (hs : s.Sited G) (hes : ∀ e ∈ es, G e.name.span) :
    Marks G (s.duplicates es) := by
  induction es generalizing s with
  | nil => exact marks_nil
  | cons e es ih =>
    obtain ⟨he, hes⟩ := List.forall_mem_cons.1 hes
    exact marks_append.2 ⟨marks_duplicate hs he, ih (hs.declare he) hes⟩

end Scope

open Scope

/-! ### Clauses -/

theorem DataType.references_spans {x : Span} (t : DataType) (h : G x) :
    ∀ r ∈ t.references x, G r.name.span := by
  unfold references
  split
  next => exact List.forall_mem_singleton.2 h
  next => exact List.forall_mem_nil _

section Roots

theorem Expr.roots_spans {e : Expr} (h : ∀ x ∈ e.spans, G x) : ∀ r ∈ e.roots, G r.site :=
  fun _ hr => h _ (e.roots_sublist.subset (List.mem_map_of_mem hr))

theorem exprRoots_spans {es : List Expr} (h : ∀ x ∈ exprSpans es, G x) :
    ∀ r ∈ exprRoots es, G r.site :=
  fun _ hr => h _ ((exprRoots_sublist es).subset (List.mem_map_of_mem hr))

theorem Place.roots_spans {p : Place} (h : ∀ x ∈ p.spans, G x) : ∀ r ∈ p.roots, G r.site :=
  fun _ hr => h _ (p.roots_sublist.subset (List.mem_map_of_mem hr))

theorem optionalRoots_spans {value : Option Expr}
    (h : ∀ x ∈ (value.map Expr.spans).getD [], G x) :
    ∀ r ∈ (value.map Expr.roots).getD [], G r.site := by
  cases value with
  | none => exact List.forall_mem_nil _
  | some e => exact e.roots_spans h

theorem Declaration.roots_spans {d : Declaration} (h : ∀ x ∈ d.spans, G x) :
    ∀ r ∈ d.roots, G r.site :=
  optionalRoots_spans (List.forall_mem_cons.1 (List.forall_mem_cons.1 h).2).2

theorem Assignment.roots_spans {a : Assignment} (h : ∀ x ∈ a.spans, G x) :
    ∀ r ∈ a.roots, G r.site := by
  simp only [spans, List.forall_mem_cons, List.forall_mem_append] at h
  exact List.forall_mem_append.2 ⟨Place.roots_spans h.2.2.1, Expr.roots_spans h.2.2.2⟩

theorem LoopUpdate.roots_spans {u : LoopUpdate} (h : ∀ x ∈ u.spans, G x) :
    ∀ r ∈ u.roots, G r.site := by
  cases u with
  | assign a => exact a.roots_spans h
  | postfixed target op s =>
    simp only [spans, List.forall_mem_cons] at h
    exact target.roots_spans h.2.2

theorem Clause.roots_spans {c : Clause} (h : ∀ x ∈ c.spans, G x) : ∀ r ∈ c.roots, G r.site := by
  cases c with
  | declare d => exact d.roots_spans h
  | assign a => exact a.roots_spans h
  | evaluate e => exact e.roots_spans h
  | print args => exact exprRoots_spans h
  | start s =>
    cases s with
    | declare d => exact d.roots_spans h
    | assign a => exact a.roots_spans h
  | update u => exact u.roots_spans h
  | leave value s => exact optionalRoots_spans (List.forall_mem_cons.1 h).2
  | stop | blockEnd => exact List.forall_mem_nil _

end Roots

theorem Clause.declarations_spans {c : Clause} (h : ∀ x ∈ c.spans, G x) :
    ∀ d ∈ c.declarations, G d.name.span := by
  cases c with
  | declare d => exact List.forall_mem_singleton.2 (List.forall_mem_cons.1 h).1
  | start s => exact LoopStart.declarations_spans h
  | _ => exact List.forall_mem_nil _

/-- Declarations, functions and classes carry the spans of their names. -/
theorem names_spans {α : Type} {as : List α} {spans : α → List Span} {name : α → Name}
    (hname : ∀ a, (name a).span ∈ spans a) (h : ∀ x ∈ as.flatMap spans, G x) :
    ∀ a ∈ as, G (name a).span := by
  rw [List.forall_mem_flatMap] at h
  exact fun a ha => h a ha _ (hname a)

theorem paramNames_spans {ps : List Param} :
    (∀ x ∈ ps.flatMap Param.spans, G x) → ∀ p ∈ ps, G p.name.span :=
  names_spans fun _ => List.mem_cons_self

theorem declarationNames_spans {ds : List Declaration} :
    (∀ x ∈ ds.flatMap Declaration.spans, G x) → ∀ d ∈ ds, G d.name.span :=
  names_spans fun _ => List.mem_cons_self

theorem functionNames_spans {fs : List Function} :
    (∀ x ∈ fs.flatMap Function.spans, G x) → ∀ f ∈ fs, G f.name.span :=
  names_spans fun _ => List.mem_cons_self

/-! ### Bodies -/

section Bodies

variable {outer : Option Scope} {s : Scope}

theorem Clause.marks_resolve {c : Clause} (hc : ∀ x ∈ c.spans, G x) (hs : s.Sited G) :
    Marks G (c.resolve outer s) := by
  rw [Clause.resolve_eq]
  have hdeclarations := c.declarations_spans hc
  refine marks_append.2 ⟨marks_unresolved ?_, marks_duplicates hs ?_⟩
  · refine List.forall_mem_append.2 ⟨List.forall_mem_map.2 (c.roots_spans hc), ?_⟩
    rw [List.forall_mem_flatMap]
    intro d hd
    rw [← DataType.references_eq]
    exact d.type.references_spans (hdeclarations d hd)
  · exact List.forall_mem_map.2 hdeclarations

theorem Point.marks_resolve {pt : Point} (hpt : ∀ x ∈ pt.spans, G x) (hs : s.Sited G) :
    Marks G (pt.resolve outer s) := by
  obtain ⟨hbefore, hclause⟩ := List.forall_mem_append.1 hpt
  refine Clause.marks_resolve hclause (hs.declareAll ?_)
  exact List.forall_mem_map.2 (List.forall_mem_map.1 hbefore)

theorem Block.marks_resolve {b : Block} (hb : ∀ x ∈ b.spans, G x) (hs : s.Sited G) :
    Marks G (b.resolve outer s) := by
  rw [Block.resolve_eq, marks_flatMap]
  exact fun pt hpt => Point.marks_resolve (b.points_spans hb pt hpt) hs

theorem marks_resolveParams {ps : List Param} (hps : ∀ x ∈ ps.flatMap Param.spans, G x)
    (hs : s.Sited G) : Marks G (resolveParams outer ps s) := by
  induction ps generalizing s with
  | nil => exact marks_nil
  | cons p ps ih =>
    obtain ⟨hp, hps⟩ := List.forall_mem_append.1 hps
    have hname : G p.name.span := hp _ List.mem_cons_self
    have hspan : G p.span := hp _ (List.mem_cons_of_mem _ List.mem_cons_self)
    rw [resolveParams]
    refine marks_append.2 ⟨marks_append.2 ⟨?_, marks_duplicate hs hname⟩, ih hps (hs.declare hname)⟩
    exact marks_unresolved (p.type.references_spans hspan)

theorem Function.marks_resolve {f : Function} (hf : ∀ x ∈ f.spans, G x) (hs : s.Sited G) :
    Marks G (f.resolve outer s) := by
  simp only [Function.spans, List.forall_mem_cons, List.forall_mem_append] at hf
  obtain ⟨hname, -, hps, hbody⟩ := hf
  refine marks_append.2 ⟨marks_append.2 ⟨?_, marks_resolveParams hps hs⟩, ?_⟩
  · exact marks_unresolved (f.returnType.references_spans hname)
  · exact Block.marks_resolve hbody
      (hs.declareAll (List.forall_mem_map.2 (paramNames_spans hps)))

theorem marks_values {ds : List Declaration} (h : ∀ x ∈ ds.flatMap Declaration.spans, G x) :
    Marks G (s.unresolved outer (ds.flatMap Declaration.valueReferences)) := by
  rw [List.forall_mem_flatMap] at h
  refine marks_unresolved ?_
  rw [List.forall_mem_flatMap]
  intro d hd
  rw [d.valueReferences_eq]
  exact List.forall_mem_map.2 (d.roots_spans (h d hd))

end Bodies

/-! ### Classes and programs -/

theorem Class.entries_spans {c : Class} (h : ∀ x ∈ c.spans, G x) :
    ∀ e ∈ c.entries, G e.name.span := by
  simp only [Class.spans, List.forall_mem_cons, List.forall_mem_append] at h
  obtain ⟨-, -, ⟨hps, hds⟩, hfs⟩ := h
  intro e he
  rcases Class.mem_entries.1 he with ⟨p, hp, rfl⟩ | ⟨d, hd, rfl⟩ | ⟨f, hf, rfl⟩
  · exact paramNames_spans hps p hp
  · exact declarationNames_spans hds d hd
  · exact functionNames_spans hfs f hf

theorem Class.marks_resolve {c : Class} {globals : Scope} (h : ∀ x ∈ c.spans, G x) :
    Marks G (c.resolve globals) := by
  have hentries := c.entries_spans h
  have hscope : c.scope.Sited G := sited_empty.declareAll hentries
  simp only [Class.spans, List.forall_mem_cons, List.forall_mem_append] at h
  obtain ⟨-, -, ⟨-, hds⟩, hfs⟩ := h
  rw [List.forall_mem_flatMap] at hfs
  refine marks_append.2 ⟨marks_append.2 ⟨marks_duplicates sited_empty hentries,
    marks_values hds⟩, ?_⟩
  exact marks_flatMap.2 fun f hf => f.marks_resolve (hfs f hf) hscope

theorem Program.entries_spans {p : Program} (h : ∀ x ∈ p.spans, G x) :
    ∀ e ∈ p.entries, G e.name.span := by
  simp only [Program.spans, functionsAndEntry, List.flatMap_append, List.forall_mem_append] at h
  obtain ⟨⟨hds, hfs, -⟩, hcs⟩ := h
  intro e he
  rcases Program.mem_entries.1 he with ⟨d, hd, rfl⟩ | ⟨f, hf, rfl⟩ | ⟨c, hc, rfl⟩
  · exact declarationNames_spans hds d hd
  · exact functionNames_spans hfs f hf
  · exact names_spans (fun _ => List.mem_cons_self) hcs c hc

/-- The mistakes in the names of a program point to its spans. -/
theorem Program.marks_checkNames {p : Program} (h : ∀ x ∈ p.spans, G x) :
    Marks G p.checkNames := by
  have hentries := p.entries_spans h
  have hscope : p.scope.Sited G := sited_empty.declareAll hentries
  simp only [Program.spans, List.forall_mem_append, List.forall_mem_flatMap] at h
  obtain ⟨⟨hds, hfs⟩, hcs⟩ := h
  refine marks_append.2 ⟨marks_append.2 ⟨marks_append.2 ⟨marks_duplicates sited_empty hentries,
    marks_values (List.forall_mem_flatMap.2 hds)⟩, ?_⟩, ?_⟩
  · exact marks_flatMap.2 fun f hf => f.marks_resolve (hfs f hf) hscope
  · exact marks_flatMap.2 fun c hc => c.marks_resolve (hcs c hc)

end Uwu
