import Mathlib.Data.List.Dedup
import Uwu.Proofs.Places.Containment
import Uwu.Proofs.Scope.Sites

/-! The global table. Globals, functions and classes are declared in the order of their names in the
text. Of the entries with one name the table keeps the first, and each of the others is reported
with it. Items of an accepted program lie apart, so no two names begin at one place, and the order
in which the entries are collected does not matter. -/

namespace Uwu

/-! ### First entries -/

namespace Entry

def start (e : Entry) : Position :=
  e.name.span.start

/-- None of the entries with its name starts before it. -/
def IsFirst (es : List Entry) (e : Entry) : Prop :=
  ∀ f ∈ es, f.name.value = e.name.value → e.start ≤ f.start

instance (es : List Entry) (e : Entry) : Decidable (e.IsFirst es) :=
  inferInstanceAs (Decidable (∀ f ∈ es, f.name.value = e.name.value → e.start ≤ f.start))

/-- The report of an entry whose name is taken by the first one with it. -/
def Reported (es : List Entry) (e : Entry) (d : Diagnostic) : Prop :=
  ∃ f ∈ es, f.IsFirst es ∧ f.name.value = e.name.value ∧
    d = ⟨.duplicate e.name.value f.name.span f.role e.role, e.name.span⟩

end Entry

/-- The table holds one row for every name, bound to the first entry with it, and the reports are
those of all other entries, in the order in which these start. -/
structure KeepsFirst (es : List Entry) (table : Scope) (reports : List Diagnostic) : Prop where
  rows : (table.toList.map Prod.fst).Perm (es.map fun e => e.name.value).dedup
  first : ∀ e ∈ es, ∃ f ∈ es, f.IsFirst es ∧ f.name.value = e.name.value ∧
    table.get? e.name.value = some f.binding
  reported : ∃ others, others.Perm (es.filter fun e => ¬ e.IsFirst es) ∧
    (others.map Entry.start).Pairwise (· < ·) ∧ List.Forall₂ (Entry.Reported es) others reports
  count : reports.length = es.length - (es.map fun e => e.name.value).dedup.length

theorem Entry.isFirst_perm {es fs : List Entry} (h : es.Perm fs) (e : Entry) :
    e.IsFirst es ↔ e.IsFirst fs := by
  simp only [IsFirst, h.mem_iff]

theorem KeepsFirst.perm {es fs : List Entry} {table : Scope} {reports : List Diagnostic}
    (h : KeepsFirst es table reports) (hperm : es.Perm fs) : KeepsFirst fs table reports := by
  have hnames : (es.map fun e => e.name.value).dedup.Perm (fs.map fun e => e.name.value).dedup :=
    (hperm.map _).dedup
  constructor
  · exact h.rows.trans hnames
  · intro e he
    obtain ⟨f, hf, hfirst, hname, hget⟩ := h.first e (hperm.mem_iff.2 he)
    exact ⟨f, hperm.mem_iff.1 hf, (Entry.isFirst_perm hperm f).1 hfirst, hname, hget⟩
  · obtain ⟨others, hothers, hincreasing, hreports⟩ := h.reported
    refine ⟨others, ?_, hincreasing, hreports.imp ?_⟩
    · simp only [Entry.isFirst_perm hperm] at hothers
      exact hothers.trans (hperm.filter _)
    · rintro e d ⟨f, hf, hfirst, hd⟩
      exact ⟨f, hperm.mem_iff.1 hf, (Entry.isFirst_perm hperm f).1 hfirst, hd⟩
  · rw [h.count, hperm.length_eq, hnames.length_eq]

/-! ### Entries in order -/

namespace Table

variable {κ ν : Type} [BEq κ] [LawfulBEq κ]

theorem contains_iff_mem {t : Table κ ν} {k : κ} :
    t.contains k ↔ k ∈ t.toList.map Prod.fst := by
  obtain ⟨rows⟩ := t
  induction rows with
  | nil => simp [contains, get?]
  | cons row rows ih =>
    obtain ⟨k', v⟩ := row
    rw [contains, get?] at ih ⊢
    rw [List.lookup_cons, List.map_cons, List.mem_cons, ← ih]
    by_cases hk : k = k'
    · simp [hk]
    · simp [hk, beq_eq_false_iff_ne.2 hk]

theorem nodup_addNew {t : Table κ ν} (h : (t.toList.map Prod.fst).Nodup) (k : κ) (v : ν) :
    ((t.addNew k v).toList.map Prod.fst).Nodup := by
  rw [addNew]
  split
  next => exact h
  next hk =>
    rw [List.map_append, List.map_singleton, List.nodup_append]
    rw [contains_iff_mem] at hk
    refine ⟨h, List.nodup_singleton k, ?_⟩
    rintro k' hk' _ hmem rfl
    obtain rfl := List.mem_singleton.1 hmem
    exact hk hk'

end Table

namespace Scope

theorem nodup_declareAll {s : Scope} (h : (s.toList.map Prod.fst).Nodup) (es : List Entry) :
    ((s.declareAll es).toList.map Prod.fst).Nodup := by
  induction es generalizing s with
  | nil => exact h
  | cons e es ih => exact ih (Table.nodup_addNew h _ _)

/-- The table has one row for every name. -/
theorem rows_ofEntries (es : List Entry) :
    ((ofEntries es).toList.map Prod.fst).Perm (es.map fun e => e.name.value).dedup := by
  have hrows : ((ofEntries es).toList.map Prod.fst).Nodup :=
    nodup_declareAll (s := .empty) List.nodup_nil es
  refine (List.perm_ext_iff_of_nodup hrows (List.nodup_dedup _)).2 ?_
  intro name
  rw [← Table.contains_iff_mem, contains_ofEntries, List.mem_dedup, List.mem_map]

/-- A name is new and adds a row, or it is taken and reported. -/
theorem length_duplicate (s : Scope) (e : Entry) :
    (s.duplicate e).length + (s.declare e).toList.length = s.toList.length + 1 := by
  rw [duplicate, declare, Table.addNew, Table.contains]
  cases s.get? e.name.value with
  | none => simp
  | some b => simp [Nat.add_comm]

theorem length_duplicates (s : Scope) (es : List Entry) :
    (s.duplicates es).length + (s.declareAll es).toList.length = s.toList.length + es.length := by
  induction es generalizing s with
  | nil => exact Nat.zero_add _
  | cons e es ih =>
    have hone := length_duplicate s e
    have hrest := ih (s.declare e)
    rw [duplicates, declareAll_cons, List.length_append, List.length_cons]
    omega

end Scope

section Ordered

variable {es visible : List Entry} {name : String} {e f : Entry}

/-- Where entries are in order, the one that is found starts first. -/
theorem isFirst_of_entryOf? (hes : (es.map Entry.start).Pairwise (· < ·))
    (h : entryOf? es name = some f) : f ∈ es ∧ f.IsFirst es ∧ f.name.value = name := by
  obtain ⟨hname, before, behind, rfl, hbefore⟩ := List.find?_eq_some_iff_append.1 h
  rw [beq_iff_eq] at hname
  refine ⟨List.mem_append_right _ List.mem_cons_self, ?_, hname⟩
  intro g hg hgname
  rcases List.mem_append.1 hg with hg | hg
  · have hne := hbefore g hg
    simp [hgname, hname] at hne
  · rcases List.mem_cons.1 hg with rfl | hg
    · simp [Position.le_def]
    · rw [List.pairwise_map] at hes
      have hbehind := (List.pairwise_cons.1 (List.pairwise_append.1 hes).2.1).1
      exact Position.le_of_lt (hbehind g hg)

theorem isFirst_of_entryOf?_eq_none (hes : ((visible ++ e :: es).map Entry.start).Pairwise (· < ·))
    (h : entryOf? visible e.name.value = none) : e.IsFirst (visible ++ e :: es) := by
  have hfind : entryOf? (visible ++ e :: es) e.name.value = some e := by
    rw [entryOf?, List.find?_append]
    rw [entryOf?] at h
    rw [h]
    simp
  exact (isFirst_of_entryOf? hes hfind).2.1

theorem not_isFirst_of_entryOf? (hes : ((visible ++ e :: es).map Entry.start).Pairwise (· < ·))
    (h : entryOf? visible e.name.value = some f) : ¬ e.IsFirst (visible ++ e :: es) := by
  have hfind : visible.find? (fun g => g.name.value == e.name.value) = some f := h
  have hf : f ∈ visible := List.mem_of_find?_eq_some hfind
  have hname : f.name.value = e.name.value := by simpa using List.find?_some hfind
  rw [List.pairwise_map] at hes
  have hlt := (List.pairwise_append.1 hes).2.2 f hf e List.mem_cons_self
  intro hfirst
  have hle := hfirst f (List.mem_append_left _ hf) hname
  rw [Position.lt_def] at hlt
  rw [Position.le_def] at hle
  omega

theorem reported_duplicates (hes : ((visible ++ es).map Entry.start).Pairwise (· < ·)) :
    List.Forall₂ (Entry.Reported (visible ++ es)) (es.filter fun e => ¬ e.IsFirst (visible ++ es))
      ((Scope.ofEntries visible).duplicates es) := by
  induction es generalizing visible with
  | nil => exact .nil
  | cons e es ih =>
    have hrest := @ih (visible ++ [e]) (by rwa [List.append_assoc])
    rw [List.append_assoc, List.singleton_append] at hrest
    rw [Scope.duplicates, ofEntries_declare, Scope.duplicate, Scope.get?_ofEntries]
    cases hfind : entryOf? visible e.name.value with
    | none =>
      have hfirst := isFirst_of_entryOf?_eq_none hes hfind
      rw [List.filter_cons_of_neg (by simpa using hfirst)]
      exact hrest
    | some f =>
      have hnot := not_isFirst_of_entryOf? hes hfind
      rw [List.filter_cons_of_pos (by simpa using hnot)]
      have hall : entryOf? (visible ++ e :: es) e.name.value = some f := by
        rw [entryOf?] at hfind ⊢
        rw [List.find?_append, hfind, Option.some_or]
      obtain ⟨hf, hfirst, hname⟩ := isFirst_of_entryOf? hes hall
      exact .cons ⟨f, hf, hfirst, hname, rfl⟩ hrest

/-- Entries that are declared in their order are told apart. -/
theorem keepsFirst_ofEntries (hes : (es.map Entry.start).Pairwise (· < ·)) :
    KeepsFirst es (.ofEntries es) (Scope.duplicates .empty es) := by
  have hreported := @reported_duplicates es [] hes
  refine ⟨Scope.rows_ofEntries es, ?_, ⟨_, .refl _, ?_, hreported⟩, ?_⟩
  · intro e he
    have hsome : (entryOf? es e.name.value).isSome := by
      rw [entryOf?, List.find?_isSome]
      exact ⟨e, he, beq_self_eq_true _⟩
    obtain ⟨f, hf⟩ := Option.isSome_iff_exists.1 hsome
    obtain ⟨hmem, hfirst, hname⟩ := isFirst_of_entryOf? hes hf
    exact ⟨f, hmem, hfirst, hname, by rw [Scope.get?_ofEntries, hf, Option.map_some]⟩
  · exact hes.sublist (List.filter_sublist.map _)
  · have hlength := Scope.length_duplicates .empty es
    have hrows := (Scope.rows_ofEntries es).length_eq
    rw [List.length_map] at hrows
    change _ + (Scope.ofEntries es).toList.length = 0 + _ at hlength
    omega

end Ordered

/-! ### The entries of a program -/

namespace Grammar

/-- The name of an item. -/
def Item.name : Item → Name
  | global d => d.name
  | function f | entry f => f.name
  | cls c => c.name

theorem Item.name_mem_outline (i : Item) : Outline.leaf i.name.span ∈ i.outline.children := by
  cases i <;> exact List.mem_cons_self

/-- The name of an item lies inside of it. -/
theorem Item.name_inside {i : Item} (h : i.outline.Nested) :
    i.outline.span.start ≤ i.name.span.start ∧ i.name.span.start ≤ i.outline.span.stop := by
  have hin := h.inside i.name_mem_outline
  have hordered := (h.of_children i.name_mem_outline).ordered
  exact ⟨hin.1, Position.le_trans hordered hin.2⟩

end Grammar

open Grammar

namespace Program

variable {p : Program}

/-- Items that lie apart have their names in order. -/
theorem names_increasing (h : ∃ us, Row us p.outlines) :
    (p.items.map fun i => i.name.span.start).Pairwise (· < ·) := by
  obtain ⟨us, hrow⟩ := h
  have hapart : p.items.Pairwise fun i j => i.outline.span.stop < j.outline.span.start :=
    List.pairwise_map.1 hrow.apart
  refine List.pairwise_map.2 (hapart.imp_of_mem ?_)
  intro i j hi hj hlt
  have hiname := Item.name_inside (hrow.nested _ (List.mem_map_of_mem hi))
  have hjname := Item.name_inside (hrow.nested _ (List.mem_map_of_mem hj))
  exact Position.lt_of_lt_of_le (Position.lt_of_le_of_lt hiname.2 hlt) hjname.1

theorem nodup_declared (h : ∃ us, Row us p.outlines) : (p.declared.map Entry.start).Nodup := by
  have hnames : (p.items.map fun i => i.name.span.start).Nodup :=
    (names_increasing h).imp fun hlt heq => by
      rw [heq, Position.lt_def] at hlt
      omega
  have hperm := (sortBy_perm (fun i j : Item => i.start ≤ j.start) (p.globals.map .global ++
    (p.functions.map .function ++ (p.classes.map .cls ++ [.entry p.entry])))).map
      fun i => i.name.span.start
  have hall := hperm.nodup_iff.1 hnames
  simp only [List.map_append, List.map_map, List.map_cons, List.map_nil, ← List.append_assoc] at hall
  simp only [declared, List.map_append, List.map_map]
  exact (List.nodup_append.1 hall).1

end Program

/-- Entries in the order in which their names start. -/
def Entry.inOrder (es : List Entry) : List Entry :=
  sortBy (fun a b => a.start ≤ b.start) es

/-- The table that entries make and what is reported, in whatever order they are collected. -/
def Entry.tabulate (es : List Entry) : Scope × List Diagnostic :=
  (Scope.declareAll .empty (inOrder es), Scope.duplicates .empty (inOrder es))

theorem Entry.inOrder_increasing {es : List Entry} (h : (es.map start).Nodup) :
    ((inOrder es).map start).Pairwise (· < ·) := by
  have hperm := (sortBy_perm (fun a b : Entry => a.start ≤ b.start) es).map start
  have hnodup : (inOrder es).Pairwise fun a b => a.start ≠ b.start :=
    List.pairwise_map.1 (hperm.nodup_iff.2 h)
  refine List.pairwise_map.2 (((Position.pairwise_sortBy start es).and hnodup).imp ?_)
  rintro a b ⟨hle, hne⟩
  exact Position.lt_of_le_of_ne hle hne

/-- Where no two names start at one place, the order of the entries is no matter. -/
theorem Entry.inOrder_perm {es fs : List Entry} (h : (es.map start).Nodup) (hperm : fs.Perm es) :
    inOrder fs = inOrder es :=
  sortBy_eq_of_increasing (hperm.trans (sortBy_perm _ es).symm) (inOrder_increasing h)

namespace Program

/-- The global table of an accepted program keeps the first entry of every name and reports the
others, before any other mistake in a name. Neither the order of the globals, functions and classes
nor that of these lists matters. -/
theorem globalTable_keepsFirst {lines : List String} {names known : Names} {p : Program}
    (h : Program.ofTokens (Lexed.ofLines lines names).tokens known = .ok p) :
    KeepsFirst p.declared p.scope (Scope.duplicates .empty p.entries) ∧
      Scope.duplicates .empty p.entries <+: p.checkNames ∧
      (∀ es, es.Perm p.declared →
        Entry.tabulate es = (p.scope, Scope.duplicates .empty p.entries)) ∧
      ∀ q : Program, q.globals.Perm p.globals → q.functions.Perm p.functions →
        q.classes.Perm p.classes → q.scope = p.scope ∧
          Scope.duplicates .empty q.entries = Scope.duplicates .empty p.entries := by
  have hnodup := nodup_declared (row_ofTokens h)
  have hentries (q : Program) (hq : q.declared.Perm p.declared) : q.entries = p.entries :=
    Entry.inOrder_perm hnodup hq
  refine ⟨?_, ?_, ?_, ?_⟩
  · have hordered := keepsFirst_ofEntries (Entry.inOrder_increasing hnodup)
    exact hordered.perm (sortBy_perm _ p.declared)
  · rw [checkNames, List.append_assoc, List.append_assoc]
    exact List.prefix_append _ _
  · intro es hes
    rw [Entry.tabulate, Entry.inOrder_perm hnodup hes]
    rfl
  · intro q hglobals hfunctions hclasses
    have hq : q.declared.Perm p.declared :=
      ((hglobals.map _).append (hfunctions.map _)).append (hclasses.map _)
    rw [scope, hentries q hq]
    exact ⟨rfl, rfl⟩

end Program

/-- A name of two globals and a function, and a class that is declared twice. -/
def clashes : String :=
  "gwobaw n-chan = 1~\ncwass Cat() [[\n]]\nfwunc n-san() [[\n]]\ngwobaw n-kun = 2.5~\n" ++
    "cwass Cat() [[\n]]\nfwunc mainuwu-san() [[\n]]\n"

theorem clashes_keepsFirst : ∃ p, Program.ofTokens (Lexed.ofLines (splitLines clashes) .empty).tokens
      (Lexed.ofLines (splitLines clashes) .empty).names = .ok p ∧
    (p.scope.size = 2 ∧ (Scope.duplicates .empty p.entries).map Diagnostic.span =
      [⟨⟨3, 6⟩, ⟨3, 6⟩⟩, ⟨⟨5, 7⟩, ⟨5, 7⟩⟩, ⟨⟨6, 6⟩, ⟨6, 8⟩⟩]) ∧
    (KeepsFirst p.declared p.scope (Scope.duplicates .empty p.entries) ∧
      Scope.duplicates .empty p.entries <+: p.checkNames ∧
      (∀ es, es.Perm p.declared →
        Entry.tabulate es = (p.scope, Scope.duplicates .empty p.entries)) ∧
      ∀ q : Program, q.globals.Perm p.globals → q.functions.Perm p.functions →
        q.classes.Perm p.classes → q.scope = p.scope ∧
          Scope.duplicates .empty q.entries = Scope.duplicates .empty p.entries) := by
  have hs : clashes.toList = _ := toList_append_of_eq (toList_of_eq rfl) (toList_of_eq rfl)
  obtain ⟨p, hp, ht⟩ := exists_parsed clashes .empty (fun p => p.scope.size == 2 &&
    (Scope.duplicates .empty p.entries).map Diagnostic.span ==
      [⟨⟨3, 6⟩, ⟨3, 6⟩⟩, ⟨⟨5, 7⟩, ⟨5, 7⟩⟩, ⟨⟨6, 6⟩, ⟨6, 8⟩⟩]) hs (by decide +kernel)
  rw [Bool.and_eq_true, beq_iff_eq, beq_iff_eq] at ht
  exact ⟨p, hp, ht, Program.globalTable_keepsFirst hp⟩

end Uwu
