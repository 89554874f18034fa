import Uwu.Proofs.Renumbering.Readings

/-! What numbers say about names, whatever has happened to the tables before. The two containers of
a table stay in step and answer as one list of the names would. Numbers and names belong together
one to one, a number keeps its name until the tables are emptied, and the tokens of a document can
be told apart by the numbers that they carry. -/

namespace Uwu

/-! ### One table -/

namespace Interner

/-- What is done to the containers of a table. -/
inductive Op where
  | intern (name : String)
  | clear

def Op.run (t : Interner) : Op → Interner
  | intern name => (t.intern name).1
  | clear => t.clear

/-- The containers that operations make of empty ones. -/
def after (ops : List Op) : Interner :=
  ops.foldl Op.run .empty

/-- What the operation does to a single list of the names. -/
def Op.list (ns : List String) : Op → List String
  | intern name => if name ∈ ns then ns else ns ++ [name]
  | clear => []

/-- The list that operations make of an empty one. -/
def listed (ops : List Op) : List String :=
  ops.foldl Op.list []

/-- Operations have made the containers what they are. They tell the same, and no more than the list
on which these operations are done: numbers and names belong together, the numbers are those below
the size, and each is the place of its name in the list. -/
structure Numbered (t : Interner) : Prop where
  made : ∃ ops, t = after ops ∧ t.names = listed ops
  inverse : ∀ name id, t.lookup.get? name = some id ↔ t.names[id]? = some name
  numbers : ∀ id, (∃ name, t.lookup.get? name = some id) ↔ id < t.names.length
  size : t.lookup.size = t.names.length
  place : ∀ name, t.lookup.get? name = t.names.idxOf? name

variable {t : Interner}

/-! #### Steps and runs -/

theorem InStep.run (h : t.InStep) (op : Op) : (op.run t).InStep := by
  cases op with
  | intern name => exact h.intern name
  | clear => exact .clear t

/-- In step, an operation does to the names what it does to a single list. -/
theorem InStep.names_run (h : t.InStep) (op : Op) : (op.run t).names = op.list t.names := by
  cases op with
  | intern name =>
    have hmem : (t.get? name).isSome ↔ name ∈ t.names := by rw [h.get?_eq, List.isSome_idxOf?]
    rw [Op.run, Op.list]
    cases hid : t.get? name with
    | some id =>
      rw [hid] at hmem
      rw [intern_of_some hid, if_pos (hmem.1 rfl)]
    | none =>
      rw [hid] at hmem
      rw [intern_of_none hid, if_neg fun hn => Bool.false_ne_true (hmem.2 hn)]
  | clear => rfl

/-- Operations leave the containers in step, and the names are those of the list. -/
theorem InStep.foldl (h : t.InStep) (ops : List Op) :
    (ops.foldl Op.run t).InStep ∧ (ops.foldl Op.run t).names = ops.foldl Op.list t.names := by
  induction ops generalizing t with
  | nil => exact ⟨h, rfl⟩
  | cons op ops ih =>
    rw [List.foldl_cons, List.foldl_cons, ← h.names_run op]
    exact ih (h.run op)

theorem exists_after_run (h : ∃ ops, t = after ops) (op : Op) : ∃ ops, op.run t = after ops := by
  obtain ⟨ops, rfl⟩ := h
  refine ⟨ops ++ [op], ?_⟩
  rw [after, after, List.foldl_append]
  rfl

/-! #### Numbers -/

theorem InStep.get?_eq_some_iff (h : t.InStep) {name : String} {id : Nat} :
    t.get? name = some id ↔ t.names[id]? = some name := by
  -- As tables such containers answer one way already.
  have hname {name : String} {id : Nat} (hid : t.get? name = some id) : t.names[id]? = some name :=
    NameTable.name?_of_id? (t := ⟨t, h⟩) hid
  refine ⟨hname, fun hid => ?_⟩
  have hsome : (t.get? name).isSome := by
    rw [h.get?_eq, List.isSome_idxOf?]
    exact List.mem_of_getElem? hid
  obtain ⟨id', hid'⟩ := Option.isSome_iff_exists.1 hsome
  obtain ⟨hlt, -⟩ := List.getElem?_eq_some_iff.1 hid
  rw [hid', (List.getElem?_inj hlt h.distinct).1 (hid.trans (hname hid').symm)]

theorem numbered_after (ops : List Op) : (after ops).Numbered := by
  have hstep : (after ops).InStep := (inStep_empty.foldl ops).1
  have hnames : (after ops).names = listed ops := (inStep_empty.foldl ops).2
  refine ⟨⟨ops, rfl, hnames⟩, fun _ _ => hstep.get?_eq_some_iff, fun id => ?_, ?_, hstep.get?_eq⟩
  · constructor
    · rintro ⟨name, hid⟩
      exact (List.getElem?_eq_some_iff.1 (hstep.get?_eq_some_iff.1 hid)).1
    · intro hlt
      exact ⟨_, hstep.get?_eq_some_iff.2 (List.getElem?_eq_getElem hlt)⟩
  · rw [Table.size, hstep.rows, List.length_zipIdx]

end Interner

theorem NameTable.name?_of_le {t u : NameTable} {name : String} {id : Nat} (h : t ≤ u)
    (hid : t.name? id = some name) : u.name? id = some name := by
  obtain ⟨ns, hns⟩ := h
  have hlt : id < t.toList.length := (List.getElem?_eq_some_iff.1 hid).1
  have hleft : u.toList[id]? = t.toList[id]? := by rw [← hns, List.getElem?_append_left hlt]
  exact hleft.trans hid

/-! ### Events -/

namespace Names

/-- What can happen to the tables: a name is noted, lines are read, or all names are forgotten. -/
inductive Event where
  | identifier (name : String)
  | cls (name : String)
  | reading (lines : List String)
  | reset

/-- The tables after an event. -/
def Event.run (n : Names) : Event → Names
  | identifier name => (n.withIdentifier name).1
  | cls name => (n.withClass name).1
  | reading lines => (Lexed.ofLines lines n).names
  | reset => n.reset

/-- The numbers that an event gives out, as kinds that carry them, each with its name. -/
def Event.given (n : Names) : Event → List (Kind × String)
  | identifier name => [(.identifier (n.withIdentifier name).2, name)]
  | cls name => [(.classId (n.withClass name).2, name)]
  | reading lines =>
    ((Lexed.ofLines lines n).tokens.filter fun t => t.kind.isName).map fun t => (t.kind, t.lexeme)
  | reset => []

/-- The tables after events, from a fresh start. -/
def after (es : List Event) : Names :=
  es.foldl Event.run .empty

/-- The name that the number of a kind stands for. -/
def resolve? (n : Names) : Kind → Option String
  | .identifier id => n.identifiers.name? id
  | .classId id => n.classes.name? id
  | _ => none

/-- The containers of both tables are what operations on them make of empty ones. -/
structure Made (n : Names) : Prop where
  identifiers : ∃ ops, n.identifiers.toInterner = .after ops
  classes : ∃ ops, n.classes.toInterner = .after ops

variable {m n : Names}

theorem made_empty : Made .empty :=
  ⟨⟨[], rfl⟩, ⟨[], rfl⟩⟩

theorem Made.withIdentifier (h : n.Made) (name : String) : (n.withIdentifier name).1.Made :=
  ⟨Interner.exists_after_run h.identifiers (.intern name), h.classes⟩

theorem Made.withClass (h : n.Made) (name : String) : (n.withClass name).1.Made :=
  ⟨h.identifiers, Interner.exists_after_run h.classes (.intern name)⟩

theorem Made.reset (h : n.Made) : n.reset.Made :=
  ⟨Interner.exists_after_run h.identifiers .clear, Interner.exists_after_run h.classes .clear⟩

theorem Made.nameKind (h : n.Made) (declared : Bool) (word : String) :
    (Lexeme.nameKind n declared word).1.Made := by
  rw [Lexeme.nameKind]
  split
  next => exact h.withClass word
  next =>
    split
    next => exact h
    next => exact h.withIdentifier word

/-- A reading notes one name after the other. -/
theorem Made.reading (h : n.Made) (lines : List String) : (Lexed.ofLines lines n).names.Made :=
  Lexeme.names_pieces (P := Made) _ (fun _ _ _ _ _ _ h => h.nameKind _ _) 0 [] (.initial n) h

theorem Made.run (h : n.Made) (e : Event) : (e.run n).Made := by
  cases e with
  | identifier name => exact h.withIdentifier name
  | cls name => exact h.withClass name
  | reading lines => exact h.reading lines
  | reset => exact h.reset

theorem made_foldl (h : n.Made) (es : List Event) : (es.foldl Event.run n).Made := by
  induction es generalizing n with
  | nil => exact h
  | cons e es ih => exact ih (h.run e)

/-! ### Numbers stay -/

theorem le_run (n : Names) {e : Event} (h : e ≠ .reset) : n ≤ e.run n := by
  cases e with
  | identifier name => exact n.le_withIdentifier name
  | cls name => exact n.le_withClass name
  | reading lines => exact Lexed.names_le_ofLines lines n
  | reset => exact absurd rfl h

/-- Until they are emptied the tables grow. -/
theorem le_foldl (n : Names) {es : List Event} (h : .reset ∉ es) : n ≤ es.foldl Event.run n := by
  induction es generalizing n with
  | nil => exact le_rfl
  | cons e es ih =>
    obtain ⟨he, hes⟩ := not_or.1 (mt List.mem_cons.2 h)
    exact (n.le_run (Ne.symm he)).trans (ih _ hes)

theorem resolve?_of_le (h : m ≤ n) {k : Kind} {name : String} (hk : m.resolve? k = some name) :
    n.resolve? k = some name := by
  cases k with
  | identifier id => exact NameTable.name?_of_le h.1 hk
  | classId id => exact NameTable.name?_of_le h.2 hk
  | _ => cases hk

theorem resolve?_of_fits {k : Kind} {lexeme : String} (h : k.Fits n lexeme) (hk : k.isName) :
    n.resolve? k = some lexeme := by
  cases k with
  | identifier id => exact NameTable.name?_of_id? h.1
  | classId id => exact NameTable.name?_of_id? h.1
  | _ => cases hk

/-- What an event gives out is known after it. -/
theorem resolve?_of_given {e : Event} {k : Kind} {name : String} (h : (k, name) ∈ e.given n) :
    (e.run n).resolve? k = some name := by
  cases e with
  | identifier w =>
    obtain ⟨rfl, rfl⟩ := Prod.mk.inj (List.mem_singleton.1 h)
    exact NameTable.name?_of_id? (NameTable.id?_intern _ _)
  | cls w =>
    obtain ⟨rfl, rfl⟩ := Prod.mk.inj (List.mem_singleton.1 h)
    exact NameTable.name?_of_id? (NameTable.id?_intern _ _)
  | reading lines =>
    obtain ⟨t, ht, hpair⟩ := List.mem_map.1 h
    obtain ⟨rfl, rfl⟩ := Prod.mk.inj hpair
    obtain ⟨ht, hn⟩ := List.mem_filter.1 ht
    exact resolve?_of_fits (Lexed.fits_ofLines lines n ht) hn
  | reset => cases h

end Names

/-! ### The tokens of a document -/

namespace Kind

theorem exists_of_isName {k : Kind} (h : k.isName) :
    (∃ id, k = .identifier id) ∨ ∃ id, k = .classId id := by
  cases k with
  | identifier id => exact .inl ⟨id, rfl⟩
  | classId id => exact .inr ⟨id, rfl⟩
  | _ => cases h

/-- A name of one sort has one kind. -/
theorem Fits.eq_of_isName {n : Names} {lexeme : String} {j k : Kind} (hj : j.Fits n lexeme)
    (hk : k.Fits n lexeme) (hjn : j.isName) (hkn : k.isName)
    (h : (∃ id, j = .classId id) ↔ ∃ id, k = .classId id) : j = k := by
  rcases exists_of_isName hjn with ⟨i, rfl⟩ | ⟨i, rfl⟩ <;>
    rcases exists_of_isName hkn with ⟨i', rfl⟩ | ⟨i', rfl⟩
  · rw [Option.some.inj (hj.1.symm.trans hk.1)]
  · simp at h
  · simp at h
  · rw [Option.some.inj (hj.1.symm.trans hk.1)]

end Kind

namespace Lexed

/-- The names among the tokens can be told apart by their kinds, which say what each is. -/
structure TellsNames (x : Lexed) : Prop where
  resolves : ∀ t ∈ x.tokens, t.kind.isName → x.names.resolve? t.kind = some t.lexeme
  kind_eq_iff : ∀ t ∈ x.tokens, ∀ u ∈ x.tokens, t.kind.isName → u.kind.isName →
    (t.kind = u.kind ↔ t.lexeme = u.lexeme)
  class_iff : ∀ t ∈ x.tokens, t.kind.isName →
    ((∃ id, t.kind = .classId id) ↔ x.names.isClass t.lexeme)

variable {lines : List String} {names : Names} {t u : Token}

theorem class_iff_of_mem (ht : t ∈ (ofLines lines names).tokens) (hn : t.kind.isName) :
    (∃ id, t.kind = .classId id) ↔ (ofLines lines names).names.isClass t.lexeme := by
  have hfits := fits_ofLines lines names ht
  cases hk : t.kind with
  | identifier id => simp [not_isClass_ofLines lines names ht hk]
  | classId id =>
    rw [hk] at hfits
    exact iff_of_true ⟨id, rfl⟩ (Option.isSome_of_eq_some hfits.1)
  | _ =>
    rw [hk] at hn
    cases hn

/-- Of two names with one lexeme both are classes or neither is, and the table has one number for
the two. -/
theorem kind_eq_of_lexeme (ht : t ∈ (ofLines lines names).tokens)
    (hu : u ∈ (ofLines lines names).tokens) (htn : t.kind.isName) (hun : u.kind.isName)
    (h : t.lexeme = u.lexeme) : t.kind = u.kind := by
  have hclass : (∃ id, t.kind = .classId id) ↔ ∃ id, u.kind = .classId id := by
    rw [class_iff_of_mem ht htn, class_iff_of_mem hu hun, h]
  have htf := fits_ofLines lines names ht
  rw [h] at htf
  exact htf.eq_of_isName (fits_ofLines lines names hu) htn hun hclass

theorem tellsNames_ofLines (lines : List String) (names : Names) :
    (ofLines lines names).TellsNames where
  resolves _ ht hn := Names.resolve?_of_fits (fits_ofLines lines names ht) hn
  kind_eq_iff t ht u hu htn hun := by
    refine ⟨fun h => ?_, kind_eq_of_lexeme ht hu htn hun⟩
    have htr := Names.resolve?_of_fits (fits_ofLines lines names ht) htn
    have hur := Names.resolve?_of_fits (fits_ofLines lines names hu) hun
    rw [h] at htr
    exact Option.some.inj (htr.symm.trans hur)
  class_iff _ := class_iff_of_mem

end Lexed

/-- Whatever has happened to the tables, the containers of each are in step and number its names one
to one from zero on. A number that is given out then stands for its name until the tables are
emptied, and the tokens of any document that is read then are told apart by their numbers. -/
theorem Names.interning_spec (es : List Names.Event) :
    (after es).identifiers.Numbered ∧ (after es).classes.Numbered ∧
      (∀ (e : Event) (later : List Event), .reset ∉ later →
        ∀ k name, (k, name) ∈ e.given (after es) →
          (after (es ++ e :: later)).resolve? k = some name) ∧
      ∀ lines, (Lexed.ofLines lines (after es)).TellsNames := by
  obtain ⟨⟨ops, hidentifiers⟩, ⟨ops', hclasses⟩⟩ := made_foldl made_empty es
  refine ⟨hidentifiers ▸ Interner.numbered_after ops, hclasses ▸ Interner.numbered_after ops',
    fun e later hlater k name hgiven => ?_, fun lines => Lexed.tellsNames_ofLines lines _⟩
  have happend : after (es ++ e :: later) = later.foldl Event.run (e.run (after es)) := by
    rw [after, List.foldl_append, List.foldl_cons]
    rfl
  rw [happend]
  exact resolve?_of_le (le_foldl _ hlater) (resolve?_of_given hgiven)

end Uwu
