import Uwu.Table

/-! Tables that number names by first sight, one for identifiers and one for classes. A name keeps
its number for as long as its table is not emptied. A table is kept in two containers, one for each
way of looking it up, and every change leaves them in step. -/

namespace Uwu

/-! ### Two containers -/

/-- The number of each name, and the names by their numbers, in the order of their first sight. -/
structure Interner where
  lookup : Table String Nat
  names : List String
  deriving DecidableEq

namespace Interner

def empty : Interner := ⟨.empty, []⟩

def get? (t : Interner) (name : String) : Option Nat :=
  t.lookup.get? name

def resolve? (t : Interner) (id : Nat) : Option String :=
  t.names[id]?

/-- The number of a name, which joins both containers if it is new. -/
def intern (t : Interner) (name : String) : Interner × Nat :=
  match t.get? name with
  | some id => (t, id)
  | none => (⟨t.lookup.addNew name t.names.length, t.names ++ [name]⟩, t.names.length)

/-- Empties both containers. -/
def clear (t : Interner) : Interner :=
  { t with lookup := .empty, names := [] }

/-- The rows of the one container are the names in the other, each with its place, and no name has
two places. -/
structure InStep (t : Interner) : Prop where
  rows : t.lookup.toList = t.names.zipIdx
  distinct : t.names.Nodup

theorem lookup_zipIdx (ns : List String) (name : String) (k : Nat) :
    (ns.zipIdx k).lookup name = (ns.idxOf? name).map (· + k) := by
  induction ns generalizing k with
  | nil => rfl
  | cons n ns ih =>
    rw [List.zipIdx_cons, List.lookup_cons, ih, List.idxOf?_cons]
    by_cases h : name = n
    · simp [h]
    · have hne : (n == name) = false := beq_eq_false_iff_ne.2 (Ne.symm h)
      simp [beq_eq_false_iff_ne.2 h, hne, Function.comp_def, Nat.add_comm, Nat.add_left_comm]

variable {t : Interner}

/-- In step, the number of a name is its first place in the list. -/
theorem InStep.get?_eq (h : t.InStep) (name : String) : t.get? name = t.names.idxOf? name := by
  rw [get?, Table.get?, h.rows, lookup_zipIdx]
  simp

theorem intern_of_some {name : String} {id : Nat} (h : t.get? name = some id) :
    t.intern name = (t, id) := by
  rw [intern, h]

theorem intern_of_none {name : String} (h : t.get? name = none) :
    t.intern name = (⟨⟨t.lookup.toList ++ [(name, t.names.length)]⟩, t.names ++ [name]⟩,
      t.names.length) := by
  have hnew : t.lookup.contains name = false := by
    rw [Table.contains, ← get?, h, Option.isSome_none]
  rw [intern, h, Table.addNew, if_neg (by rw [hnew]; exact Bool.false_ne_true)]

theorem inStep_empty : InStep empty :=
  ⟨rfl, .nil⟩

/-- A new name takes the next place in both containers. -/
theorem InStep.intern (h : t.InStep) (name : String) : (t.intern name).1.InStep := by
  cases hid : t.get? name with
  | some id =>
    rw [intern_of_some hid]
    exact h
  | none =>
    have hnew : name ∉ t.names := by rw [← List.isNone_idxOf?, ← h.get?_eq, hid, Option.isNone_none]
    rw [intern_of_none hid]
    constructor
    · rw [List.zipIdx_append, h.rows]
      simp
    · refine List.pairwise_append.2 ⟨h.distinct, List.pairwise_singleton _ _, fun w hw w' hw' => ?_⟩
      rw [List.mem_singleton.1 hw']
      exact fun heq => hnew (heq ▸ hw)

theorem InStep.clear (t : Interner) : t.clear.InStep :=
  inStep_empty

end Interner

/-! ### Tables of names -/

/-- Containers that are in step. -/
structure NameTable extends Interner where
  inStep : toInterner.InStep
  deriving DecidableEq

namespace NameTable

variable (t : NameTable)

def empty : NameTable := ⟨.empty, Interner.inStep_empty⟩

/-- The names in the order of their first sight. -/
def toList : List String :=
  t.names

def size : Nat :=
  t.names.length

def isEmpty : Bool :=
  t.names.isEmpty

def id? (name : String) : Option Nat :=
  t.get? name

def name? (id : Nat) : Option String :=
  t.resolve? id

/-- The number of a name, which joins the table if it is new. -/
def intern (name : String) : NameTable × Nat :=
  (⟨(t.toInterner.intern name).1, t.inStep.intern name⟩, (t.toInterner.intern name).2)

def clear : NameTable :=
  ⟨t.toInterner.clear, .clear _⟩

end NameTable

/-- The names that the readings of source texts have met so far. -/
structure Names where
  identifiers : NameTable
  classes : NameTable
  deriving DecidableEq

namespace Names

def empty : Names := ⟨.empty, .empty⟩

def withIdentifier (n : Names) (name : String) : Names × Nat :=
  let (t, id) := n.identifiers.intern name
  ({ n with identifiers := t }, id)

def withClass (n : Names) (name : String) : Names × Nat :=
  let (t, id) := n.classes.intern name
  ({ n with classes := t }, id)

/-- Forgets all names. -/
def reset (n : Names) : Names :=
  ⟨n.identifiers.clear, n.classes.clear⟩

def isClass (n : Names) (name : String) : Bool :=
  (n.classes.id? name).isSome

end Names

end Uwu
