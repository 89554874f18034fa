/-! Tables in which the first value of a key stays. -/

namespace Uwu

/-- Keys with their values, in the order in which they came. -/
structure Table (κ ν : Type) where
  toList : List (κ × ν)
  deriving DecidableEq

namespace Table

variable {κ ν : Type} [BEq κ]

def empty : Table κ ν := ⟨[]⟩

def get? (t : Table κ ν) (k : κ) : Option ν :=
  t.toList.lookup k

def contains (t : Table κ ν) (k : κ) : Bool :=
  (t.get? k).isSome

def size (t : Table κ ν) : Nat :=
  t.toList.length

def isEmpty (t : Table κ ν) : Bool :=
  t.toList.isEmpty

/-- Adds a value for a new key; for a key that is there, nothing changes. -/
def addNew (t : Table κ ν) (k : κ) (v : ν) : Table κ ν :=
  if t.contains k then t else ⟨t.toList ++ [(k, v)]⟩

@[simp]
theorem get?_empty (k : κ) : (empty : Table κ ν).get? k = none := rfl

theorem get?_addNew [LawfulBEq κ] (t : Table κ ν) (k : κ) (v : ν) (k' : κ) :
    (t.addNew k v).get? k' =
      if k' == k then some ((t.get? k).getD v) else t.get? k' := by
  rw [addNew]
  split
  next h =>
    obtain ⟨w, hw⟩ := Option.isSome_iff_exists.1 h
    split <;> simp_all
  next h =>
    have hk : t.toList.lookup k = none := by
      simpa only [contains, get?, Bool.not_eq_true, Option.isSome_eq_false_iff,
        Option.isNone_iff_eq_none] using h
    simp only [get?, List.lookup_append, List.lookup_cons, List.lookup_nil, hk]
    cases hb : k' == k
    · simp
    · rw [LawfulBEq.eq_of_beq hb, hk]
      simp

end Table

end Uwu
