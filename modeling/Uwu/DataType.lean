import Uwu.Token.Kind

/-! Data types: a base type and a number of array dimensions. -/

namespace Uwu

inductive BaseType where
  | chan | kun | senpai | sama | san
  /-- What is typed in at run time, not yet known to be of any type. -/
  | input
  /-- A class, with its number in the table of classes. -/
  | cls (id : Nat) (name : String)
  deriving DecidableEq

namespace BaseType

def shown : BaseType → String
  | chan => "chan" | kun => "kun" | senpai => "senpai" | sama => "sama" | san => "san"
  | input => "inpwt"
  | cls _ name => name

/-- The base type that a keyword names. -/
def ofKeyword? : Keyword → Option BaseType
  | .chan => some chan
  | .kun => some kun
  | .senpai => some senpai
  | .sama => some sama
  | .san => some san
  | _ => none

end BaseType

structure DataType where
  base : BaseType
  dimension : Nat
  deriving DecidableEq

namespace DataType

def chan : DataType := ⟨.chan, 0⟩
def kun : DataType := ⟨.kun, 0⟩
def senpai : DataType := ⟨.senpai, 0⟩
def sama : DataType := ⟨.sama, 0⟩
def san : DataType := ⟨.san, 0⟩
def input : DataType := ⟨.input, 0⟩

/-- The type of an array literal without elements, `n` levels deep. -/
def blankArray (n : Nat) : DataType := ⟨.san, n⟩

/-- As written in a source text. -/
def shown (t : DataType) : String :=
  t.base.shown ++ String.join (List.replicate t.dimension "[]")

/-- Arrays of arrays of this type, `n` levels more. -/
def arrayOf (t : DataType) (n : Nat) : DataType :=
  { t with dimension := t.dimension + n }

/-- What is left after `n` indices; an index on no array changes nothing. -/
def elementOf (t : DataType) (n : Nat) : DataType :=
  { t with dimension := t.dimension - n }

def isArray (t : DataType) : Bool :=
  0 < t.dimension

/-- No value, or a value about which nothing is known. -/
def isNothing (t : DataType) : Bool :=
  t.base == .san && t.dimension == 0

def isBlankArray (t : DataType) : Bool :=
  t.base == .san && 0 < t.dimension

def isNumeric (t : DataType) : Bool :=
  t.dimension == 0 && (t.base == .chan || t.base == .kun || t.base == .sama)

def isString (t : DataType) : Bool :=
  t == .senpai

def isInput (t : DataType) : Bool :=
  t == .input

def isClass (t : DataType) : Bool :=
  match t.base with
  | .cls _ _ => t.dimension == 0
  | _ => false

end DataType

end Uwu
