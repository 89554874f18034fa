import Uwu.DataType
import Uwu.Grammar.Parse
import Uwu.Names

/-! Types: a type keyword or the name of a class, and a pair of brackets for every dimension. -/

namespace Uwu.Grammar

variable (names : Names)

/-- The type that a token names. -/
def typeOf? (t : Token) : Option DataType :=
  match t.kind with
  | .keyword k => (BaseType.ofKeyword? k).map fun b => ⟨b, 0⟩
  | .classId id => some ⟨.cls id ((names.classes.name? id).getD t.lexeme), 0⟩
  | _ => none

theorem isSome_typeOf? (t : Token) : (typeOf? names t).isSome = t.kind.isType := by
  obtain ⟨kind, lexeme, span⟩ := t
  cases kind with
  | keyword k => cases k <;> rfl
  | _ => rfl

def unitType : Parse DataType := do
  match typeOf? names (← current) with
  | some type =>
    let _ ← advance
    return type
  | none => failExpected "a data type"

def dimension : Parse Unit := do
  let _ ← advance
  let _ ← expectSymbol .closeBracket

def dataType : Parse DataType := do
  let unit ← unitType names
  let dimensions ← many (· == .symbol .openBracket) dimension
  return unit.arrayOf dimensions.length

end Uwu.Grammar
