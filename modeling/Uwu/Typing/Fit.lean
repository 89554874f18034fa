import Uwu.DataType

/-! Which values may stand where a type is declared. -/

namespace Uwu.DataType

/-- Types that arithmetic takes. -/
def countsAsNumber (t : DataType) : Bool :=
  t.isNumeric || t.isInput

/-- A value of type `t` may stand where `expected` is declared. A value about which nothing is
known may stand anywhere but in a call. -/
def fits (t expected : DataType) (inCall : Bool) : Bool :=
  if t = expected then true
  else if t.isNothing then !inCall
  else if expected.dimension = 0 then
    match expected.base with
    | .chan | .kun => t.countsAsNumber
    | .sama => true
    | .senpai => t.isString || t.isInput
    | _ => false
  else t.isBlankArray && t.dimension ≤ expected.dimension

end Uwu.DataType
