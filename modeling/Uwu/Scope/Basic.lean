import Uwu.DataType
import Uwu.Role
import Uwu.Syntax.Expr
import Uwu.Table

/-! Scopes: the names visible at a place in a program. -/

namespace Uwu

/-- What a name is bound to, and where. -/
structure Binding where
  site : Span
  type : DataType
  role : Role
  deriving DecidableEq

abbrev Scope := Table String Binding

/-- A name to be declared, with its type and role. -/
structure Entry where
  name : Name
  type : DataType
  role : Role
  deriving DecidableEq

namespace Scope

/-- The name is bound in this role. -/
def has (s : Scope) (name : String) (role : Role) : Bool :=
  (s.get? name).any fun b => b.role == role

/-- Declares a name. A name that is visible stays what it is. -/
def declare (s : Scope) (e : Entry) : Scope :=
  s.addNew e.name.value ⟨e.name.span, e.type, e.role⟩

/-- Declares names one after the other. -/
def declareAll (s : Scope) (es : List Entry) : Scope :=
  es.foldl declare s

end Scope

end Uwu
