/-! What a name stands for. -/

namespace Uwu

inductive Role where
  | globalVariable
  | function
  | classType
  | property
  | method
  /-- A parameter, or a variable declared in a body. -/
  | localVariable
  deriving DecidableEq

def Role.shown : Role → String
  | globalVariable => "identifier"
  | function => "function"
  | classType => "class"
  | property => "class property"
  | method => "class method"
  | localVariable => "local"

end Uwu
