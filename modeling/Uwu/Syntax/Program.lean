import Uwu.Syntax.Stmt

/-! Functions, classes and whole programs. -/

namespace Uwu

structure Param where
  name : Name
  type : DataType
  span : Span

structure Function where
  name : Name
  returnType : DataType
  params : List Param
  body : Block
  span : Span

structure Class where
  name : Name
  /-- The type of the objects. -/
  type : DataType
  params : List Param
  properties : List Declaration
  methods : List Function
  span : Span

/-- A program starts at its entry function, which no name refers to. -/
structure Program where
  globals : List Declaration
  functions : List Function
  classes : List Class
  entry : Function

def Function.paramTypes (f : Function) : List DataType :=
  f.params.map Param.type

def Class.paramTypes (c : Class) : List DataType :=
  c.params.map Param.type

/-- The functions in source order, the entry last. -/
def Program.functionsAndEntry (p : Program) : List Function :=
  p.functions ++ [p.entry]

end Uwu
