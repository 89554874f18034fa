import Uwu.Syntax.Program
import Uwu.Table

/-! The declared types of all that can be called or accessed. -/

namespace Uwu.Typing

inductive ParamSlot where
  | exact (t : DataType)
  /-- The elements of the array that the method is called on, or such an array. -/
  | element
  deriving DecidableEq

namespace ParamSlot

/-- The types that an argument may have, for a method of `receiver`. -/
def resolve (receiver : Option DataType) : ParamSlot → List DataType
  | exact t => [t]
  | element =>
    match receiver with
    | none => []
    | some r => if r.isArray then [r.elementOf 1, r] else [r]

def shown (receiver : Option DataType) (p : ParamSlot) : String :=
  " or ".intercalate ((p.resolve receiver).map DataType.shown)

end ParamSlot

/-- A function, a method or a constructor. -/
structure Signature where
  params : List ParamSlot
  returnType : DataType
  deriving DecidableEq

def Signature.ofTypes (params : List DataType) (returnType : DataType) : Signature :=
  ⟨params.map .exact, returnType⟩

inductive Member where
  | property (type : DataType) (isConst : Bool) (site : Span)
  | method (sig : Signature)
  deriving DecidableEq

/-! ### Methods of strings and arrays -/

def stringMethod? : String → Option Signature
  | "len" => some ⟨[], .chan⟩
  | "reversed" => some ⟨[], .senpai⟩
  | "has" => some ⟨[.exact .senpai], .sama⟩
  | "upper" => some ⟨[], .senpai⟩
  | "lower" => some ⟨[], .senpai⟩
  | _ => none

def arrayMethod? : String → Option Signature
  | "len" => some ⟨[], .chan⟩
  | "reverse" => some ⟨[], .san⟩
  | "has" => some ⟨[.element], .sama⟩
  | "append" => some ⟨[.element], .san⟩
  | _ => none

def methodOf? (receiver : DataType) (name : String) : Option Signature :=
  if receiver.isString then stringMethod? name
  else if receiver.isArray then arrayMethod? name
  else none

/-! ### Declared signatures -/

/-- The key of a member: the names of class and member with a dot between them. -/
def memberKey (cls name : String) : String :=
  cls ++ "." ++ name

/-- The names of class and member in a key, parted at its first dot. -/
def splitKey (key : String) : String × String :=
  let cls := key.toList.takeWhile (· != '.')
  (String.ofList cls, String.ofList (key.toList.drop (cls.length + 1)))

structure Signatures where
  functions : Table String Signature
  /-- Constructors. -/
  classes : Table String Signature
  /-- By the keys of members. -/
  memberTable : Table String Member

namespace Signatures

def empty : Signatures := ⟨.empty, .empty, .empty⟩

def member? (s : Signatures) (cls name : String) : Option Member :=
  s.memberTable.get? (memberKey cls name)

/-- The members by class and name, as they are shown. -/
def members (s : Signatures) : Table (String × String) Member :=
  ⟨s.memberTable.toList.map (Prod.map splitKey id)⟩

def addFunction (s : Signatures) (f : Function) : Signatures :=
  { s with functions := s.functions.addNew f.name.value (.ofTypes f.paramTypes f.returnType) }

def addMember (cls : String) (s : Signatures) (name : String) (m : Member) : Signatures :=
  { s with memberTable := s.memberTable.addNew (memberKey cls name) m }

def addClass (s : Signatures) (c : Class) : Signatures :=
  let cls := c.name.value
  let s := { s with classes := s.classes.addNew cls (.ofTypes c.paramTypes c.type) }
  let s := c.properties.foldl
    (fun s d => s.addMember cls d.name.value (.property d.type d.isConst d.name.span)) s
  c.methods.foldl
    (fun s f => s.addMember cls f.name.value (.method (.ofTypes f.paramTypes f.returnType))) s

/-- Of two declarations with one name the first counts. -/
def ofProgram (p : Program) : Signatures :=
  p.classes.foldl addClass (p.functions.foldl addFunction empty)

end Signatures

end Uwu.Typing
