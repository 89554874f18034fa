import Uwu.Typing.Checked
import Uwu.Typing.Fit
import Uwu.Typing.Signature

/-! The types of expressions. An expression with a mistake has type `san`, and an operand of that
type is no further mistake. -/

namespace Uwu.Typing

/-- A declared variable, known by the site of its name. -/
structure Variable where
  type : DataType
  isConst : Bool
  site : Span

/-- What the types of expressions at a place depend on. -/
structure Env where
  signatures : Signatures
  /-- The class around the place. -/
  cls : Option String
  vars : Table String Variable
  /-- The sites of the variables that hold a value. -/
  valued : List Span

/-- What is done with the value that an access path leads to. -/
inductive Access where
  | read
  | write
  /-- A member of it is written. -/
  | owner
  deriving DecidableEq

/-- What is done with an object, by what is done with its member. -/
def Access.ofObject : Access → Access
  | read => read
  | write | owner => owner

/-! ### Operators -/

def typeOfLiteral : Literal → DataType
  | .int _ => .chan
  | .float _ => .kun
  | .str _ => .senpai
  | .bool _ => .sama
  | .nuww => .san

/-- All operands are numeric. One of which nothing is known is not, and no mistake either. -/
def numericOperands (op : String) : List (DataType × Span) → Checked Bool
  | [] => pure true
  | (t, span) :: operands => do
    if !t.isNothing && !t.countsAsNumber then report (.badOperand op t.shown) span
    let rest ← numericOperands op operands
    return t.countsAsNumber && rest

/-- What arithmetic gives: `kun` if an operand is. -/
def arithmetic (op : String) (operands : List (DataType × Span)) : Checked DataType := do
  if ← numericOperands op operands then
    return if operands.any fun (t, _) => t.base == .kun then .kun else .chan
  else return .san

def infixType (op : InfixOp) (left right : DataType × Span) : Checked DataType :=
  match op with
  | .join => return .senpai
  | .equal | .notEqual | .and | .or => return .sama
  | .less | .lessEqual | .greater | .greaterEqual => do
    return if ← numericOperands op.spelling [left, right] then .sama else .san
  | .add | .subtract | .multiply | .divide | .remainder => arithmetic op.spelling [left, right]

/-! ### Arrays -/

def arrayMistake (types : List DataType) (span : Span) : Checked DataType := do
  report (.mixedArray (types.map DataType.shown).eraseDups) span
  return .san

/-- The type of an array with elements of these types. Arrays without elements are arrays of any
type, down to the depth of the others. -/
def arrayType (types : List DataType) (span : Span) : Checked DataType :=
  if types.any DataType.isNothing then return .san
  else
    let (blank, known) := types.partition DataType.isBlankArray
    let depth := (blank.map DataType.dimension).foldl max 0
    match known with
    | [] => return .blankArray (depth + 1)
    | t :: ts =>
      if ts.all (· == t) && depth ≤ t.dimension then return t.arrayOf 1
      else arrayMistake types span

/-- The type of an element; `span` is the path that the index belongs to. -/
def elementType (t : DataType) (span : Span) : Checked DataType :=
  if t.isNothing then return .san
  else if t.isString then return .senpai
  else if t.isArray then return t.elementOf 1
  else do
    report (.notIndexable t.shown) span
    return .san

def checkIndex (t : DataType) (span : Span) : Checked Unit := do
  if !t.isNothing && !t.countsAsNumber then
    report (.typeMismatch DataType.chan.shown t.shown) span

/-! ### Calls -/

/-- The mistakes of single arguments, from position `n` on. -/
def argMismatches (receiver : Option DataType) :
    (n : Nat) → List DataType → List ParamSlot → List String
  | n, arg :: args, param :: params =>
    let rest := argMismatches receiver (n + 1) args params
    if (param.resolve receiver).any fun expected => arg.fits expected true then rest
    else
      let wanted := param.shown receiver
      s!"argument {n} expected `{wanted}`, received `{arg.shown}`" :: rest
  | _, _, _ => []

/-- A call gives what the callee returns, whatever the arguments are. -/
def applyTo (callee : String) (sig : Signature) (args : List DataType)
    (receiver : Option DataType) (span : Span) : Checked DataType := do
  let sameLength := args.length == sig.params.length
  let mismatches := if sameLength then argMismatches receiver 1 args sig.params else []
  if !(sameLength && mismatches.isEmpty) then
    report (.argumentMismatch callee sig.params.length args.length mismatches) span
  return sig.returnType

/-- A name is used for what it does not stand for. -/
def roleMistake (name : Name) (expected actual : String) : Checked DataType := do
  report (.memberRole name.value expected actual) name.span
  return .san

variable (env : Env)

/-- The variable that a name stands for. -/
def Env.declared? (n : Name) : Option Variable :=
  env.vars.get? n.value

/-- A member of the class around the place. -/
def Env.ownMember? (n : Name) : Option Member :=
  env.cls.bind fun cls => env.signatures.member? cls n.value

/-- Nothing is known of a variable that holds no value. -/
def readName (n : Name) : Checked DataType :=
  match env.declared? n with
  | some v => return if env.valued.contains v.site then v.type else .san
  | none =>
    match env.ownMember? n with
    | some (.method _) => roleMistake n "property" "method"
    | _ =>
      if env.signatures.functions.contains n.value then roleMistake n "variable" "function"
      else return .san

def checkWrite (access : Access) (name : Name) (isConst : Bool) (site : Span) : Checked Unit := do
  if access = .write ∧ isConst then report (.constantReassigned name.value site) name.span

/-- To write a variable or a member of it, no value is needed. -/
def accessName (access : Access) (n : Name) : Checked DataType :=
  match access, env.declared? n with
  | .write, some v | .owner, some v => do
    checkWrite access n v.isConst v.site
    return v.type
  | _, _ => readName env n

def callName (n : Name) (args : List DataType) (span : Span) : Checked DataType :=
  match env.ownMember? n with
  | some (.method sig) => applyTo n.value sig args none span
  | some (.property _ _ _) => roleMistake n "method" "property"
  | none =>
    if (env.declared? n).isSome then roleMistake n "function" "variable"
    else
      match env.signatures.functions.get? n.value with
      | some sig => applyTo n.value sig args none span
      | none => return .san

def construct (cls : Name) (args : List DataType) (span : Span) : Checked DataType :=
  match env.signatures.classes.get? cls.value with
  | some sig => applyTo cls.value sig args none span
  | none => return .san

/-! ### Members -/

/-- What a member of a value is. -/
inductive Lookup where
  /-- Nothing is known of the value. -/
  | unknown
  /-- Values of its type have no members. -/
  | closed
  | missing
  | property (type : DataType) (isConst : Bool) (site : Span)
  | method (sig : Signature) (receiver : Option DataType)

def Env.lookup (owner : DataType) (name : Name) : Lookup :=
  if owner.isNothing then .unknown
  else if owner.isClass then
    match env.signatures.member? owner.base.shown name.value with
    | some (.property type isConst site) => .property type isConst site
    | some (.method sig) => .method sig none
    | none => .missing
  else if owner.isString || owner.isArray then
    match methodOf? owner name.value with
    | some sig => .method sig (some owner)
    | none => .missing
  else .closed

/-- A member that cannot be used as it is. -/
def memberMistake (owner : DataType) (name : Name) (span : Span) : Lookup → Checked DataType
  | .unknown => return .san
  | .closed => do
    report (.noMembers owner.shown) span
    return .san
  | .missing => do
    report (.undefinedMember owner.shown name.value) span
    return .san
  | .property .. => roleMistake name "method" "property"
  | .method .. => roleMistake name "property" "method"

def checkConstMember (access : Access) (owner : DataType) (name : Name) : Checked Unit :=
  match env.lookup owner name with
  | .property _ isConst site => checkWrite access name isConst site
  | _ => return

/-! ### Expressions -/

mutual

def typeOf : Expr → Checked DataType
  | .literal value _ => return typeOfLiteral value
  | .format segments _ => do
    typeSegments segments
    return .senpai
  | .input none _ => return .input
  | .input (some prompt) _ => do
    let _ ← typeOf prompt
    return .input
  | .array elements span => do
    let types ← typesOf elements
    arrayType types span
  | .prefixed op operand _ => do
    let t ← typeOf operand
    match op.value with
    | .not => return .sama
    | .negate => arithmetic op.value.spelling [(t, operand.span)]
  | .infixed left op right _ => do
    let l ← typeOf left
    let r ← typeOf right
    infixType op.value (l, left.span) (r, right.span)
  | .postfixed target op _ => do
    let t ← typeOfPlace (if target.isAssignable then .write else .read) target
    if target.isAssignable then arithmetic op.value.spelling [(t, target.span)]
    else
      report (.badOperand op.value.spelling t.shown) target.span
      return .san
  | .place p => typeOfPlace .read p

def typesOf : List Expr → Checked (List DataType)
  | [] => return []
  | e :: es => do
    let t ← typeOf e
    let ts ← typesOf es
    return t :: ts

def typeSegments : List Segment → Checked Unit
  | [] => return
  | .text _ :: ss => typeSegments ss
  | .expr e :: ss => do
    let _ ← typeOf e
    typeSegments ss

def typeIndices (span : Span) : List Expr → DataType → Checked DataType
  | [], t => return t
  | e :: es, t => do
    let i ← typeOf e
    checkIndex i e.span
    let element ← elementType t span
    typeIndices span es element

/-- A link that begins a path. -/
def typeOfLink (access : Access) : Link → Checked DataType
  | .name n => accessName env access n
  | .indexed n indices span => do
    let t ← accessName env access n
    typeIndices span indices t
  | .call n args span => do
    let ts ← typesOf args
    callName env n ts span

/-- A link that is a member of a value of type `owner`. -/
def typeOfMember (owner : DataType) : Link → Checked DataType
  | .name n =>
    match env.lookup owner n with
    | .property t _ _ => return t
    | found => memberMistake owner n n.span found
  | .indexed n indices span =>
    match env.lookup owner n with
    | .property t _ _ => typeIndices span indices t
    | found => do
      let _ ← typesOf indices
      memberMistake owner n span found
  | .call n args span => do
    let ts ← typesOf args
    match env.lookup owner n with
    | .method sig receiver => applyTo n.value sig ts receiver span
    | found => memberMistake owner n span found

def typeOfPlace (access : Access) : Place → Checked DataType
  | .link l => typeOfLink access l
  | .construct cls args span => do
    let ts ← typesOf args
    construct env cls ts span
  | .member object l _ => do
    let owner ← typeOfPlace access.ofObject object
    checkConstMember env access owner l.head
    typeOfMember owner l

end

end Uwu.Typing
