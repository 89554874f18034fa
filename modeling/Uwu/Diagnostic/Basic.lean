import Uwu.Role
import Uwu.Source.Position
import Uwu.Text.Quoted

/-! Diagnostics: what can be wrong with a source text, and the words for it. -/

namespace Uwu

/-- What is wrong. -/
inductive Cause where
  -- lexemes
  | unknownCharacter (text : String)
  | badFollower (lexeme : String) (expected : List String) (actual : String)
  | unterminatedName (lexeme : String)
  | unterminatedString (lexeme : String)
  -- grammar
  | unexpected (token : String)
  | unexpectedFor (token reason : String)
  | expected (what received : String)
  | badNumber (lexeme : String)
  | noEntry
  | secondEntry
  | constantWithoutValue (name : String)
  | breakOutsideLoop
  -- names
  | duplicate (name : String) (first : Span) (firstRole role : Role)
  | undefined (name : String) (expected : Role)
  -- types
  | typeMismatch (expected received : String)
  | returnMismatch (function expected received : String)
  | argumentMismatch (callee : String) (expected received : Nat) (mismatches : List String)
  | badOperand (operator operand : String)
  | notIndexable (received : String)
  | noMembers (received : String)
  | undefinedMember (owner member : String)
  | memberRole (name expected actual : String)
  | mixedArray (types : List String)
  | constantReassigned (name : String) (declaration : Span)
  | constantLoopVariable (name : String)
  | missingReturn (function returnType : String)
  deriving DecidableEq

/-- A cause and the place it is seen at. -/
structure Diagnostic where
  cause : Cause
  span : Span
  deriving DecidableEq

namespace Cause

open Text (quote quoteList)

/-- The name of a kind of mistake. -/
def name : Cause → String
  | unknownCharacter .. => "UnrecognisedToken"
  | badFollower .. => "DelimiterError"
  | unterminatedName .. => "UnterminatedIdentifier"
  | unterminatedString .. => "UnterminatedString"
  | unexpected .. => "UnexpectedToken"
  | unexpectedFor .. => "UnexpectedTokenDetailed"
  | expected .. => "ExpectedToken"
  | badNumber .. => "NumberParseError"
  | noEntry => "MissingEntryFunction"
  | secondEntry => "DuplicateEntryFunction"
  | constantWithoutValue .. => "ConstantWithoutValue"
  | breakOutsideLoop => "BreakOutsideLoop"
  | duplicate .. => "DuplicateDefinitionError"
  | undefined .. => "UndefinedError"
  | typeMismatch .. => "TypeMismatchError"
  | returnMismatch .. => "ReturnTypeMismatchError"
  | argumentMismatch .. => "ArgumentMismatchError"
  | badOperand .. => "InvalidOperandError"
  | notIndexable .. => "NonIterableIndexError"
  | noMembers .. => "NonClassAccessError"
  | undefinedMember .. => "UndefinedMemberError"
  | memberRole .. => "MemberRoleMismatchError"
  | mixedArray .. => "HeterogeneousArrayError"
  | constantReassigned .. => "ReassignedConstantError"
  | constantLoopVariable .. => "ConstantLoopVariableError"
  | missingReturn .. => "MissingReturnError"

/-- The mistake in a short sentence, with quoted parts. -/
def text : Cause → String
  | unknownCharacter t => s!"unrecognised token: {quote t}"
  | badFollower l e a => s!"{quote l} followed by {quote a}, expected one of {quoteList e}"
  | unterminatedName l => s!"unterminated identifier {quote l}"
  | unterminatedString l => s!"unterminated string {quote l}"
  | unexpected t => s!"unexpected token: {quote t}"
  | unexpectedFor t r => s!"unexpected token ({quote r}): {quote t}"
  | expected w r => s!"expected {w}, received {quote r}"
  | badNumber l => s!"error parsing number: {quote l}"
  | noEntry => "missing entry function `mainuwu`"
  | secondEntry => "entry function `mainuwu` declared more than once"
  | constantWithoutValue v => s!"constant {quote v} declared without a value"
  | breakOutsideLoop => "`bweak` outside of a loop"
  | duplicate n _ o d => s!"{d.shown} {quote n} already defined as {o.shown}"
  | undefined n e => s!"{e.shown} {quote n} not defined"
  | typeMismatch e r => s!"types do not match: expected {quote e}, received {quote r}"
  | returnMismatch f e r =>
    s!"return type of {quote f} does not match: expected {quote e}, received {quote r}"
  | argumentMismatch c e r ms =>
    s!"arguments of {quote c} do not match: expected {e}, received {r}: {quoteList ms}"
  | badOperand op x => s!"operator {quote op} cannot be applied to {quote x}"
  | notIndexable r => s!"cannot index into {quote r}"
  | noMembers r => s!"cannot access a member of {quote r}"
  | undefinedMember o m => s!"{quote o} has no member {quote m}"
  | memberRole n e a => s!"{quote n} is a {a}, used as a {e}"
  | mixedArray ts => s!"array elements have different types: {quoteList ts}"
  | constantReassigned v _ => s!"constant {quote v} reassigned"
  | constantLoopVariable v => s!"loop variable {quote v} declared constant"
  | missingReturn f t => s!"function {quote f} is missing a return of type {quote t}"

/-- What to look at, for all but an unknown character. -/
def tip? : Cause → Option String
  | unknownCharacter _ => none
  | badFollower l e a =>
    some (s!"`{l}` cannot be followed by `{a}`, expected one of: " ++ " ".intercalate e)
  | unterminatedName l => some s!"Identifier `{l}` runs into the end of the line"
  | unterminatedString l => some s!"String `{l}` is never closed on this line"
  | unexpected t => some s!"Unexpected token: `{t}`, did you miss a `~`?"
  | unexpectedFor t r => some s!"Unexpected token: `{t}`, {r}"
  | expected w r => some s!"Expected {w}, received `{r}`"
  | badNumber l => some s!"Invalid number: `{l}`, is it above the integer limit?"
  | noEntry => some "Every program needs a `fwunc mainuwu-san() [[ ]]`"
  | secondEntry => some "Only one `mainuwu` may be declared"
  | constantWithoutValue v => some s!"Constant `{v}` needs a value when it is declared"
  | breakOutsideLoop => some "`bweak` can only be used inside a loop"
  | duplicate n _ _ d => some s!"{d.shown} `{n}` is already defined"
  | undefined n e => some s!"{e.shown} `{n}` is not defined"
  | typeMismatch e r => some s!"Expected type `{e}`, received `{r}`"
  | returnMismatch f e r => some s!"`{f}` returns `{e}`, received `{r}`"
  | argumentMismatch c e r ms =>
    if e ≠ r then some s!"`{c}` expects {e} arguments, received {r}"
    else some (s!"Arguments of `{c}` do not match: " ++ ", ".intercalate ms)
  | badOperand op x => some s!"Operator `{op}` cannot be used on `{x}`"
  | notIndexable r => some s!"Only arrays and `senpai` can be indexed, received `{r}`"
  | noMembers r =>
    some s!"Members can only be accessed on classes, `senpai` and arrays, received `{r}`"
  | undefinedMember o m => some s!"`{o}` has no member `{m}`"
  | memberRole n e a => some s!"`{n}` is a {a}, but is used as a {e}"
  | mixedArray ts => some ("Array elements must share one type, found: " ++ ", ".intercalate ts)
  | constantReassigned v _ => some s!"`{v}` is declared `dono` and cannot be reassigned"
  | constantLoopVariable v => some s!"Loop variable `{v}` changes every iteration, drop `-dono`"
  | missingReturn f t => some s!"`{f}` must `wetuwn` a `{t}` value"

/-- A second place worth a look. -/
def note? : Cause → Option String
  | duplicate n first role _ =>
    some s!"`{n}` was first defined as {role.shown} at {first.start.shown}"
  | constantReassigned v declaration => some s!"`{v}` was declared at {declaration.start.shown}"
  | _ => none

end Cause

namespace Diagnostic

/-- The mistake and where it is. -/
def text (d : Diagnostic) : String :=
  s!"{d.cause.text} at {d.span.start.shown}"

end Diagnostic

end Uwu
