import Uwu.Grammar.Expr

/-! The words that write an expression, with no more parentheses than its tree needs. -/

namespace Uwu

/-- A token without its place. -/
structure Word where
  kind : Kind
  lexeme : String
  deriving DecidableEq

def Token.word (t : Token) : Word := ⟨t.kind, t.lexeme⟩

def Symbol.word (x : Symbol) : Word := ⟨.symbol x, x.spelling⟩

def Keyword.word (k : Keyword) : Word := ⟨.keyword k, k.spelling⟩

namespace Grammar

/-- What a writer is free in: the numbers of names, and the digits of a float. -/
structure Hand where
  identifier : String → Nat
  cls : String → Nat
  float : UInt64 → String

/-! ### Texts -/

/-- How a character stands in a string. -/
def escapeChar : Char → List Char
  | '\\' => ['\\', '\\']
  | '"' => ['\\', '"']
  | '|' => ['\\', '|']
  | '\n' => ['\\', 'n']
  | '\t' => ['\\', 't']
  | c => [c]

def escape (text : String) : List Char :=
  text.toList.flatMap escapeChar

/-- A text between delimiters. -/
def delimited (first last : Char) (text : String) : String :=
  String.ofList (first :: (escape text ++ [last]))

/-! ### Levels -/

end Grammar

/-- How tightly an expression holds together. -/
def Expr.power : Expr → Power
  | .infixed _ op _ _ => op.value.power
  | .prefixed _ _ _ => .prefixed
  | _ => .call

namespace Grammar

def wrapped (parens : Bool) (words : List Word) : List Word :=
  if parens then Symbol.openParen.word :: (words ++ [Symbol.closeParen.word]) else words

variable (h : Hand)

def Hand.name (n : Name) : Word := ⟨.identifier (h.identifier n.value), n.value⟩

def Hand.literal : Literal → Word
  | .int n => ⟨.intLiteral, toString n⟩
  | .float bits => ⟨.floatLiteral, h.float bits⟩
  | .str s => ⟨.stringLiteral, delimited '"' '"' s⟩
  | .bool true => Keyword.fax.word
  | .bool false => Keyword.cap.word
  | .nuww => Keyword.nuww.word

mutual

def exprWords : Expr → List Word
  | .literal v _ => [h.literal v]
  | .format ss _ => segmentWords '"' "" ss
  | .input prompt _ =>
    Keyword.inpwt.word :: Symbol.openParen.word :: (promptWords prompt ++ [Symbol.closeParen.word])
  | .array es _ => Symbol.openBrace.word :: (listWords es ++ [Symbol.closeBrace.word])
  | .prefixed op e _ =>
    ⟨op.value.kind, op.value.spelling⟩ :: wrapped (Power.prefixed.exceeds e.power) (exprWords e)
  | .infixed l op r _ =>
    wrapped (op.value.power.exceeds l.power) (exprWords l) ++ ⟨op.value.kind, op.value.spelling⟩ ::
      wrapped (!r.power.exceeds op.value.power) (exprWords r)
  | .postfixed p op _ => placeWords p ++ [⟨op.value.kind, op.value.spelling⟩]
  | .place p => placeWords p

def promptWords : Option Expr → List Word
  | none => []
  | some e => exprWords e

/-- Expressions with commas between them. -/
def listWords : List Expr → List Word
  | [] => []
  | e :: es => exprWords e ++ tailWords es

/-- Expressions with a comma before each. -/
def tailWords : List Expr → List Word
  | [] => []
  | e :: es => Symbol.comma.word :: (exprWords e ++ tailWords es)

/-- The parts of an interpolated string and the expressions between them, from where `text` is to
be written behind the delimiter `first`. -/
def segmentWords (first : Char) (text : String) : List Segment → List Word
  | [] => [⟨.stringPartEnd, delimited first '"' text⟩]
  | .text s :: ss => segmentWords first (text ++ s) ss
  | .expr e :: ss =>
    ⟨if first = '"' then .stringPartStart else .stringPartMid, delimited first '|' text⟩ ::
      (exprWords e ++ segmentWords '|' "" ss)

def indexWords : List Expr → List Word
  | [] => []
  | e :: es =>
    Symbol.openBracket.word :: (exprWords e ++ Symbol.closeBracket.word :: indexWords es)

def linkWords : Link → List Word
  | .name n => [h.name n]
  | .indexed n es _ => h.name n :: indexWords es
  | .call n es _ =>
    h.name n :: Symbol.openParen.word :: (listWords es ++ [Symbol.closeParen.word])

def placeWords : Place → List Word
  | .link l => linkWords l
  | .construct c es _ =>
    ⟨.classId (h.cls c.value), c.value⟩ :: Symbol.openParen.word ::
      (listWords es ++ [Symbol.closeParen.word])
  | .member p l _ => placeWords p ++ Symbol.dot.word :: linkWords l

end

/-! ### The trees that are written -/

/-- A literal of which its word is a spelling. -/
def Hand.Spells : Literal → Prop
  | .int n => n ≤ maxInt
  | .float bits => floatLiteral? (h.float bits).toList = some (.float bits)
  | _ => True

/-- No text is empty, and none stands behind another. -/
def textsApart : (behindText : Bool) → List Segment → Prop
  | _, [] => True
  | behindText, .text s :: ss => behindText = false ∧ s ≠ "" ∧ textsApart true ss
  | _, .expr _ :: ss => textsApart false ss

mutual

/-- The shapes that the parser makes: integers of 64 bits, strings with an expression between
texts where they are interpolated, indices where a name is indexed. -/
def Shaped : Expr → Prop
  | .literal v _ => h.Spells v
  | .format ss _ => (∃ e, .expr e ∈ ss) ∧ textsApart false ss ∧ SegmentsShaped ss
  | .input none _ => True
  | .input (some e) _ => Shaped e
  | .array es _ => AllShaped es
  | .prefixed _ e _ => Shaped e
  | .infixed l _ r _ => Shaped l ∧ Shaped r
  | .postfixed p _ _ => PlaceShaped p
  | .place p => PlaceShaped p

def AllShaped : List Expr → Prop
  | [] => True
  | e :: es => Shaped e ∧ AllShaped es

def SegmentsShaped : List Segment → Prop
  | [] => True
  | .text _ :: ss => SegmentsShaped ss
  | .expr e :: ss => Shaped e ∧ SegmentsShaped ss

def LinkShaped : Link → Prop
  | .name _ => True
  | .indexed _ es _ => es ≠ [] ∧ AllShaped es
  | .call _ es _ => AllShaped es

def PlaceShaped : Place → Prop
  | .link l => LinkShaped l
  | .construct _ es _ => AllShaped es
  | .member p l _ => PlaceShaped p ∧ LinkShaped l

end

/-! ### Trees without places -/

def unplaced {α : Type} (x : Located α) : Located α := ⟨x.value, default⟩

mutual

/-- The tree without its spans. -/
def eraseExpr : Expr → Expr
  | .literal v _ => .literal v default
  | .format ss _ => .format (eraseSegments ss) default
  | .input prompt _ => .input (erasePrompt prompt) default
  | .array es _ => .array (eraseAll es) default
  | .prefixed op e _ => .prefixed (unplaced op) (eraseExpr e) default
  | .infixed l op r _ => .infixed (eraseExpr l) (unplaced op) (eraseExpr r) default
  | .postfixed p op _ => .postfixed (erasePlace p) (unplaced op) default
  | .place p => .place (erasePlace p)

def erasePrompt : Option Expr → Option Expr
  | none => none
  | some e => some (eraseExpr e)

def eraseAll : List Expr → List Expr
  | [] => []
  | e :: es => eraseExpr e :: eraseAll es

def eraseSegments : List Segment → List Segment
  | [] => []
  | .text s :: ss => .text s :: eraseSegments ss
  | .expr e :: ss => .expr (eraseExpr e) :: eraseSegments ss

def eraseLink : Link → Link
  | .name n => .name (unplaced n)
  | .indexed n es _ => .indexed (unplaced n) (eraseAll es) default
  | .call n es _ => .call (unplaced n) (eraseAll es) default

def erasePlace : Place → Place
  | .link l => .link (eraseLink l)
  | .construct c es _ => .construct (unplaced c) (eraseAll es) default
  | .member p l _ => .member (erasePlace p) (eraseLink l) default

end

theorem eraseSegments_append (xs ys : List Segment) :
    eraseSegments (xs ++ ys) = eraseSegments xs ++ eraseSegments ys := by
  induction xs with
  | nil => rfl
  | cons x xs ih =>
    cases x <;> rw [List.cons_append, eraseSegments, eraseSegments, ih, List.cons_append]

end Grammar

end Uwu
