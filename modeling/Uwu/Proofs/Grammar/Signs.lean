import Uwu.Grammar.Item
import Uwu.Proofs.Lexeme.Quoting

/-! What a program says, token by token: its signs in source order. A sign is a token without its
place; of a literal it keeps the value, and not how it is written. Two things that a program may be
written with leave no sign: parentheses that only group, and a comma before the end of a list. -/

namespace Uwu

open Grammar

inductive Sign where
  /-- A name, a keyword or a symbol. -/
  | word (w : Word)
  | literal (kind : Kind) (value : Option Literal)
  /-- A part of an interpolated string, with the text between its delimiters. -/
  | text (kind : Kind) (text : String)
  deriving DecidableEq

def Symbol.sign (x : Symbol) : Sign := .word x.word

def Keyword.sign (k : Keyword) : Sign := .word k.word

/-! ### Tokens -/

namespace Token

/-- The text of a string part. -/
def partText (first last : Char) (t : Token) : String :=
  String.ofList (Lexeme.unescape (undelimited first last t.lexeme.toList))

/-- The gap between the two words of a keyword says nothing. -/
def sign (t : Token) : Sign :=
  match t.kind with
  | .intLiteral | .floatLiteral | .stringLiteral => .literal t.kind (literalOf? t)
  | .stringPartStart => .text .stringPartStart (t.partText '"' '|')
  | .stringPartMid => .text .stringPartMid (t.partText '|' '|')
  | .stringPartEnd => .text .stringPartEnd (t.partText '|' '"')
  | .keyword k => if k ∈ Keyword.singles then .word t.word else k.sign
  | _ => .word t.word

end Token

/-- Where a reader stands in a text: behind which kind, and for every parenthesis that is open,
whether it groups. -/
structure Mark where
  before : Kind
  groups : List Bool

namespace Mark

def start : Mark := ⟨.endOfFile, []⟩

/-- A parenthesis here begins a group. Behind a name, a type or a keyword that is no operator it
holds arguments, parameters or a condition. -/
def opensGroup (m : Mark) : Bool :=
  match m.before with
  | .identifier _ | .classId _ | .symbol .closeBracket => false
  | .keyword k => k == .and || k == .or || k == .wetuwn
  | _ => true

/-- Behind one token more. -/
def after (m : Mark) (k : Kind) : Mark :=
  match k with
  | .symbol .openParen => ⟨k, m.opensGroup :: m.groups⟩
  | .symbol .closeParen => ⟨k, m.groups.tail⟩
  | _ => ⟨k, m.groups⟩

/-- A token of the kind leaves no sign here, before one of the kind `next`. -/
def drops (m : Mark) (k next : Kind) : Bool :=
  match k with
  | .symbol .openParen => m.opensGroup
  | .symbol .closeParen => m.groups.headD false
  | .symbol .comma => next == .symbol .closeParen || next == .symbol .closeBrace
  | _ => false

end Mark

/-- The tokens without grouping parentheses and without commas before the end of a list. -/
def essential : Mark → List Token → List Token
  | _, [] => []
  | m, t :: ts =>
    let rest := essential (m.after t.kind) ts
    if m.drops t.kind ((ts.head?.map Token.kind).getD .endOfFile) then rest else t :: rest

namespace Grammar

variable (names : Names)

/-! ### Expressions -/

def nameSign (name : String) : Sign :=
  .word (names.nameWord name)

def classSign (name : String) : Sign :=
  .word ⟨.classId ((names.classes.id? name).getD 0), name⟩

/-- An operator or a keyword that the kind spells. -/
def kindSign (k : Kind) : Sign :=
  .word ⟨k, k.spelling⟩

def literalSign : Literal → Sign
  | .int n => .literal .intLiteral (some (.int n))
  | .float bits => .literal .floatLiteral (some (.float bits))
  | .str s => .literal .stringLiteral (some (.str s))
  | .bool true => Keyword.fax.sign
  | .bool false => Keyword.cap.sign
  | .nuww => Keyword.nuww.sign

/-- What is said of each, with commas between. -/
def separated {α : Type} (signs : α → List Sign) : List α → List Sign
  | [] => []
  | x :: xs => signs x ++ xs.flatMap fun y => Symbol.comma.sign :: signs y

mutual

def exprSigns : Expr → List Sign
  | .literal v _ => [literalSign v]
  | .format ss _ => segmentSigns .stringPartStart "" ss
  | .input prompt _ => Keyword.inpwt.sign :: Symbol.openParen.sign ::
      (promptSigns prompt ++ [Symbol.closeParen.sign])
  | .array es _ => Symbol.openBrace.sign :: (listSigns es ++ [Symbol.closeBrace.sign])
  | .prefixed op e _ => kindSign op.value.kind :: exprSigns e
  | .infixed l op r _ => exprSigns l ++ kindSign op.value.kind :: exprSigns r
  | .postfixed p op _ => placeSigns p ++ [kindSign op.value.kind]
  | .place p => placeSigns p

def promptSigns : Option Expr → List Sign
  | none => []
  | some e => exprSigns e

/-- Expressions with commas between them. -/
def listSigns : List Expr → List Sign
  | [] => []
  | e :: es => exprSigns e ++ tailSigns es

def tailSigns : List Expr → List Sign
  | [] => []
  | e :: es => Symbol.comma.sign :: (exprSigns e ++ tailSigns es)

/-- The parts of a string, from where `text` stands in one of the kind. -/
def segmentSigns (kind : Kind) (text : String) : List Segment → List Sign
  | [] => [.text .stringPartEnd text]
  | .text s :: ss => segmentSigns kind (text ++ s) ss
  | .expr e :: ss => .text kind text :: (exprSigns e ++ segmentSigns .stringPartMid "" ss)

def indexSigns : List Expr → List Sign
  | [] => []
  | e :: es => Symbol.openBracket.sign :: (exprSigns e ++ Symbol.closeBracket.sign :: indexSigns es)

def linkSigns : Link → List Sign
  | .name n => [nameSign names n.value]
  | .indexed n es _ => nameSign names n.value :: indexSigns es
  | .call n es _ => nameSign names n.value :: Symbol.openParen.sign ::
      (listSigns es ++ [Symbol.closeParen.sign])

def placeSigns : Place → List Sign
  | .link l => linkSigns l
  | .construct c es _ => classSign names c.value :: Symbol.openParen.sign ::
      (listSigns es ++ [Symbol.closeParen.sign])
  | .member p l _ => placeSigns p ++ Symbol.dot.sign :: linkSigns l

end

theorem listSigns_eq (es : List Expr) : listSigns names es = separated (exprSigns names) es := by
  have htail (es : List Expr) :
      tailSigns names es = es.flatMap fun e => Symbol.comma.sign :: exprSigns names e := by
    induction es with
    | nil => rfl
    | cons e es ih => rw [tailSigns, ih, List.flatMap_cons, List.cons_append]
  cases es with
  | nil => rfl
  | cons e es => rw [listSigns, htail, separated]

theorem indexSigns_eq (es : List Expr) : indexSigns names es = es.flatMap fun e =>
    Symbol.openBracket.sign :: (exprSigns names e ++ [Symbol.closeBracket.sign]) := by
  induction es with
  | nil => rfl
  | cons e es ih => rw [indexSigns, ih, List.flatMap_cons]; simp

/-! ### Statements -/

def baseSign : BaseType → Sign
  | .chan => Keyword.chan.sign
  | .kun => Keyword.kun.sign
  | .senpai => Keyword.senpai.sign
  | .sama => Keyword.sama.sign
  | .san => Keyword.san.sign
  | .input => Keyword.inpwt.sign
  | .cls id name => .word ⟨.classId id, name⟩

/-- A pair of brackets for every dimension. -/
def typeSigns (t : DataType) : List Sign :=
  baseSign t.base ::
    (List.replicate t.dimension [Symbol.openBracket.sign, Symbol.closeBracket.sign]).flatten

def valueSigns : Option Expr → List Sign
  | none => []
  | some e => Symbol.assign.sign :: exprSigns names e

/-- The mark of a constant. -/
def constSigns : Bool → List Sign
  | true => [Symbol.dash.sign, Keyword.dono.sign]
  | false => []

def declarationSigns (d : Declaration) : List Sign :=
  nameSign names d.name.value :: Symbol.dash.sign ::
    (typeSigns d.type ++ (constSigns d.isConst ++
      (valueSigns names d.value ++ [Symbol.terminator.sign])))

def assignmentSigns (a : Assignment) : List Sign :=
  placeSigns names a.target ++ kindSign a.op.value.kind :: exprSigns names a.value

def startSigns : LoopStart → List Sign
  | .declare d => declarationSigns names d
  | .assign a => assignmentSigns names a ++ [Symbol.terminator.sign]

def updateSigns : LoopUpdate → List Sign
  | .assign a => assignmentSigns names a
  | .postfixed p op _ => placeSigns names p ++ [kindSign op.value.kind]

/-- An expression between parentheses. -/
def conditionSigns (e : Expr) : List Sign :=
  Symbol.openParen.sign :: (exprSigns names e ++ [Symbol.closeParen.sign])

mutual

def stmtSigns : Stmt → List Sign
  | .declare d => declarationSigns names d
  | .assign a => assignmentSigns names a ++ [Symbol.terminator.sign]
  | .evaluate e _ => exprSigns names e ++ [Symbol.terminator.sign]
  | .print es _ => Keyword.pwint.sign :: Symbol.openParen.sign ::
      (listSigns names es ++ [Symbol.closeParen.sign, Symbol.terminator.sign])
  | .branch e body elseIfs elseBody _ => Keyword.iwf.sign ::
      (conditionSigns names e ++ (blockSigns body ++ (elseIfSigns elseIfs ++ elseSigns elseBody)))
  | .repeatWhile bodyFirst e body _ =>
      (if bodyFirst then Keyword.doWhiwe else Keyword.whiwe).sign ::
        (conditionSigns names e ++ blockSigns body)
  | .count start e update body _ => Keyword.fow.sign :: Symbol.openParen.sign ::
      (startSigns names start ++ (exprSigns names e ++ Symbol.terminator.sign ::
        (updateSigns names update ++ Symbol.closeParen.sign :: blockSigns body)))
  | .leave value _ => Keyword.wetuwn.sign :: (promptSigns names value ++ [Symbol.terminator.sign])
  | .stop _ => [Keyword.bweak.sign, Symbol.terminator.sign]

def blockSigns : Block → List Sign
  | ⟨body, _⟩ => Symbol.doubleOpenBracket.sign ::
      (stmtsSigns body ++ [Symbol.doubleCloseBracket.sign])

def stmtsSigns : List Stmt → List Sign
  | [] => []
  | s :: ss => stmtSigns s ++ stmtsSigns ss

def elseIfSigns : List ElseIf → List Sign
  | [] => []
  | ⟨e, body, _⟩ :: es =>
    Keyword.ewseIwf.sign :: (conditionSigns names e ++ (blockSigns body ++ elseIfSigns es))

def elseSigns : Option Block → List Sign
  | none => []
  | some b => Keyword.ewse.sign :: blockSigns b

end

theorem stmtsSigns_eq (ss : List Stmt) : stmtsSigns names ss = ss.flatMap (stmtSigns names) := by
  induction ss with
  | nil => rfl
  | cons s ss ih => rw [stmtsSigns, ih, List.flatMap_cons]

theorem elseIfSigns_eq (es : List ElseIf) : elseIfSigns names es = es.flatMap fun e =>
    Keyword.ewseIwf.sign :: (conditionSigns names e.condition ++ blockSigns names e.body) := by
  induction es with
  | nil => rfl
  | cons e es ih =>
    obtain ⟨condition, body, span⟩ := e
    rw [elseIfSigns, ih, List.flatMap_cons]
    simp

/-! ### Items -/

def paramSigns (p : Param) : List Sign :=
  nameSign names p.name.value :: Symbol.dash.sign :: typeSigns p.type

/-- Parameters between parentheses. -/
def paramsSigns (ps : List Param) : List Sign :=
  Symbol.openParen.sign :: (separated (paramSigns names) ps ++ [Symbol.closeParen.sign])

/-- A function may have the keyword for its name. -/
def functionNameSign (name : String) : Sign :=
  if name = Keyword.mainuwu.spelling then Keyword.mainuwu.sign else nameSign names name

def functionSigns (f : Function) : List Sign :=
  Keyword.fwunc.sign :: functionNameSign names f.name.value :: Symbol.dash.sign ::
    (typeSigns f.returnType ++ (paramsSigns names f.params ++ blockSigns names f.body))

def memberSigns : Member → List Sign
  | .property d => declarationSigns names d
  | .method f => functionSigns names f

def Member.start : Member → Position
  | .property d => d.span.start
  | .method f => f.span.start

/-- The members of a class in source order. -/
def classMembers (c : Class) : List Member :=
  sortBy (fun m n => m.start ≤ n.start) (c.properties.map .property ++ c.methods.map .method)

def classItemSigns (c : Class) : List Sign :=
  Keyword.cwass.sign :: classSign names c.name.value ::
    (paramsSigns names c.params ++ Symbol.doubleOpenBracket.sign ::
      ((classMembers c).flatMap (memberSigns names) ++ [Symbol.doubleCloseBracket.sign]))

def itemSigns : Item → List Sign
  | .global d => Keyword.gwobaw.sign :: declarationSigns names d
  | .function f | .entry f => functionSigns names f
  | .cls c => classItemSigns names c

def Item.start : Item → Position
  | .global d => d.span.start
  | .function f | .entry f => f.span.start
  | .cls c => c.span.start

end Grammar

/-- The items of a program in source order. -/
def Program.items (p : Program) : List Item :=
  sortBy (fun i j => i.start ≤ j.start) (p.globals.map .global ++ (p.functions.map .function ++
    (p.classes.map .cls ++ [.entry p.entry])))

/-- All that a program says. -/
def Program.signs (names : Names) (p : Program) : List Sign :=
  p.items.flatMap (itemSigns names) ++ [.word ⟨.endOfFile, ""⟩]

end Uwu
