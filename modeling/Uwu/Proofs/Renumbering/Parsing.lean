import Uwu.Proofs.Renumbering.Mirrors

/-! Every parser, from expressions to programs, reads tokens with other numbers for their names as
it reads the old ones. Expressions hold no numbers; types do. -/

namespace Uwu

variable {m n : Names}

namespace Grammar

/-! ### Expressions -/

theorem literalOf?_renumber (ρ : Renumbering) (t : Token) :
    literalOf? (t.renumber ρ) = literalOf? t := by
  obtain ⟨kind, lexeme, span⟩ := t
  cases kind <;> rfl

theorem operand?_renumber (ρ : Renumbering) (expr : Power → Parse Expr) (k : Kind) :
    operand? expr (k.renumber ρ) = operand? expr k := by
  cases k <;> rfl

theorem steady_literal : Steady m n literal := by
  refine mirrors_advance.bind fun t => ?_
  rw [literalOf?_renumber]
  split
  next => exact steady_pure _
  next => exact mirrors_throw _

section Expressions

variable {expr : Power → Parse Expr} (hexpr : ∀ power, Steady m n (expr power))
include hexpr

theorem steady_segments (l : Nat) : Steady m n (segments expr l) := by
  induction l with
  | zero => exact mirrors_failExpected _
  | succ l ih =>
    refine (hexpr .lowest).bind fun e => mirrors_currentKind_bind (fun k _ => ?_)
      (fun _ _ => mirrors_failExpected _) fun _ _ => mirrors_failExpected _
    split
    next => exact mirrors_advance.bind fun t => ih.bind fun ⟨rest, stop⟩ => steady_pure _
    next => exact mirrors_advance.bind fun t => steady_pure _
    next => exact mirrors_failExpected _

theorem steady_format : Steady m n (format expr) :=
  mirrors_advance.bind fun _ => steady_bound.bind fun l =>
    (steady_segments hexpr l).bind fun _ => steady_pure _

theorem steady_input : Steady m n (input expr) := by
  refine mirrors_advance.bind fun t => (steady_expectSymbol _).bind fun _ => ?_
  have rest (prompt : Option Expr) : Steady m n (do
      let stop ← expectSymbol .closeParen
      return Expr.input prompt (t.span.through stop)) :=
    (steady_expectSymbol _).bind fun _ => steady_pure _
  exact mirrors_ifKind rfl ((steady_pure none).bind rest)
    (((hexpr .lowest).map some).bind rest)

theorem steady_array : Steady m n (array expr) :=
  mirrors_advance.bind fun _ => (Steady.listTo _ (hexpr .lowest)).bind fun _ => steady_pure _

theorem steady_grouping : Steady m n (grouping expr) :=
  mirrors_advance.bind fun _ => (hexpr .lowest).bind fun _ =>
    (steady_expectSymbol _).bind fun _ => steady_pure _

theorem steady_args : Steady m n (args expr) :=
  (steady_expectSymbol _).bind fun _ => Steady.listTo _ (hexpr .lowest)

theorem steady_index : Steady m n (index expr) :=
  mirrors_advance.bind fun _ => (hexpr .lowest).bind fun _ =>
    (steady_expectSymbol _).bind fun _ => steady_pure _

theorem steady_link : Steady m n (link expr) := by
  refine steady_expectName.bind fun name => mirrors_currentKind_bind (fun k _ => ?_)
    (fun _ _ => steady_pure _) fun _ _ => steady_pure _
  split
  next => exact (steady_args hexpr).bind fun _ => steady_pure _
  next =>
    exact (Steady.many (Kind.beq_symbol_renumber _ · _) (steady_index hexpr)).bind fun _ =>
      steady_pure _
  next => exact steady_pure _

theorem steady_construction : Steady m n (construction expr) :=
  mirrors_advance.bind fun _ =>
    mirrors_ifKind rfl ((steady_args hexpr).bind fun _ => steady_pure _) (mirrors_failExpected _)

theorem steady_member : Steady m n (member expr) :=
  mirrors_advance.bind fun _ => steady_link hexpr

theorem steady_place : Steady m n (place expr) := by
  have members (first : Place) : Steady m n (do
      let members ← many (· == .symbol .dot) (member expr)
      return members.foldl addMember first) :=
    (Steady.many (Kind.beq_symbol_renumber _ · _) (steady_member hexpr)).bind fun _ => steady_pure _
  have named : Steady m n (Place.link <$> link expr) := (steady_link hexpr).map _
  refine mirrors_currentKind_bind (fun k hk => ?_) (fun _ _ => named.bind members) fun _ _ =>
    (steady_construction hexpr).bind members
  split
  next => exact (steady_construction hexpr).bind members
  next => exact named.bind members

theorem steady_prefixed (op : PrefixOp) : Steady m n (prefixed expr op) :=
  mirrors_advance.bind fun _ => (hexpr .prefixed).bind fun _ => steady_pure _

theorem steady_operand? {k : Kind} {p : Parse Expr} (h : operand? expr k = some p) :
    Steady m n p := by
  simp only [operand?] at h
  split at h
  all_goals try cases Option.some.inj h
  case h_7 => exact steady_input hexpr
  case h_8 => exact steady_format hexpr
  case h_9 => exact steady_array hexpr
  case h_10 => exact steady_grouping hexpr
  case h_11 | h_12 => exact (steady_place hexpr).map _
  case h_13 =>
    obtain ⟨op, -, rfl⟩ := Option.map_eq_some_iff.mp h
    exact steady_prefixed hexpr op
  all_goals exact steady_literal

theorem steady_operand : Steady m n (operand expr) := by
  refine mirrors_currentKind.bind fun k => ?_
  rw [operand?_renumber]
  split
  next h => exact steady_operand? hexpr h
  next => exact mirrors_failUnexpected _

theorem steady_operators (power : Power) (l : Nat) (left : Expr) :
    Steady m n (operators expr power l left) := by
  induction l generalizing left with
  | zero => exact steady_pure _
  | succ l ih =>
    refine mirrors_current_bind fun t _ => ?_
    simp only [Token.kind_renumber, Kind.power_renumber, Kind.infixOp_renumber,
      Kind.postfixOp_renumber]
    split
    next => exact steady_pure _
    next =>
      split
      next =>
        exact mirrors_advance.bind fun _ => (hexpr _).bind fun right => ih _
      next =>
        refine mirrors_advance.bind fun _ => ?_
        split
        next => exact ih _
        next => exact mirrors_throw _
      next =>
        rw [Token.described_renumber]
        exact mirrors_failHere _

end Expressions

theorem steady_exprWithin (l : Nat) (power : Power) : Steady m n (exprWithin l power) := by
  induction l generalizing power with
  | zero => exact mirrors_failUnexpected _
  | succ l ih =>
    exact (steady_operand ih).bind fun left => steady_bound.bind fun k =>
      steady_operators ih power k left

theorem steady_expression (power : Power) : Steady m n (expression power) :=
  steady_bound.bind fun l => steady_exprWithin l power

/-! ### Types -/

theorem typeOf?_renumber {t : Token} (ht : t.Named m n) :
    typeOf? n (t.renumber (.between m n)) =
      (typeOf? m t).map (DataType.renumber (m.classNumbers n)) := by
  obtain ⟨kind, lexeme, span⟩ := t
  cases kind with
  | classId id =>
    have hname := ht id rfl
    change some (DataType.mk (.cls _ ((n.classes.name? (m.classNumbers n id)).getD lexeme)) 0) = _
    rw [hname]
    rfl
  | keyword k => cases k <;> rfl
  | _ => rfl

theorem mirrors_unitType :
    Mirrors m n (DataType.renumber (m.classNumbers n)) (unitType m) (unitType n) := by
  refine mirrors_current_bind fun t ht => ?_
  rw [typeOf?_renumber ht]
  cases typeOf? m t with
  | none => exact mirrors_failExpected _
  | some type => exact mirrors_advance.bind fun _ => mirrors_pure rfl

theorem steady_dimension : Steady m n dimension :=
  mirrors_advance.bind fun _ => (steady_expectSymbol _).bind fun _ => steady_pure _

theorem mirrors_dataType :
    Mirrors m n (DataType.renumber (m.classNumbers n)) (dataType m) (dataType n) :=
  mirrors_unitType.bind fun _ =>
    (Steady.many (Kind.beq_symbol_renumber _ · _) steady_dimension).bind fun _ => mirrors_pure rfl

/-! ### Declarations and assignments -/

theorem steady_constMark : Steady m n constMark := by
  refine mirrors_currentKind.bind fun j => mirrors_nextKind.bind fun k => ?_
  simp only [Kind.renumber_eq_symbol, Kind.renumber_eq_keyword]
  split
  next => exact mirrors_advance.bind fun _ => mirrors_advance.bind fun _ => steady_pure _
  next => exact steady_pure _

theorem mirrors_declaration :
    Mirrors m n (Declaration.renumber (m.classNumbers n)) (declaration m) (declaration n) := by
  refine steady_expectName.bind fun name => (steady_expectSymbol _).bind fun _ =>
    mirrors_dataType.bind fun type => steady_constMark.bind fun isConst => ?_
  have rest (value : Option Expr) :
      Mirrors m n (Declaration.renumber (m.classNumbers n))
        (do
          let stop ← expectSymbol .terminator
          if isConst && value.isNone then record ⟨.constantWithoutValue name.value, name.span⟩
          return ⟨name, type, isConst, value, name.span.through stop⟩)
        (do
          let stop ← expectSymbol .terminator
          if isConst && value.isNone then record ⟨.constantWithoutValue name.value, name.span⟩
          return ⟨name, type.renumber (m.classNumbers n), isConst, value,
            name.span.through stop⟩) := by
    refine (steady_expectSymbol _).bind fun _ => ?_
    dsimp only
    split
    next => exact (steady_record _).bind fun _ => mirrors_pure rfl
    next => exact mirrors_pure rfl
  refine mirrors_ifKind rfl ?_ ((steady_pure none).bind rest)
  exact mirrors_advance.bind fun _ => ((steady_expression _).map some).bind rest

theorem steady_assignmentTo (target : Place) (op : AssignOp) :
    Steady m n (assignmentTo target op) := by
  rw [assignmentTo]
  split
  next =>
    exact mirrors_advance.bind fun _ => (steady_expression _).bind fun _ => steady_pure _
  next =>
    refine mirrors_current_bind fun t _ => ?_
    rw [Token.described_renumber]
    exact mirrors_throw _

theorem steady_place_expression : Steady m n (place expression) :=
  steady_place steady_expression

theorem steady_args_expression : Steady m n (args expression) :=
  steady_args steady_expression

theorem mirrors_placeStmt :
    Mirrors m n (Stmt.renumber (m.classNumbers n)) placeStmt placeStmt := by
  refine steady_place_expression.bind fun target => mirrors_currentKind.bind fun kind => ?_
  rw [Kind.assignOp_renumber, Kind.postfixOp_renumber]
  split
  next =>
    exact (steady_assignmentTo _ _).bind fun a => (steady_expectSymbol _).bind fun _ =>
      mirrors_pure rfl
  next =>
    exact mirrors_advance.bind fun t => (steady_expectSymbol _).bind fun _ => mirrors_pure rfl
  next =>
    split
    next => exact mirrors_failUnexpected _
    next => exact (steady_expectSymbol _).bind fun _ => mirrors_pure rfl

/-! ### Simple statements -/

theorem mirrors_printStmt :
    Mirrors m n (Stmt.renumber (m.classNumbers n)) printStmt printStmt :=
  mirrors_advance.bind fun _ => steady_args_expression.bind fun _ =>
    (steady_expectSymbol _).bind fun _ => mirrors_pure rfl

theorem mirrors_leaveStmt :
    Mirrors m n (Stmt.renumber (m.classNumbers n)) leaveStmt leaveStmt := by
  refine mirrors_advance.bind fun t => ?_
  have rest (value : Option Expr) :
      Mirrors m n (Stmt.renumber (m.classNumbers n))
        (do
          let stop ← expectSymbol .terminator
          return .leave value (t.span.through stop))
        (do
          let stop ← expectSymbol .terminator
          return .leave value (t.span.through stop)) :=
    (steady_expectSymbol _).bind fun _ => mirrors_pure rfl
  exact mirrors_ifKind rfl ((steady_pure none).bind rest)
    (((steady_expression _).map some).bind rest)

theorem mirrors_stopStmt :
    Mirrors m n (Stmt.renumber (m.classNumbers n)) stopStmt stopStmt := by
  refine mirrors_advance.bind fun t => (steady_expectSymbol _).bind fun _ =>
    steady_isLooping.bind fun looping => ?_
  dsimp only
  split
  next => exact (steady_record _).bind fun _ => mirrors_pure rfl
  next => exact mirrors_pure rfl

/-! ### Statements with blocks -/

theorem steady_condition : Steady m n condition :=
  (steady_expectSymbol _).bind fun _ => (steady_expression _).bind fun _ =>
    (steady_expectSymbol _).bind fun _ => steady_pure _

theorem mirrors_loopStart :
    Mirrors m n (LoopStart.renumber (m.classNumbers n)) (loopStart m) (loopStart n) := by
  refine steady_declarationAhead.bind fun ahead => ?_
  cases ahead with
  | true => exact mirrors_declaration.bind fun d => mirrors_pure rfl
  | false =>
    refine steady_place_expression.bind fun target => mirrors_currentKind.bind fun k => ?_
    rw [Kind.assignOp_renumber]
    split
    next =>
      exact (steady_assignmentTo _ _).bind fun a => (steady_expectSymbol _).bind fun _ =>
        mirrors_pure rfl
    next => exact mirrors_failExpected _

theorem steady_loopUpdate : Steady m n loopUpdate := by
  refine steady_place_expression.bind fun target => mirrors_currentKind.bind fun kind => ?_
  rw [Kind.assignOp_renumber, Kind.postfixOp_renumber]
  split
  next => exact (steady_assignmentTo _ _).bind fun a => steady_pure _
  next => exact mirrors_advance.bind fun t => steady_pure _
  next => exact mirrors_failExpected _

theorem mirrors_failNoStmt :
    Mirrors m n (Stmt.renumber (m.classNumbers n)) failNoStmt failNoStmt :=
  mirrors_current_bind fun t _ => by
    rw [Token.described_renumber]
    exact mirrors_failHere _

section Blocks

variable {p q : Parse Block} (hblock : Mirrors m n (Block.renumber (m.classNumbers n)) p q)
include hblock

theorem mirrors_elseIf :
    Mirrors m n (ElseIf.renumber (m.classNumbers n)) (elseIf p) (elseIf q) :=
  mirrors_advance.bind fun t => steady_condition.bind fun e => hblock.bind fun body =>
    mirrors_pure (by rw [Block.span_renumber]; rfl)

theorem mirrors_elseBlock :
    Mirrors m n (Option.map (Block.renumber (m.classNumbers n))) (elseBlock p) (elseBlock q) :=
  mirrors_ifKind rfl (mirrors_advance.bind fun _ => hblock.map fun _ => rfl) (mirrors_pure rfl)

theorem mirrors_branchStmt :
    Mirrors m n (Stmt.renumber (m.classNumbers n)) (branchStmt p) (branchStmt q) := by
  refine mirrors_advance.bind fun t => steady_condition.bind fun e => hblock.bind fun body =>
    (Mirrors.many (Kind.beq_keyword_renumber _ · _) (mirrors_elseIf hblock)).bind fun elseIfs =>
      (mirrors_elseBlock hblock).bind fun elseBody => mirrors_pure ?_
  have hlast (es : List ElseIf) : (es.map (ElseIf.renumber (m.classNumbers n))).getLast?.map
      ElseIf.span = es.getLast?.map ElseIf.span := by
    simp [Function.comp_def]
  have helse (b : Option Block) :
      (b.map (Block.renumber (m.classNumbers n))).map Block.span = b.map Block.span := by
    simp [Function.comp_def]
  rw [Stmt.renumber_branch, hlast, helse, Block.span_renumber]
  rfl

theorem mirrors_repeatStmt :
    Mirrors m n (Stmt.renumber (m.classNumbers n)) (repeatStmt p) (repeatStmt q) := by
  refine mirrors_advance.bind fun t => steady_condition.bind fun e =>
    hblock.insideLoop.bind fun body => mirrors_pure ?_
  rw [Stmt.renumber, Token.kind_renumber, Kind.beq_keyword_renumber, Block.span_renumber]
  rfl

theorem mirrors_countStmt :
    Mirrors m n (Stmt.renumber (m.classNumbers n)) (countStmt m p) (countStmt n q) := by
  refine mirrors_advance.bind fun t => (steady_expectSymbol _).bind fun _ =>
    mirrors_loopStart.bind fun start => (steady_expression _).bind fun e =>
      (steady_expectSymbol _).bind fun _ => steady_loopUpdate.bind fun update =>
        (steady_expectSymbol _).bind fun _ => hblock.insideLoop.bind fun body => mirrors_pure ?_
  rw [Stmt.renumber, Block.span_renumber]
  rfl

theorem mirrors_stmt :
    Mirrors m n (Stmt.renumber (m.classNumbers n)) (stmt m p) (stmt n q) := by
  refine mirrors_currentKind_bind (fun k hk => ?_) (fun _ _ => ?_) fun _ _ => mirrors_placeStmt
  · cases k with
    | keyword k =>
      cases k with
      | iwf => exact mirrors_branchStmt hblock
      | whiwe | doWhiwe => exact mirrors_repeatStmt hblock
      | fow => exact mirrors_countStmt hblock
      | wetuwn => exact mirrors_leaveStmt
      | bweak => exact mirrors_stopStmt
      | pwint => exact mirrors_printStmt
      | _ => exact mirrors_failNoStmt
    | identifier id => cases hk
    | classId id => cases hk
    | _ => exact mirrors_failNoStmt
  · refine steady_declarationAhead.bind fun ahead => ?_
    cases ahead with
    | true => exact mirrors_declaration.bind fun d => mirrors_pure rfl
    | false => exact mirrors_placeStmt

end Blocks

/-! ### Blocks -/

theorem insideBlock_renumber (ρ : Renumbering) (k : Kind) :
    insideBlock (k.renumber ρ) = insideBlock k := by
  have hend : (k.renumber ρ == .endOfFile) = (k == .endOfFile) := Kind.beq_renumber ρ k rfl
  simp only [insideBlock, bne, Kind.beq_symbol_renumber, hend]

theorem mirrors_blockOf {p q : Parse Stmt}
    (hp : Mirrors m n (Stmt.renumber (m.classNumbers n)) p q) :
    Mirrors m n (Block.renumber (m.classNumbers n)) (blockOf p) (blockOf q) := by
  have hbody := Mirrors.many (insideBlock_renumber (.between m n))
    (hp.recovering (skipStatement_renumber _) skipStatement_suffix)
  refine (steady_expectSymbol _).bind fun _ => hbody.bind fun body =>
    (steady_expectSymbol _).bind fun _ => mirrors_pure ?_
  rw [Block.renumber, renumberStmts_eq, filterMap_id_map]

theorem mirrors_stmtWithin (l : Nat) :
    Mirrors m n (Stmt.renumber (m.classNumbers n)) (stmtWithin m l) (stmtWithin n l) := by
  induction l with
  | zero => exact mirrors_failNoStmt
  | succ l ih => exact mirrors_stmt (mirrors_blockOf ih)

theorem mirrors_codeBlock :
    Mirrors m n (Block.renumber (m.classNumbers n)) (codeBlock m) (codeBlock n) :=
  mirrors_blockOf (steady_bound.bind mirrors_stmtWithin)

/-! ### Items -/

theorem mirrors_param :
    Mirrors m n (Param.renumber (m.classNumbers n)) (param m) (param n) :=
  steady_expectName.bind fun _ => (steady_expectSymbol _).bind fun _ =>
    mirrors_dataType.bind fun _ => steady_spanBefore.bind fun _ => mirrors_pure rfl

theorem mirrors_params :
    Mirrors m n (List.map (Param.renumber (m.classNumbers n))) (params m) (params n) :=
  (steady_expectSymbol _).bind fun _ => (Mirrors.listTo _ mirrors_param).bind fun _ =>
    mirrors_pure rfl

theorem steady_expectKeyword (k : Keyword) : Steady m n (expectKeyword k) :=
  (mirrors_expect rfl).map fun _ => rfl

theorem steady_functionName : Steady m n functionName :=
  mirrors_ifKind rfl (mirrors_advance.bind fun _ => steady_pure _) steady_expectName

theorem mirrors_function :
    Mirrors m n (Function.renumber (m.classNumbers n)) (function m) (function n) := by
  refine (steady_expectKeyword _).bind fun _ => steady_functionName.bind fun _ =>
    (steady_expectSymbol _).bind fun _ => mirrors_dataType.bind fun _ =>
      mirrors_params.bind fun _ => mirrors_codeBlock.bind fun _ => mirrors_pure ?_
  rw [Block.span_renumber]
  rfl

theorem mirrors_global :
    Mirrors m n (Declaration.renumber (m.classNumbers n)) (global m) (global n) :=
  (steady_expectKeyword _).bind fun _ => mirrors_declaration.bind fun _ => mirrors_pure rfl

def Member.renumber (f : Nat → Nat) : Member → Member
  | property d => property (d.renumber f)
  | method g => method (g.renumber f)

theorem mirrors_classMember :
    Mirrors m n (Member.renumber (m.classNumbers n)) (classMember m) (classMember n) := by
  refine mirrors_ifKind rfl (mirrors_function.bind fun _ => mirrors_pure rfl)
    (steady_declarationAhead.bind fun ahead => ?_)
  cases ahead with
  | true => exact mirrors_declaration.bind fun _ => mirrors_pure rfl
  | false => exact mirrors_failUnexpected _

theorem mirrors_className :
    Mirrors m n (Prod.map id (DataType.renumber (m.classNumbers n))) (className m)
      (className n) := by
  refine mirrors_current_bind fun t _ => ?_
  obtain ⟨kind, lexeme, span⟩ := t
  cases kind with
  | classId id => exact mirrors_unitType.bind fun _ => mirrors_pure rfl
  | _ => exact mirrors_failExpected _

theorem property?_renumber (f : Nat → Nat) (x : Member) :
    (x.renumber f).property? = x.property?.map (Declaration.renumber f) := by
  cases x <;> rfl

theorem method?_renumber (f : Nat → Nat) (x : Member) :
    (x.renumber f).method? = x.method?.map (Function.renumber f) := by
  cases x <;> rfl

theorem mirrors_classItem :
    Mirrors m n (Class.renumber (m.classNumbers n)) (classItem m) (classItem n) := by
  have hmembers := Mirrors.many (insideBlock_renumber (.between m n))
    (mirrors_classMember.recovering (skipStatement_renumber _) skipStatement_suffix)
  refine (steady_expectKeyword _).bind fun _ => mirrors_className.bind fun ⟨name, type⟩ =>
    mirrors_params.bind fun ps => (steady_expectSymbol _).bind fun _ =>
      hmembers.bind fun members => (steady_expectSymbol _).bind fun _ => mirrors_pure ?_
  rw [filterMap_id_map, filterMap_map_comm (property?_renumber _),
    filterMap_map_comm (method?_renumber _)]
  rfl

/-! ### Programs -/

def Item.renumber (f : Nat → Nat) : Item → Item
  | global d => global (d.renumber f)
  | function g => function (g.renumber f)
  | cls c => cls (c.renumber f)
  | entry g => entry (g.renumber f)

theorem mirrors_item : Mirrors m n (Item.renumber (m.classNumbers n)) (item m) (item n) := by
  have failItem (reason : String) : Mirrors m n (Item.renumber (m.classNumbers n))
      (do failHere (.unexpectedFor (← current).lexeme reason))
      (do failHere (.unexpectedFor (← current).lexeme reason)) :=
    mirrors_current_bind fun _ _ => mirrors_failHere _
  refine mirrors_currentKind_bind (fun k hk => ?_) (fun _ _ => failItem _) fun _ _ => failItem _
  split
  next => exact mirrors_global.bind fun _ => mirrors_pure rfl
  next => exact mirrors_classItem.bind fun _ => mirrors_pure rfl
  next =>
    refine mirrors_nextKind.bind fun k => mirrors_function.bind fun g => ?_
    rw [Kind.beq_keyword_renumber]
    split <;> exact mirrors_pure rfl
  next => exact failItem _

theorem mirrors_itemsUpTo (l : Nat) (hasEntry : Bool) :
    Mirrors m n (List.map (Item.renumber (m.classNumbers n))) (itemsUpTo m l hasEntry)
      (itemsUpTo n l hasEntry) := by
  induction l generalizing hasEntry with
  | zero => exact mirrors_pure rfl
  | succ l ih =>
    refine mirrors_ifKind rfl (mirrors_pure rfl) ?_
    refine (mirrors_item.recovering (skipItem_renumber _) skipItem_suffix).bind fun found => ?_
    cases found with
    | none => exact ih hasEntry
    | some i =>
      cases i with
      | entry g =>
        have rest : Mirrors m n (List.map (Item.renumber (m.classNumbers n)))
            (do return .entry g :: (← itemsUpTo m l true))
            (do return .entry (g.renumber (m.classNumbers n)) :: (← itemsUpTo n l true)) :=
          (ih true).bind fun _ => mirrors_pure rfl
        cases hasEntry with
        | true => exact (steady_record _).bind fun _ => rest
        | false => exact rest
      | _ => exact (ih hasEntry).bind fun _ => mirrors_pure rfl

section Picks

variable (f : Nat → Nat) (i : Item)

theorem global?_renumber : (i.renumber f).global? = i.global?.map (Declaration.renumber f) := by
  cases i <;> rfl

theorem function?_renumber : (i.renumber f).function? = i.function?.map (Function.renumber f) := by
  cases i <;> rfl

theorem class?_renumber : (i.renumber f).class? = i.class?.map (Class.renumber f) := by
  cases i <;> rfl

theorem entry?_renumber : Item.entry? (i.renumber f) = i.entry?.map (Function.renumber f) := by
  cases i <;> rfl

end Picks

theorem mirrors_items :
    Mirrors m n (List.map (Item.renumber (m.classNumbers n))) (items m) (items n) := by
  refine steady_bound.bind fun l => (mirrors_itemsUpTo l false).bind fun is => ?_
  rw [filterMap_map_comm (entry?_renumber _), List.isEmpty_map]
  dsimp only
  split
  next =>
    exact mirrors_current_bind fun _ _ => (steady_record _).bind fun _ => mirrors_pure rfl
  next => exact mirrors_pure rfl

theorem Stream.ofTokens_renumber (ρ : Renumbering) (tokens : List Token) :
    Stream.ofTokens (tokens.map (Token.renumber ρ)) = (Stream.ofTokens tokens).renumber ρ := by
  have hfilter : (tokens.map (Token.renumber ρ)).filter (fun t => !t.kind.isTrivia) =
      (tokens.filter fun t => !t.kind.isTrivia).map (Token.renumber ρ) := by
    simp [List.filter_map, Function.comp_def]
  simp only [ofTokens, hfilter, List.getLast?_map]
  generalize tokens.filter (fun t => !t.kind.isTrivia) = ts
  cases ts.getLast? with
  | none => rfl
  | some t =>
    simp only [Option.map_some, Token.kind_renumber, Kind.renumber_eq_endOfFile]
    split
    · rw [← List.map_dropLast]
      cases ts.dropLast <;> rfl
    · cases ts <;> rfl

theorem Stream.tokens_ofTokens_subset (tokens : List Token) :
    (Stream.ofTokens tokens).tokens ⊆ tokens := by
  have hfilter : (tokens.filter fun t => !t.kind.isTrivia) ⊆ tokens := List.filter_sublist.subset
  simp only [ofTokens]
  split
  next => exact List.nil_subset _
  next =>
    split
    · exact List.Subset.trans (List.dropLast_subset _) hfilter
    · exact hfilter

end Grammar

/-- Where the classes of tokens have the same names by either number, the program on the new
numbers is the old one with new numbers, and the mistakes are the same. -/
theorem Program.ofTokens_renumber {tokens : List Token} (h : ∀ t ∈ tokens, t.Named m n) :
    ofTokens (tokens.map (Token.renumber (.between m n))) n =
      (ofTokens tokens m).map (renumber (m.classNumbers n)) := by
  have hitems := Grammar.mirrors_items (.ofTokens tokens)
    fun t ht => h t (Grammar.Stream.tokens_ofTokens_subset tokens ht)
  have hstate : Grammar.State.ofTokens (tokens.map (Token.renumber (.between m n))) =
      (Grammar.State.ofTokens tokens).renumber (.between m n) :=
    congrArg (Grammar.State.mk · [] 0) (Grammar.Stream.ofTokens_renumber _ tokens)
  simp only [ofTokens, hstate]
  cases hrun : Grammar.items m (.ofTokens tokens) with
  | error d s =>
    rw [hrun] at hitems
    rw [hitems.1]
    rfl
  | ok is s =>
    rw [hrun] at hitems
    rw [hitems.1]
    have hrecorded : (s.renumber (.between m n)).recorded = s.recorded := rfl
    simp only [hrecorded, Grammar.filterMap_map_comm (Grammar.entry?_renumber _),
      Grammar.filterMap_map_comm (Grammar.global?_renumber _),
      Grammar.filterMap_map_comm (Grammar.function?_renumber _),
      Grammar.filterMap_map_comm (Grammar.class?_renumber _)]
    cases s.recorded with
    | cons d ds => rfl
    | nil => cases is.filterMap Grammar.Item.entry? <;> rfl

end Uwu
