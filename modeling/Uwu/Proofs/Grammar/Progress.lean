import Uwu.Proofs.Grammar.Reads

/-! Every parser of expressions, types and simple statements goes a journey, and takes a token at
least when it succeeds. A statement with blocks does so when the parser of its blocks does. -/

namespace Uwu.Grammar

/-- An operand begins with a plain token. -/
theorem isPlain_of_operand? {expr : Power → Parse Expr} {k : Kind} {p : Parse Expr}
    (h : operand? expr k = some p) : isPlain k := by
  cases k with
  | symbol x => cases x <;> first | rfl | cases h
  | endOfFile => cases h
  | _ => rfl

theorem power_of_isPlain_eq_false {k : Kind} (h : isPlain k = false) : k.power = .lowest := by
  cases k with
  | symbol x => cases x <;> first | rfl | cases h
  | endOfFile => rfl
  | _ => cases h

/-- An operator behind an operand is a plain token. -/
theorem isPlain_of_exceeds {k : Kind} {power : Power} (h : k.power.exceeds power) : isPlain k := by
  cases hk : isPlain k with
  | true => rfl
  | false => simp [power_of_isPlain_eq_false hk, Power.exceeds, Power.rank] at h

variable {R : State → State → Prop} [Journey R] {s : State}

/-! ### Expressions -/

theorem reads_literal (h : isPlain s.kind) : Reads R 1 literal s := by
  refine .next h fun t _ => ?_
  cases literalOf? t with
  | some => exact reads_pure _
  | none => exact reads_throw _

section Expressions

variable {expr : Power → Parse Expr} (hexpr : ∀ power t, Reads R 1 (expr power) t)
include hexpr

theorem reads_segments (n : Nat) : Reads R 1 (segments expr n) s := by
  induction n generalizing s with
  | zero => exact reads_failExpected _
  | succ n ih =>
    refine (hexpr .lowest s).andThen fun e t => ?_
    rw [reads_currentKind_bind]
    split
    next h =>
      refine (reads_advance (by rw [h]; rfl)).zero.andThen fun _ _ => ?_
      exact ih.zero.result _
    next h => exact (reads_advance (by rw [h]; rfl)).zero.result _
    next => exact reads_failExpected _

theorem reads_format (h : isPlain s.kind) : Reads R 1 (format expr) s := by
  refine .next h fun _ t => ?_
  rw [reads_bound_bind]
  exact (reads_segments hexpr _).zero.result _

theorem reads_input (h : isPlain s.kind) : Reads R 1 (input expr) s := by
  refine .next h fun _ t => (reads_expectSymbol rfl).zero.andThen fun _ t => ?_
  simp only [reads_currentKind_bind]
  split
  next => exact (reads_pure _).andThen fun _ _ => ((reads_expectSymbol rfl).result _).zero
  next =>
    refine ((hexpr .lowest t).map _).zero.andThen fun _ _ => ?_
    exact ((reads_expectSymbol rfl).result _).zero

theorem reads_array (h : isPlain s.kind) : Reads R 1 (array expr) s := by
  refine .next h fun _ t => ?_
  exact ((reads_listTo (fun t => (hexpr .lowest t).zero) rfl).result _).zero

theorem reads_grouping (h : isPlain s.kind) : Reads R 1 (grouping expr) s := by
  refine .next h fun _ t => (hexpr .lowest t).zero.andThen fun _ t => ?_
  exact ((reads_expectSymbol rfl).result _).zero

theorem reads_args : Reads R 1 (args expr) s :=
  (reads_expectSymbol rfl).andThen fun _ _ =>
    (reads_listTo (fun t => (hexpr .lowest t).zero) rfl).zero

theorem reads_index (h : isPlain s.kind) : Reads R 1 (index expr) s := by
  refine .next h fun _ t => (hexpr .lowest t).zero.andThen fun _ t => ?_
  exact ((reads_expectSymbol rfl).result _).zero

theorem reads_link : Reads R 1 (link expr) s := by
  refine reads_expectName.andThen fun name t => ?_
  rw [reads_currentKind_bind]
  split
  next => exact ((reads_args hexpr).result _).zero
  next =>
    refine (reads_many fun t h => ?_).result _
    exact (reads_index hexpr (by rw [beq_iff_eq.mp h]; rfl)).zero
  next => exact reads_pure _

theorem reads_construction (h : isPlain s.kind) : Reads R 1 (construction expr) s := by
  refine .next h fun _ t => ?_
  rw [reads_currentKind_bind]
  split
  next => exact ((reads_args hexpr).result _).zero
  next => exact reads_failExpected _

theorem reads_member (h : isPlain s.kind) : Reads R 1 (member expr) s :=
  .next h fun _ _ => (reads_link hexpr).zero

theorem reads_place : Reads R 1 (place expr) s := by
  have members (first : Place) (t : State) : Reads R 0 (do
      let members ← many (· == .symbol .dot) (member expr)
      return members.foldl addMember first) t := by
    refine (reads_many fun t h => ?_).result _
    exact (reads_member hexpr (by rw [beq_iff_eq.mp h]; rfl)).zero
  simp only [place, reads_currentKind_bind]
  split
  next h => exact (reads_construction hexpr (by rw [h]; rfl)).andThen members
  next => exact ((reads_link hexpr).map _).andThen members

theorem reads_prefixed (op : PrefixOp) (h : isPlain s.kind) : Reads R 1 (prefixed expr op) s :=
  .next h fun _ t => ((hexpr .prefixed t).result _).zero

theorem reads_operand? {p : Parse Expr} (h : operand? expr s.kind = some p) : Reads R 1 p s := by
  have hs := isPlain_of_operand? h
  simp only [operand?] at h
  split at h
  all_goals try cases Option.some.inj h
  case h_7 => exact reads_input hexpr hs
  case h_8 => exact reads_format hexpr hs
  case h_9 => exact reads_array hexpr hs
  case h_10 => exact reads_grouping hexpr hs
  case h_11 | h_12 => exact (reads_place hexpr).map _
  case h_13 =>
    obtain ⟨op, -, rfl⟩ := Option.map_eq_some_iff.mp h
    exact reads_prefixed hexpr op hs
  all_goals exact reads_literal hs

theorem reads_operand : Reads R 1 (operand expr) s := by
  rw [operand, reads_currentKind_bind]
  split
  next p h => exact reads_operand? hexpr h
  next => exact reads_failUnexpected _

theorem reads_operators (power : Power) (n : Nat) (left : Expr) :
    Reads R 0 (operators expr power n left) s := by
  induction n generalizing s left with
  | zero => exact reads_pure _
  | succ n ih =>
    simp only [operators, reads_current_bind]
    split
    next => exact reads_pure _
    next hx =>
      have hs : isPlain s.kind := isPlain_of_exceeds (by simpa using hx)
      split
      next =>
        refine (reads_advance hs).zero.andThen fun _ t => ?_
        exact (hexpr _ t).zero.andThen fun _ _ => ih _
      next =>
        refine (reads_advance hs).zero.andThen fun _ t => ?_
        split
        next => exact ih _
        next => exact reads_throw _
      next => exact reads_failHere _

end Expressions

theorem reads_exprWithin (n : Nat) (power : Power) : Reads R 1 (exprWithin n power) s := by
  induction n generalizing s power with
  | zero => exact reads_failUnexpected _
  | succ n ih =>
    have hexpr (power : Power) (t : State) : Reads R 1 (exprWithin n power) t := ih power
    refine (reads_operand hexpr).andThen fun left t => ?_
    rw [reads_bound_bind]
    exact reads_operators hexpr power _ left

theorem reads_expression (power : Power) : Reads R 1 (expression power) s :=
  reads_bound_bind.mpr (reads_exprWithin _ power)

/-! ### Types and declarations -/

theorem reads_dataType (names : Names) : Reads R 1 (dataType names) s := by
  have unit : Reads R 1 (unitType names) s := by
    rw [unitType, reads_current_bind]
    split
    next type h =>
      refine .next ?_ fun _ _ => reads_pure _
      have ht : s.kind.isType := by rw [← isSome_typeOf? names, h]; rfl
      cases hk : s.kind <;> first | rfl | simp [hk, Kind.isType] at ht
    next => exact reads_failExpected _
  refine unit.andThen fun _ t => (reads_many fun t h => ?_).result _
  have ht : isPlain t.kind := by rw [beq_iff_eq.mp h]; rfl
  exact (Reads.next ht fun _ _ => ((reads_expectSymbol rfl).result _).zero).zero

theorem reads_constMark : Reads R 0 constMark s := by
  rw [constMark, reads_currentKind_bind, reads_nextKind_bind]
  split
  next h =>
    refine (Reads.nextTo (by rw [h.1]; rfl) ?_).zero
    exact (Reads.next (by rw [State.kind, State.current_next, h.2]; rfl) fun _ _ => reads_pure _).zero
  next => exact reads_pure _

theorem reads_declaration (names : Names) : Reads R 1 (declaration names) s := by
  refine reads_expectName.andThen fun name _ => ?_
  refine (reads_expectSymbol rfl).zero.andThen fun _ _ => ?_
  refine (reads_dataType names).zero.andThen fun type _ => ?_
  refine reads_constMark.andThen fun isConst t => ?_
  have rest (value : Option Expr) (t : State) : Reads R 0 (do
      let stop ← expectSymbol .terminator
      if isConst && value.isNone then record ⟨.constantWithoutValue name.value, name.span⟩
      return (⟨name, type, isConst, value, name.span.through stop⟩ : Declaration)) t := by
    refine (reads_expectSymbol rfl).zero.andThen fun _ _ => ?_
    split
    next => exact (reads_record _).result _
    next => exact reads_pure _
  simp only [reads_currentKind_bind]
  split
  next h =>
    refine (reads_advance (by rw [h]; rfl)).zero.andThen fun _ t => ?_
    exact ((reads_expression .lowest).zero.map some).andThen rest
  next => exact (reads_pure none).andThen rest

/-! ### Simple statements -/

theorem isPlain_of_assignOp {k : Kind} {op : AssignOp} (h : AssignOp.ofKind? k = some op) :
    isPlain k := by
  cases k with
  | symbol x => cases x <;> first | rfl | cases h
  | _ => first | rfl | cases h

theorem isPlain_of_postfixOp {k : Kind} {op : PostfixOp} (h : PostfixOp.ofKind? k = some op) :
    isPlain k := by
  cases k with
  | symbol x => cases x <;> first | rfl | cases h
  | _ => first | rfl | cases h

theorem reads_assignmentTo (target : Place) (op : AssignOp) (h : isPlain s.kind) :
    Reads R 1 (assignmentTo target op) s := by
  rw [assignmentTo]
  split
  next => exact .next h fun _ _ => ((reads_expression _).result _).zero
  next => exact reads_current_bind.mpr (reads_throw _)

theorem reads_placeStmt : Reads R 1 placeStmt s := by
  refine (reads_place fun power _ => reads_expression power).andThen fun target t => ?_
  simp only [reads_currentKind_bind]
  split
  next h =>
    refine (reads_assignmentTo _ _ (isPlain_of_assignOp h)).zero.andThen fun _ _ => ?_
    exact ((reads_expectSymbol rfl).result _).zero
  next h =>
    refine (reads_advance (isPlain_of_postfixOp h)).zero.andThen fun _ _ => ?_
    exact ((reads_expectSymbol rfl).result _).zero
  next =>
    split
    next => exact reads_failUnexpected _
    next => exact ((reads_expectSymbol rfl).result _).zero

theorem reads_printStmt (h : isPlain s.kind) : Reads R 1 printStmt s := by
  refine .next h fun _ _ => ?_
  refine (reads_args fun power _ => reads_expression power).zero.andThen fun _ _ => ?_
  exact ((reads_expectSymbol rfl).result _).zero

theorem reads_leaveStmt (h : isPlain s.kind) : Reads R 1 leaveStmt s := by
  refine .next h fun _ t => ?_
  simp only [reads_currentKind_bind]
  split
  next => exact (reads_pure _).andThen fun _ _ => ((reads_expectSymbol rfl).result _).zero
  next =>
    refine ((reads_expression .lowest).map some).zero.andThen fun _ _ => ?_
    exact ((reads_expectSymbol rfl).result _).zero

theorem reads_stopStmt (h : isPlain s.kind) : Reads R 1 stopStmt s := by
  refine .next h fun _ _ => (reads_expectSymbol rfl).zero.andThen fun _ t => ?_
  simp only [reads_isLooping_bind]
  split
  next => exact (reads_record _).result _
  next => exact reads_pure _

/-! ### Statements with blocks -/

theorem reads_condition : Reads R 1 condition s := by
  refine (reads_expectSymbol rfl).andThen fun _ _ => (reads_expression _).zero.andThen fun _ _ => ?_
  exact ((reads_expectSymbol rfl).result _).zero

theorem reads_loopStart (names : Names) : Reads R 1 (loopStart names) s := by
  simp only [loopStart, reads_declarationAhead_bind]
  split
  next => exact (reads_declaration names).result _
  next =>
    refine (reads_place fun power _ => reads_expression power).andThen fun target t => ?_
    rw [reads_currentKind_bind]
    split
    next h =>
      refine (reads_assignmentTo _ _ (isPlain_of_assignOp h)).zero.andThen fun _ _ => ?_
      exact ((reads_expectSymbol rfl).result _).zero
    next => exact reads_failExpected _

theorem reads_loopUpdate : Reads R 1 loopUpdate s := by
  refine (reads_place fun power _ => reads_expression power).andThen fun target t => ?_
  rw [reads_currentKind_bind]
  split
  next h => exact ((reads_assignmentTo _ _ (isPlain_of_assignOp h)).result _).zero
  next h => exact ((reads_advance (isPlain_of_postfixOp h)).result _).zero
  next => exact reads_failExpected _

theorem reads_failNoStmt : Reads R 1 failNoStmt s :=
  reads_current_bind.mpr (reads_failHere _)

section Blocks

variable (names : Names) {block : Parse Block} (hblock : ∀ t, Reads R 1 block t)
include hblock

theorem reads_elseIf (h : isPlain s.kind) : Reads R 1 (elseIf block) s :=
  .next h fun _ _ => reads_condition.zero.andThen fun _ t => ((hblock t).result _).zero

theorem reads_elseBlock : Reads R 0 (elseBlock block) s := by
  rw [elseBlock, reads_currentKind_bind]
  split
  next h => exact (reads_advance (by rw [h]; rfl)).zero.andThen fun _ t => ((hblock t).map _).zero
  next => exact reads_pure _

theorem reads_branchStmt (h : isPlain s.kind) : Reads R 1 (branchStmt block) s := by
  refine .next h fun _ _ => reads_condition.zero.andThen fun _ t => ?_
  refine (hblock t).zero.andThen fun _ _ => Reads.andThen (reads_many fun t h => ?_) fun _ _ => ?_
  · exact (reads_elseIf hblock (by rw [beq_iff_eq.mp h]; rfl)).zero
  · exact (reads_elseBlock hblock).result _

theorem reads_repeatStmt (h : isPlain s.kind) : Reads R 1 (repeatStmt block) s :=
  .next h fun _ _ => reads_condition.zero.andThen fun _ _ =>
    ((Reads.insideLoop hblock).result _).zero

theorem reads_countStmt (h : isPlain s.kind) : Reads R 1 (countStmt names block) s := by
  refine .next h fun _ _ => (reads_expectSymbol rfl).zero.andThen fun _ _ => ?_
  refine (reads_loopStart names).zero.andThen fun _ _ => ?_
  refine (reads_expression .lowest).zero.andThen fun _ _ => ?_
  refine (reads_expectSymbol rfl).zero.andThen fun _ _ => reads_loopUpdate.zero.andThen fun _ _ => ?_
  refine (reads_expectSymbol rfl).zero.andThen fun _ _ => ?_
  exact ((Reads.insideLoop hblock).result _).zero

theorem reads_keywordStmt {k : Keyword} (hk : s.kind = .keyword k) :
    Reads R 1 ((keywordStmt? names block k).getD failNoStmt) s := by
  have hs : isPlain s.kind := by rw [hk]; rfl
  unfold keywordStmt?
  split
  next => exact reads_branchStmt hblock hs
  next => exact reads_repeatStmt hblock hs
  next => exact reads_repeatStmt hblock hs
  next => exact reads_countStmt names hblock hs
  next => exact reads_leaveStmt hs
  next => exact reads_stopStmt hs
  next => exact reads_printStmt hs
  next => exact reads_failNoStmt

theorem reads_stmt : Reads R 1 (stmt names block) s := by
  simp only [stmt, reads_currentKind_bind]
  split
  next k hk => exact reads_keywordStmt names hblock hk
  next =>
    rw [reads_declarationAhead_bind]
    split
    next => exact (reads_declaration names).result _
    next => exact reads_placeStmt
  next => exact reads_placeStmt
  next => exact reads_failNoStmt

end Blocks

/-! ### Functions and members -/

section Members

variable (names : Names)

theorem reads_param : Reads R 1 (param names) s := by
  refine reads_expectName.andThen fun name _ => (reads_expectSymbol rfl).zero.andThen fun _ _ => ?_
  exact (reads_dataType names).zero.andThen fun type t => reads_spanBefore_bind.mpr (reads_pure _)

theorem reads_params : Reads R 1 (params names) s :=
  (reads_expectSymbol rfl).andThen fun _ _ =>
    ((reads_listTo (fun _ => (reads_param names).zero) rfl).result _).zero

theorem reads_functionName : Reads R 1 functionName s := by
  rw [functionName, reads_currentKind_bind]
  split
  next h => exact (reads_advance (by rw [h]; rfl)).result _
  next => exact reads_expectName

variable {names} (hblock : ∀ t, Reads R 1 (codeBlock names) t)
include hblock

theorem reads_function : Reads R 1 (function names) s := by
  refine Reads.andThen ((reads_expect rfl).result _) fun _ _ => ?_
  refine reads_functionName.zero.andThen fun _ _ => (reads_expectSymbol rfl).zero.andThen fun _ _ => ?_
  refine (reads_dataType names).zero.andThen fun _ _ => (reads_params names).zero.andThen fun _ t => ?_
  exact ((hblock t).result _).zero

theorem reads_classMember : Reads R 1 (classMember names) s := by
  rw [classMember, reads_currentKind_bind]
  split
  next => exact (reads_function hblock).result _
  next =>
    rw [reads_declarationAhead_bind]
    split
    next => exact (reads_declaration names).result _
    next => exact reads_failUnexpected _

end Members

end Uwu.Grammar
