import Uwu.Proofs.Grammar.SourceOrder

/-! Every parser of the grammar takes a token at least when it succeeds, wherever it begins: behind
any token, in any order of tokens and at the end. One that starts by reading on, whatever comes,
asks for something behind it that is no end. -/

namespace Uwu.Grammar

/-- A parser reads on from where it begins, and if it succeeds it has taken a token. -/
def Takes {α : Type} (p : Parse α) (s : State) : Prop :=
  Outcome p s
    (fun _ t => t.stream.tokens <:+ s.stream.tokens ∧
      t.stream.tokens.length < s.stream.tokens.length)
    fun t => t.stream.tokens <:+ s.stream.tokens

variable {α β : Type} {s : State}

theorem takes_iff {p : Parse α} : Takes p s ↔ Reads Shrinks 1 p s := Iff.rfl

/-! ### Reading on -/

theorem shrinks_advance : Reads Shrinks 0 advance s := by
  change s.next.stream.tokens <:+ s.stream.tokens ∧ _
  have hsuffix : s.next.stream.tokens <:+ s.stream.tokens := by
    rw [State.tokens_next]
    exact List.tail_suffix _
  exact ⟨hsuffix, hsuffix.length_le⟩

theorem takes_advance (h : s.kind ≠ .endOfFile) : Reads Shrinks 1 advance s := by
  change s.next.stream.tokens <:+ s.stream.tokens ∧ s.next.stream.tokens.length + 1 ≤ _
  rw [State.tokens_eq_cons h, List.length_cons]
  exact ⟨List.suffix_cons _ _, Nat.le_refl _⟩

/-- A parser that reads on first, and takes a token then. -/
theorem takes_next {f : Token → Parse β} (hf : ∀ a t, Reads Shrinks 1 (f a) t) :
    Reads Shrinks 1 (advance >>= f) s :=
  shrinks_advance.before hf

theorem takes_expectSymbol (x : Symbol) : Reads Shrinks 1 (expectSymbol x) s := by
  rw [Reads, outcome_expectSymbol]
  split
  next hk => exact takes_advance (by rw [hk]; exact Kind.noConfusion)
  next => exact Journey.refl s

/-! ### Expressions -/

theorem takes_literal : Reads Shrinks 1 literal s := by
  by_cases hs : s.kind = .endOfFile
  · have hnone : literalOf? s.stream.current = none := by
      rw [literalOf?, show s.stream.current.kind = .endOfFile from hs]
    rw [Reads, literal, outcome_bind, outcome_advance, hnone]
    exact shrinks_advance.1
  · refine Reads.andThen (takes_advance hs) fun t _ => ?_
    cases literalOf? t with
    | some => exact reads_pure _
    | none => exact reads_throw _

section Expressions

variable {expr : Power → Parse Expr} (hexpr : ∀ power t, Reads Shrinks 1 (expr power) t)
include hexpr

theorem takes_format : Reads Shrinks 1 (format expr) s :=
  takes_next fun _ _ => reads_bound_bind.2 ((reads_segments hexpr _).result _)

theorem takes_input : Reads Shrinks 1 (input expr) s := by
  refine takes_next fun _ _ => (takes_expectSymbol _).andThen fun _ t => ?_
  simp only [reads_currentKind_bind]
  split
  next => exact (reads_pure _).andThen fun _ _ => ((takes_expectSymbol _).result _).zero
  next =>
    refine ((hexpr .lowest t).map _).zero.andThen fun _ _ => ?_
    exact ((takes_expectSymbol _).result _).zero

theorem takes_array : Reads Shrinks 1 (array expr) s :=
  takes_next fun _ _ => (reads_listTo (fun t => (hexpr .lowest t).zero) rfl).result _

theorem takes_grouping : Reads Shrinks 1 (grouping expr) s :=
  takes_next fun _ t => (hexpr .lowest t).andThen fun _ _ => ((takes_expectSymbol _).result _).zero

theorem takes_index : Reads Shrinks 1 (index expr) s :=
  takes_next fun _ t => (hexpr .lowest t).andThen fun _ _ => ((takes_expectSymbol _).result _).zero

theorem takes_construction : Reads Shrinks 1 (construction expr) s := by
  refine takes_next fun _ t => ?_
  rw [reads_currentKind_bind]
  split
  next => exact (reads_args hexpr).result _
  next => exact reads_failExpected _

theorem takes_member : Reads Shrinks 1 (member expr) s :=
  takes_next fun _ _ => reads_link hexpr

theorem takes_prefixed (op : PrefixOp) : Reads Shrinks 1 (prefixed expr op) s :=
  takes_next fun _ t => (hexpr .prefixed t).result _

/-- An operator that goes on is taken. -/
theorem takes_operators {power : Power} (h : s.kind.power.exceeds power) (n : Nat) (left : Expr) :
    Reads Shrinks 1 (operators expr power (n + 1) left) s := by
  have hs := isPlain_of_exceeds h
  have rest (left : Expr) (t : State) : Reads Shrinks 0 (operators expr power n left) t :=
    reads_operators hexpr power n left
  simp only [operators, reads_current_bind]
  rw [if_neg (by rw [show s.stream.current.kind.power.exceeds power = true from h]; decide)]
  split
  next =>
    refine (reads_advance hs).andThen fun _ t => ?_
    exact (hexpr _ t).zero.andThen fun _ _ => rest _ _
  next =>
    refine (reads_advance hs).andThen fun _ t => ?_
    split
    next => exact rest _ _
    next => exact reads_throw _
  next => exact reads_failHere _

end Expressions

/-! ### Types -/

section Types

variable (names : Names)

theorem takes_unitType : Reads Shrinks 1 (unitType names) s := by
  rw [unitType, reads_current_bind]
  split
  next type h =>
    refine Reads.andThen (takes_advance fun hs => ?_) fun _ _ => reads_pure _
    have hnone : typeOf? names s.stream.current = none := by
      rw [typeOf?, show s.stream.current.kind = .endOfFile from hs]
    cases hnone.symm.trans h
  next => exact reads_failExpected _

theorem takes_dimension : Reads Shrinks 1 dimension s :=
  takes_next fun _ _ => (takes_expectSymbol _).result _

end Types

/-! ### Statements -/

theorem takes_assignmentTo (target : Place) (op : AssignOp) :
    Reads Shrinks 1 (assignmentTo target op) s := by
  rw [assignmentTo]
  split
  next => exact takes_next fun _ _ => (reads_expression _).result _
  next => exact reads_current_bind.2 (reads_throw _)

theorem takes_printStmt : Reads Shrinks 1 printStmt s :=
  takes_next fun _ _ => (reads_args fun power _ => reads_expression power).andThen fun _ _ =>
    ((takes_expectSymbol _).result _).zero

theorem takes_leaveStmt : Reads Shrinks 1 leaveStmt s := by
  refine takes_next fun _ t => ?_
  simp only [reads_currentKind_bind]
  split
  next => exact (reads_pure _).before fun _ _ => (takes_expectSymbol _).result _
  next =>
    exact ((reads_expression .lowest).map some).andThen fun _ _ =>
      ((takes_expectSymbol _).result _).zero

theorem takes_stopStmt : Reads Shrinks 1 stopStmt s := by
  refine takes_next fun _ _ => (takes_expectSymbol _).andThen fun _ t => ?_
  simp only [reads_isLooping_bind]
  split
  next => exact (reads_record _).result _
  next => exact reads_pure _

section Blocks

variable (names : Names) {block : Parse Block} (hblock : ∀ t, Reads Shrinks 1 block t)
include hblock

theorem takes_elseIf : Reads Shrinks 1 (elseIf block) s :=
  takes_next fun _ _ => reads_condition.andThen fun _ t => ((hblock t).result _).zero

theorem takes_branchStmt : Reads Shrinks 1 (branchStmt block) s := by
  refine takes_next fun _ _ => reads_condition.andThen fun _ t => ?_
  refine (hblock t).zero.andThen fun _ _ => Reads.andThen (reads_many fun t _ => ?_) fun _ _ => ?_
  · exact (takes_elseIf hblock).zero
  · exact (reads_elseBlock hblock).result _

theorem takes_repeatStmt : Reads Shrinks 1 (repeatStmt block) s :=
  takes_next fun _ _ => reads_condition.andThen fun _ _ =>
    ((Reads.insideLoop hblock).result _).zero

theorem takes_countStmt : Reads Shrinks 1 (countStmt names block) s := by
  refine takes_next fun _ _ => (takes_expectSymbol _).andThen fun _ _ => ?_
  refine (reads_loopStart names).zero.andThen fun _ _ => ?_
  refine (reads_expression .lowest).zero.andThen fun _ _ => ?_
  refine (takes_expectSymbol _).zero.andThen fun _ _ => reads_loopUpdate.zero.andThen fun _ _ => ?_
  refine (takes_expectSymbol _).zero.andThen fun _ _ => ?_
  exact ((Reads.insideLoop hblock).result _).zero

end Blocks

end Uwu.Grammar
