import Mathlib.Logic.Function.Iterate
import Uwu.Proofs.Grammar.Nesting

/-! Parsing ends. Every recursion of the parsers, be it a loop or a nesting, takes a token before it
goes on, so it ends after no more steps than there are tokens left, and one. The bounds that the
parsers carry are never reached. -/

open Function (iterate_succ_apply')

namespace Uwu.Grammar

/-! ### Recursion -/

section Recursion

variable {ι α : Type} {step : (ι → Parse α) → ι → Parse α} {f : Nat → ι → Parse α}

/-- `p` is what `step` makes of `p`. Where fewer than `n` tokens are left it ends within `n` steps:
what stands below so many of them is never reached, whatever it is. -/
structure Grounded (step : (ι → Parse α) → ι → Parse α) (p : ι → Parse α) : Prop where
  unfolds : step p = p
  ends (base : ι → Parse α) (n : Nat) (i : ι) (s : State) :
    s.stream.tokens.length < n → step^[n] base i s = p i s

variable (hf : ∀ n, f (n + 1) = step (f n))
  (hstep : ∀ (k n : Nat) (q : ι → Parse α), (∀ i, SameBelow k (f n i) (q i)) →
    ∀ i, SameBelow (k + 1) (step (f n) i) (step q i))
include hf hstep

theorem same_iterate (base : ι → Parse α) {k m n : Nat} (hm : k ≤ m) (hn : k ≤ n) (i : ι) :
    SameBelow k (f m i) (step^[n] base i) := by
  -- On the tokens that are left: a step has taken one before it looks at what stands below it.
  induction k generalizing m n i with
  | zero => exact fun _ hs => absurd hs (Nat.not_lt_zero _)
  | succ k ih =>
    obtain ⟨m, rfl⟩ := Nat.exists_eq_add_of_lt hm
    obtain ⟨n, rfl⟩ := Nat.exists_eq_add_of_lt hn
    rw [hf, iterate_succ_apply']
    exact hstep k _ _ (ih (Nat.le_add_right _ _) (Nat.le_add_right _ _)) i

/-- A bounded recursion that takes a token before it goes on ends, with its bound above the tokens
that are left. -/
theorem grounded_bounded : Grounded step fun i => bound >>= fun n => f n i := by
  have hbound (i : ι) (s : State) :
      (bound >>= fun n => f n i) s = f (s.stream.tokens.length + 1) i s := rfl
  refine ⟨?_, fun base n i s hs => ?_⟩
  · funext i s
    rw [hbound, hf]
    refine (hstep s.stream.tokens.length _ _ (fun i t ht => ?_) i s (Nat.lt_succ_self _)).symm
    have hsame {n : Nat} (hn : t.stream.tokens.length + 1 ≤ n) :=
      same_iterate hf hstep (f 0) hn (Nat.le_refl _) i t (Nat.lt_succ_self _)
    exact (hsame ht).trans (hsame (Nat.le_refl _)).symm
  · rw [hbound]
    exact (same_iterate hf hstep base (Nat.le_refl _) hs i s (Nat.lt_succ_self _)).symm

end Recursion

/-! ### Productions -/

/-- The parsers of the grammar, of every sort. -/
inductive Production (names : Names) : {α : Type} → Parse α → Prop
  | symbol (x : Symbol) : Production names (expectSymbol x)
  | name : Production names expectName
  | expression (power : Power) : Production names (expression power)
  | literal : Production names literal
  | format : Production names (format expression)
  | input : Production names (input expression)
  | array : Production names (array expression)
  | grouping : Production names (grouping expression)
  | prefixed (op : PrefixOp) : Production names (prefixed expression op)
  | args : Production names (args expression)
  | index : Production names (index expression)
  | link : Production names (link expression)
  | construction : Production names (construction expression)
  | member : Production names (member expression)
  | place : Production names (place expression)
  | placeExpr : Production names (Expr.place <$> place expression)
  | unitType : Production names (unitType names)
  | dimension : Production names dimension
  | dataType : Production names (dataType names)
  | declaration : Production names (declaration names)
  | assignmentTo (target : Place) (op : AssignOp) : Production names (assignmentTo target op)
  | placeStmt : Production names placeStmt
  | printStmt : Production names printStmt
  | leaveStmt : Production names leaveStmt
  | stopStmt : Production names stopStmt
  | condition : Production names condition
  | elseIf : Production names (elseIf (codeBlock names))
  | branchStmt : Production names (branchStmt (codeBlock names))
  | repeatStmt : Production names (repeatStmt (codeBlock names))
  | loopStart : Production names (loopStart names)
  | loopUpdate : Production names loopUpdate
  | countStmt : Production names (countStmt names (codeBlock names))
  | loopBody : Production names (insideLoop (codeBlock names))
  | statement : Production names (statement names)
  | codeBlock : Production names (codeBlock names)
  | param : Production names (param names)
  | params : Production names (params names)
  | functionName : Production names functionName
  | function : Production names (function names)
  | global : Production names (global names)
  | classMember : Production names (classMember names)
  | classItem : Production names (classItem names)
  | item : Production names (item names)

section Productions

variable {names : Names} {s : State}

theorem takes_codeBlock : Reads Shrinks 1 (codeBlock names) s :=
  (keeps_blockOf fun _ => keeps_statement names).shrinks

theorem Production.takes {α : Type} {p : Parse α} (h : Production names p) (s : State) :
    Takes p s := by
  have hexpr (power : Power) (t : State) : Reads Shrinks 1 (Grammar.expression power) t :=
    reads_expression power
  have hblock (t : State) : Reads Shrinks 1 (Grammar.codeBlock names) t := takes_codeBlock
  rw [takes_iff]
  cases h with
  | symbol x => exact takes_expectSymbol x
  | name => exact reads_expectName
  | expression power => exact reads_expression power
  | literal => exact takes_literal
  | format => exact takes_format hexpr
  | input => exact takes_input hexpr
  | array => exact takes_array hexpr
  | grouping => exact takes_grouping hexpr
  | prefixed op => exact takes_prefixed hexpr op
  | args => exact reads_args hexpr
  | index => exact takes_index hexpr
  | link => exact reads_link hexpr
  | construction => exact takes_construction hexpr
  | member => exact takes_member hexpr
  | place => exact reads_place hexpr
  | placeExpr => exact (reads_place hexpr).map _
  | unitType => exact takes_unitType names
  | dimension => exact takes_dimension
  | dataType => exact reads_dataType names
  | declaration => exact reads_declaration names
  | assignmentTo target op => exact takes_assignmentTo target op
  | placeStmt => exact reads_placeStmt
  | printStmt => exact takes_printStmt
  | leaveStmt => exact takes_leaveStmt
  | stopStmt => exact takes_stopStmt
  | condition => exact reads_condition
  | elseIf => exact takes_elseIf hblock
  | branchStmt => exact takes_branchStmt hblock
  | repeatStmt => exact takes_repeatStmt hblock
  | loopStart => exact reads_loopStart names
  | loopUpdate => exact reads_loopUpdate
  | countStmt => exact takes_countStmt names hblock
  | loopBody => exact .insideLoop hblock
  | statement => exact (keeps_statement names).shrinks
  | codeBlock => exact takes_codeBlock
  | param => exact reads_param names
  | params => exact reads_params names
  | functionName => exact reads_functionName
  | function => exact keeps_function.shrinks
  | global => exact shrinks_global
  | classMember => exact (keeps_classMember names).shrinks
  | classItem => exact shrinks_classItem
  | item => exact shrinks_item

end Productions

/-! ### Recovery -/

section Recovery

variable {names : Names} {s : State}

/-- A parser that never fails and takes a token, or more. -/
def Advances {α : Type} (p : Parse α) (s : State) : Prop :=
  Outcome p s
    (fun _ t => t.stream.tokens <:+ s.stream.tokens ∧
      t.stream.tokens.length < s.stream.tokens.length)
    fun _ => False

theorem Advances.takes {α : Type} {p : Parse α} (h : Advances p s) : Takes p s :=
  Outcome.mono h (fun _ _ => id) fun _ => False.elim

theorem advances_block {α : Type} {p : Parse α} (hp : ∀ t, Reads Keeps 1 p t)
    (hs : insideBlock s.kind) : Advances (recovering p skipStatement) s :=
  Outcome.mono (outcome_recovering_item hp hs) (fun _ _ ht => ⟨ht.1.suffix, ht.2⟩) fun _ => id

theorem advances_item (hs : s.kind ≠ .endOfFile) : Advances (recovering (item names) skipItem) s :=
  Outcome.mono ((outcome_round hs).and (shrinks_recovering shrinks_item skipItem_suffix))
    (fun _ _ ht => ⟨ht.2.1, ht.1.1⟩) fun _ => And.left

/-- The items are read up to the end. -/
theorem outcome_itemsUpTo_end {n : Nat} (hn : s.stream.tokens.length < n) (b : Bool) :
    Outcome (itemsUpTo names n b) s (fun _ t => t.kind = .endOfFile) fun _ => False := by
  induction n generalizing s b with
  | zero => exact absurd hn (Nat.not_lt_zero _)
  | succ n ih =>
    rw [itemsUpTo, outcome_bind, outcome_currentKind]
    split
    next hk => exact hk
    next hk =>
      rw [outcome_bind]
      refine Outcome.mono (advances_item hk) (fun found t ht => ?_) fun _ => id
      have hnext : t.stream.tokens.length < n := by omega
      split
      next => exact ih hnext b
      next f =>
        have hrest (t : State) (ht : t.stream.tokens.length < n) : Outcome
            (itemsUpTo names n true >>= fun is => pure (Item.entry f :: is)) t
            (fun _ t => t.kind = .endOfFile) fun _ => False :=
          (outcome_bind _ _).2 (ih ht true)
        cases b with
        | true => exact hrest { t with recorded := t.recorded ++ _ } hnext
        | false => exact hrest t hnext
      next => exact (outcome_bind _ _).2 (ih hnext b)

end Recovery

/-! ### Loops and nesting -/

/-- What is repeated, and where. -/
inductive Repeats (names : Names) : {α : Type} → (Kind → Bool) → Parse α → Prop
  | indices : Repeats names (· == .symbol .openBracket) (index expression)
  | members : Repeats names (· == .symbol .dot) (member expression)
  | dimensions : Repeats names (· == .symbol .openBracket) dimension
  | elseIfs : Repeats names (· == .keyword .ewseIwf) (elseIf (codeBlock names))
  | statements : Repeats names insideBlock (recovering (statement names) skipStatement)
  | classMembers : Repeats names insideBlock (recovering (classMember names) skipStatement)

/-- What stands between commas, and what closes it. -/
inductive Listed (names : Names) : {α : Type} → Symbol → Parse α → Prop
  | elements : Listed names .closeBrace (expression .lowest)
  | arguments : Listed names .closeParen (expression .lowest)
  | params : Listed names .closeParen (param names)

/-- A round of the items, and the rounds behind it. -/
def itemsRound (names : Names) (rest : Bool → Parse (List Item)) (hasEntry : Bool) :
    Parse (List Item) := do
  if (← currentKind) = .endOfFile then return []
  match ← recovering (item names) skipItem with
  | none => rest hasEntry
  | some (.entry f) =>
    if hasEntry then record ⟨.secondEntry, f.name.span⟩
    return .entry f :: (← rest true)
  | some i => return i :: (← rest hasEntry)

section Loops

variable {names : Names} {α : Type} {p : Parse α}

theorem Repeats.takes {more : Kind → Bool} (h : Repeats names more p) {s : State}
    (hs : more s.kind) : Takes p s := by
  have production {α : Type} {q : Parse α} (hq : Production names q) : Takes q s := hq.takes s
  cases h with
  | indices => exact production .index
  | members => exact production .member
  | dimensions => exact production .dimension
  | elseIfs => exact production .elseIf
  | statements => exact (advances_block (fun _ => keeps_statement names) hs).takes
  | classMembers => exact (advances_block (fun _ => keeps_classMember names) hs).takes

theorem Listed.takes {close : Symbol} (h : Listed names close p) (s : State) : Takes p s := by
  cases h with
  | elements | arguments => exact takes_iff.2 (reads_expression .lowest)
  | params => exact takes_iff.2 (reads_param names)

theorem same_itemsRound {k : Nat} {rest rest' : Bool → Parse (List Item)}
    (hrest : ∀ b, SameBelow k (rest b) (rest' b)) (b : Bool) :
    SameBelow (k + 1) (itemsRound names rest b) (itemsRound names rest' b) := by
  intro s hs
  rw [itemsRound, itemsRound, run_currentKind, run_currentKind]
  split
  next => rfl
  next hk =>
    refine run_bind_same (n := 1) hs rfl (advances_item hk).takes fun found => ?_
    split
    next => exact hrest b
    next f =>
      have hentry := (hrest true).andThen fun is => pure (Item.entry f :: is)
      cases b with
      | true => exact SameBelow.behind (n := 0) (fun _ => reads_record _) fun _ => hentry
      | false => exact hentry
    next => exact (hrest b).andThen _

end Loops

section Grounds

variable {names : Names}

theorem grounded_many {α : Type} {more : Kind → Bool} {p : Parse α} (h : Repeats names more p) :
    Grounded (fun rest _ => manyRound more p (rest ())) fun _ : Unit => many more p :=
  grounded_bounded (f := fun n _ => upTo more p n) (fun _ => rfl) fun _ _ _ hrest _ =>
    same_manyRound (n := 1) (.refl _ _) (fun _ hs => h.takes hs) (hrest ())

theorem grounded_list {α : Type} {close : Symbol} {p : Parse α} (h : Listed names close p) :
    Grounded (fun rest _ => listRound close p (rest ())) fun _ : Unit =>
      bound >>= listUpTo close p :=
  grounded_bounded (f := fun n _ => listUpTo close p n) (fun _ => rfl) fun _ _ _ hrest _ =>
    same_listRound (n := 1) (.refl _ _) h.takes (hrest ())

theorem grounded_segments :
    Grounded (fun rest _ => segmentsRound expression (rest ())) fun _ : Unit =>
      bound >>= segments expression :=
  grounded_bounded (f := fun n _ => segments expression n) (fun _ => rfl) fun _ _ _ hrest _ =>
    same_segmentsRound (fun _ => .refl _ _) (fun power _ => reads_expression power) (hrest ())

theorem grounded_operators (power : Power) :
    Grounded (operatorsRound expression power) fun left =>
      bound >>= fun n => operators expression power n left :=
  grounded_bounded (f := operators expression power) (fun _ => rfl) fun _ _ _ hrest left =>
    same_operatorsRound (fun _ => .refl _ _) (fun power _ => reads_expression power) power hrest
      left

theorem grounded_items :
    Grounded (itemsRound names) fun hasEntry => bound >>= fun n => itemsUpTo names n hasEntry :=
  grounded_bounded (f := itemsUpTo names) (fun _ => rfl) fun _ _ _ hrest b =>
    same_itemsRound hrest b

theorem grounded_expression : Grounded expressionOf expression :=
  grounded_bounded (f := exprWithin) (fun _ => rfl) fun _ n _ hexpr power =>
    same_expressionOf hexpr (fun power _ => reads_exprWithin n power) power

theorem grounded_statement :
    Grounded (fun inner _ => stmt names (blockOf (inner ()))) fun _ : Unit => statement names :=
  grounded_bounded (f := fun n _ => stmtWithin names n) (fun _ => rfl) fun _ n _ hstmt _ =>
    same_stmt names (same_blockOf (hstmt ()) fun _ => (keeps_stmtWithin names n).shrinks)
      fun _ => (keeps_blockOf fun _ => keeps_stmtWithin names n).shrinks

end Grounds

/-! ### The whole -/

/-- What makes parsing end. -/
structure ParsingEnds (names : Names) : Prop where
  /-- A production reads on from where it begins. If it succeeds it has taken a token. -/
  takes {α : Type} {p : Parse α} : Production names p → ∀ s, Takes p s
  /-- A type may have no dimensions. -/
  dimensions (s : State) : Reads Shrinks 0 (many (· == .symbol .openBracket) dimension) s
  operator {s : State} {power : Power} (n : Nat) (left : Expr) :
    s.kind.power.exceeds power → Takes (operators expression power (n + 1) left) s
  /-- Every round of a recovery moves on, be it broken or not. -/
  statementRound {s : State} :
    insideBlock s.kind → Advances (recovering (statement names) skipStatement) s
  memberRound {s : State} :
    insideBlock s.kind → Advances (recovering (classMember names) skipStatement) s
  itemRound {s : State} : s.kind ≠ .endOfFile → Advances (recovering (item names) skipItem) s
  /-- The rounds end where there is none to come, and do not fail. -/
  statementRounds (s : State) :
    Outcome (many insideBlock (recovering (statement names) skipStatement)) s
      (fun _ t => Shrinks s t ∧ ¬ insideBlock t.kind) fun _ => False
  memberRounds (s : State) :
    Outcome (many insideBlock (recovering (classMember names) skipStatement)) s
      (fun _ t => Shrinks s t ∧ ¬ insideBlock t.kind) fun _ => False
  itemRounds (tokens : List Token) :
    ∃ is t, items names (.ofTokens tokens) = .ok is t ∧ t.kind = .endOfFile
  /-- Loops take a token in every round but the last. -/
  many {α : Type} {more : Kind → Bool} {p : Parse α} : Repeats names more p →
    Grounded (fun rest _ => manyRound more p (rest ())) fun _ : Unit => many more p
  list {α : Type} {close : Symbol} {p : Parse α} : Listed names close p →
    Grounded (fun rest _ => listRound close p (rest ())) fun _ : Unit => bound >>= listUpTo close p
  segments : Grounded (fun rest _ => segmentsRound expression (rest ())) fun _ : Unit =>
    bound >>= segments expression
  operators (power : Power) : Grounded (operatorsRound expression power) fun left =>
    bound >>= fun n => operators expression power n left
  items : Grounded (itemsRound names) fun hasEntry => bound >>= fun n => itemsUpTo names n hasEntry
  /-- What is nested is a token further on at least. -/
  expressions : Grounded expressionOf expression
  statements : Grounded (fun inner _ => stmt names (blockOf (inner ()))) fun _ : Unit =>
    statement names

theorem outcome_block_rounds {α : Type} {p : Parse α} (hp : ∀ t, Reads Keeps 1 p t) (s : State) :
    Outcome (many insideBlock (recovering p skipStatement)) s
      (fun _ t => Shrinks s t ∧ ¬ insideBlock t.kind) fun _ => False :=
  Outcome.mono (outcome_rounds hp (Nat.lt_succ_self _)) (fun _ _ ht => ⟨ht.1.suffix, ht.2⟩)
    fun _ => id

theorem exists_items (names : Names) (tokens : List Token) :
    ∃ is t, items names (.ofTokens tokens) = .ok is t ∧ t.kind = .endOfFile := by
  refine Outcome.exists_ok ?_
  rw [items, outcome_bind, outcome_bound, outcome_bind]
  have hread : Outcome (itemsUpTo names ((State.ofTokens tokens).stream.tokens.length + 1) false)
      (.ofTokens tokens) (fun _ t => t.kind = .endOfFile) fun _ => False :=
    outcome_itemsUpTo_end (Nat.lt_succ_self _) false
  refine Outcome.mono hread (fun is t ht => ?_) fun _ => id
  split
  next => exact ht
  next => exact ht

/-- Parsing ends whatever the tokens are: every production takes a token, every round of a recovery
moves on or is the last, and no recursion goes deeper than there are tokens. -/
theorem parsing_ends (names : Names) : ParsingEnds names where
  takes := Production.takes
  dimensions _ := reads_many fun _ _ => takes_dimension.zero
  operator n left h := takes_operators (fun power _ => reads_expression power) h n left
  statementRound := advances_block fun _ => keeps_statement names
  memberRound := advances_block fun _ => keeps_classMember names
  itemRound := advances_item
  statementRounds := outcome_block_rounds fun _ => keeps_statement names
  memberRounds := outcome_block_rounds fun _ => keeps_classMember names
  itemRounds := exists_items names
  many := grounded_many
  list := grounded_list
  segments := grounded_segments
  operators := grounded_operators
  items := grounded_items
  expressions := grounded_expression
  statements := grounded_statement

end Uwu.Grammar
