import Uwu.Proofs.Grammar.Takes

/-! What holds something nested takes a token first. Where the parsers of what is inside do the same
up to some number of tokens, those of what is around it do the same with one token more. -/

namespace Uwu.Grammar

variable {α β : Type}

/-! ### Parsers that do the same -/

/-- The parsers do the same where fewer than `k` tokens are left. -/
def SameBelow (k : Nat) (p q : Parse α) : Prop :=
  ∀ s : State, s.stream.tokens.length < k → p s = q s

/-- Where the first parsers take `n` tokens, the second ones have as many less. -/
theorem run_bind_same {k n : Nat} {p q : Parse α} {f g : α → Parse β} {s : State}
    (hs : s.stream.tokens.length < k + n) (hp : p s = q s) (hread : Reads Shrinks n p s)
    (hf : ∀ a, SameBelow k (f a) (g a)) : (p >>= f) s = (q >>= g) s := by
  unfold Reads Outcome at hread
  cases hrun : p s with
  | ok a t =>
    rw [hrun] at hp hread
    rw [run_bind hrun, run_bind hp.symm]
    refine hf a t ?_
    have := hread.2
    omega
  | error d t =>
    rw [hrun] at hp
    rw [run_bind_error hrun, run_bind_error hp.symm]

namespace SameBelow

variable {k n : Nat} {p q : Parse α}

theorem refl (k : Nat) (p : Parse α) : SameBelow k p p :=
  fun _ _ => rfl

theorem mono {j : Nat} (h : SameBelow k p q) (hj : j ≤ k) : SameBelow j p q :=
  fun s hs => h s (Nat.lt_of_lt_of_le hs hj)

theorem less (h : SameBelow (k + 1) p q) : SameBelow k p q :=
  h.mono (Nat.le_succ k)

theorem bind {f g : α → Parse β} (hp : SameBelow (k + n) p q)
    (hread : ∀ s, Reads Shrinks n p s) (hf : ∀ a, SameBelow k (f a) (g a)) :
    SameBelow (k + n) (p >>= f) (q >>= g) :=
  fun s hs => run_bind_same hs (hp s hs) (hread s) hf

/-- The first parser is the same. -/
theorem behind {f g : α → Parse β} (hread : ∀ s, Reads Shrinks n p s)
    (hf : ∀ a, SameBelow k (f a) (g a)) : SameBelow (k + n) (p >>= f) (p >>= g) :=
  bind (.refl _ p) hread hf

/-- What comes next is the same. -/
theorem andThen (f : α → Parse β) (h : SameBelow k p q) : SameBelow k (p >>= f) (q >>= f) :=
  fun s hs => run_bind_congr f (h s hs)

theorem map (f : α → β) (h : SameBelow k p q) : SameBelow k (f <$> p) (f <$> q) := by
  intro s hs
  change EStateM.map f p s = EStateM.map f q s
  rw [EStateM.map, EStateM.map, h s hs]

/-- What comes behind a token that is read on has one less, or none. -/
theorem next {f g : Token → Parse β} (hf : ∀ t, SameBelow (k + 1) (f t) (g t)) :
    SameBelow (k + 2) (advance >>= f) (advance >>= g) := by
  intro s hs
  rw [run_advance, run_advance]
  refine hf _ _ ?_
  rw [State.tokens_next, List.length_tail]
  omega

theorem kind {f g : Kind → Parse β} (hf : ∀ x, SameBelow k (f x) (g x)) :
    SameBelow k (currentKind >>= f) (currentKind >>= g) :=
  fun s hs => hf _ s hs

theorem current {f g : Token → Parse β} (hf : ∀ t, SameBelow k (f t) (g t)) :
    SameBelow k (current >>= f) (current >>= g) :=
  fun s hs => hf _ s hs

theorem bound {f g : Nat → Parse β} (hf : ∀ n, SameBelow k (f n) (g n)) :
    SameBelow k (bound >>= f) (bound >>= g) :=
  fun s hs => hf _ s hs

theorem insideLoop (h : SameBelow k p q) : SameBelow k (insideLoop p) (insideLoop q) := by
  intro s hs
  rw [Grammar.insideLoop, Grammar.insideLoop, h { s with loops := s.loops + 1 } hs]

theorem recovering {skip : State → State → State} (h : SameBelow k p q) :
    SameBelow k (recovering p skip) (recovering q skip) := by
  intro s hs
  rw [Grammar.recovering, Grammar.recovering, h s hs]

end SameBelow

open SameBelow

/-! ### Rounds -/

section Rounds

variable {k n : Nat} {p q : Parse α} {rest rest' : Parse (List α)}

/-- A round of `many`, and the rounds behind it. -/
def manyRound (more : Kind → Bool) (item : Parse α) (rest : Parse (List α)) : Parse (List α) := do
  if more (← currentKind) then
    let x ← item
    return x :: (← rest)
  else return []

theorem same_manyRound {more : Kind → Bool} (h : SameBelow (k + n) p q)
    (hread : ∀ s : State, more s.kind → Reads Shrinks n p s) (hrest : SameBelow k rest rest') :
    SameBelow (k + n) (manyRound more p rest) (manyRound more q rest') := by
  intro s hs
  rw [manyRound, manyRound, run_currentKind, run_currentKind]
  split
  next hk => exact run_bind_same hs (h s hs) (hread s hk) fun _ => hrest.andThen _
  next => rfl

theorem SameBelow.many {more : Kind → Bool} (h : SameBelow k p q)
    (hread : ∀ s, Reads Shrinks 0 p s) : SameBelow k (many more p) (many more q) := by
  refine SameBelow.bound fun n => ?_
  induction n with
  | zero => exact .refl _ _
  | succ n ih => exact same_manyRound (n := 0) h (fun s _ => hread s) ih

/-- A round of a list with commas, and the rounds behind it. -/
def listRound (close : Symbol) (item : Parse α) (rest : Parse (List α)) : Parse (List α) := do
  if (← currentKind) = .symbol close then return []
  let x ← item
  if (← currentKind) = .symbol .comma then
    let _ ← advance
    return x :: (← rest)
  else return [x]

theorem same_listRound {close : Symbol} (h : SameBelow (k + n) p q)
    (hread : ∀ s, Reads Shrinks n p s) (hrest : SameBelow k rest rest') :
    SameBelow (k + n) (listRound close p rest) (listRound close q rest') := by
  refine kind fun x => ?_
  split
  next => exact .refl _ _
  next =>
    refine bind h hread fun x => kind fun y => ?_
    split
    next => exact behind (n := 0) (fun _ => shrinks_advance) fun _ => hrest.andThen _
    next => exact .refl _ _

theorem SameBelow.listTo {close : Symbol} (h : SameBelow k p q)
    (hread : ∀ s, Reads Shrinks 0 p s) : SameBelow k (listTo close p) (listTo close q) := by
  refine SameBelow.bound fun n => SameBelow.andThen _ ?_
  induction n with
  | zero => exact .refl _ _
  | succ n ih => exact same_listRound (n := 0) h hread ih

end Rounds

/-! ### Expressions -/

/-- An expression in a string and the text behind it, and what is behind them. -/
def segmentsRound (expr : Power → Parse Expr) (rest : Parse (List Segment × Span)) :
    Parse (List Segment × Span) := do
  let e ← expr .lowest
  match ← currentKind with
  | .stringPartMid =>
    let t ← advance
    let (rest, stop) ← rest
    return (.expr e :: (textSegment '|' '|' t ++ rest), stop)
  | .stringPartEnd =>
    let t ← advance
    return (.expr e :: textSegment '|' '"' t, t.span)
  | _ => failUnclosed

/-- An operator behind `left`, and the operators behind it. -/
def operatorsRound (expr : Power → Parse Expr) (power : Power) (rest : Expr → Parse Expr)
    (left : Expr) : Parse Expr := do
  let t ← current
  if !t.kind.power.exceeds power then return left
  match InfixOp.ofKind? t.kind, PostfixOp.ofKind? t.kind with
  | some op, _ =>
    let _ ← advance
    let right ← expr op.power
    rest (.infixed left ⟨op, t.span⟩ right (left.span.through right.span))
  | none, some op =>
    let _ ← advance
    match left with
    | .place p => rest (.postfixed p ⟨op, t.span⟩ (p.span.through t.span))
    | _ =>
      throw ⟨.unexpectedFor t.lexeme "only variables can be incremented or decremented", t.span⟩
  | none, none => failHere (.unexpected t.described)

/-- An expression, by the parser of those inside it. -/
def expressionOf (expr : Power → Parse Expr) (power : Power) : Parse Expr := do
  let left ← operand expr
  operators expr power (← bound) left

section Expressions

variable {k : Nat} {expr expr' : Power → Parse Expr}
  (hexpr : ∀ power, SameBelow (k + 1) (expr power) (expr' power))
  (hread : ∀ power s, Reads Shrinks 1 (expr power) s)
include hexpr hread

theorem same_segmentsRound {rest rest' : Parse (List Segment × Span)}
    (hrest : SameBelow k rest rest') :
    SameBelow (k + 1) (segmentsRound expr rest) (segmentsRound expr' rest') := by
  refine bind (n := 1) (hexpr .lowest) (hread .lowest) fun e => kind fun x => ?_
  split
  next => exact behind (n := 0) (fun _ => shrinks_advance) fun _ => hrest.andThen _
  next => exact .refl _ _
  next => exact .refl _ _

theorem same_segments (n : Nat) : SameBelow (k + 1) (segments expr n) (segments expr' n) := by
  induction n with
  | zero => exact .refl _ _
  | succ n ih => exact same_segmentsRound hexpr hread ih.less

theorem same_format : SameBelow (k + 2) (format expr) (format expr') :=
  next fun _ => SameBelow.bound fun n => (same_segments hexpr hread n).andThen _

omit hread in
theorem same_input : SameBelow (k + 2) (input expr) (input expr') := by
  refine next fun _ => behind (n := 0) (fun _ => shrinks_expectSymbol _) fun _ => kind fun x => ?_
  split
  next => exact .refl _ _
  next => exact ((hexpr .lowest).map _).andThen _

theorem same_list (close : Symbol) :
    SameBelow (k + 1) (listTo close (expr .lowest)) (listTo close (expr' .lowest)) :=
  (hexpr .lowest).listTo fun s => (hread .lowest s).zero

theorem same_array : SameBelow (k + 2) (array expr) (array expr') :=
  next fun _ => (same_list hexpr hread _).andThen _

theorem same_args : SameBelow (k + 2) (args expr) (args expr') :=
  behind (n := 1) (fun _ => takes_expectSymbol _) fun _ => same_list hexpr hread _

omit hread in
theorem same_grouping : SameBelow (k + 2) (grouping expr) (grouping expr') :=
  next fun _ => (hexpr .lowest).andThen _

omit hread in
theorem same_index : SameBelow (k + 2) (index expr) (index expr') :=
  next fun _ => (hexpr .lowest).andThen _

theorem same_link : SameBelow (k + 2) (link expr) (link expr') := by
  refine behind (n := 1) (fun _ => reads_expectName) fun name => kind fun x => ?_
  split
  next => exact (same_args hexpr hread).less.andThen _
  next => exact ((same_index hexpr).less.many fun _ => (takes_index hread).zero).andThen _
  next => exact .refl _ _

theorem same_construction : SameBelow (k + 2) (construction expr) (construction expr') := by
  refine next fun t => kind fun x => ?_
  split
  next => exact (same_args hexpr hread).less.andThen _
  next => exact .refl _ _

theorem same_place : SameBelow (k + 2) (place expr) (place expr') := by
  have members (first : Place) : SameBelow (k + 2)
      (many (· == .symbol .dot) (member expr) >>= fun members =>
        pure (members.foldl addMember first))
      (many (· == .symbol .dot) (member expr') >>= fun members =>
        pure (members.foldl addMember first)) := by
    refine SameBelow.andThen _ (SameBelow.many ?_ fun _ => (takes_member hread).zero)
    exact next fun _ => (same_link hexpr hread).less
  refine kind fun x => ?_
  split
  next =>
    exact bind (n := 0) (same_construction hexpr hread) (fun _ => (takes_construction hread).zero)
      members
  next =>
    exact bind (n := 0) ((same_link hexpr hread).map _) (fun _ => ((reads_link hread).map _).zero)
      members

omit hread in
theorem same_prefixed (op : PrefixOp) :
    SameBelow (k + 2) (prefixed expr op) (prefixed expr' op) :=
  next fun _ => (hexpr .prefixed).andThen _

/-- The operands that begin with a kind, if any do. -/
theorem same_operand? (x : Kind) (p : Parse Expr) :
    SameBelow (k + 2) ((operand? expr x).getD p) ((operand? expr' x).getD p) := by
  unfold operand?
  split
  case h_7 => exact same_input hexpr
  case h_8 => exact same_format hexpr hread
  case h_9 => exact same_array hexpr hread
  case h_10 => exact same_grouping hexpr
  case h_11 | h_12 => exact (same_place hexpr hread).map _
  case h_13 =>
    cases PrefixOp.ofKind? x with
    | none => exact .refl _ _
    | some op => exact same_prefixed hexpr op
  all_goals exact .refl _ _

end Expressions

theorem kind_of_no_tokens {s : State} (h : s.stream.tokens.length < 1) : s.kind = .endOfFile := by
  have htokens : s.stream.tokens = [] := List.eq_nil_of_length_eq_zero (Nat.lt_one_iff.1 h)
  rw [State.kind, Stream.current, htokens]
  rfl

section Knot

variable {k : Nat} {expr expr' : Power → Parse Expr}
  (hexpr : ∀ power, SameBelow k (expr power) (expr' power))
  (hread : ∀ power s, Reads Shrinks 1 (expr power) s)
include hexpr hread

/-- At the end no operand begins. -/
theorem same_operand :
    SameBelow (k + 1) (operand expr) (operand expr') := by
  cases k with
  | zero =>
    intro s hs
    rw [operand, operand, run_currentKind, run_currentKind, kind_of_no_tokens hs]
    rfl
  | succ k =>
    have getD (expr : Power → Parse Expr) : operand expr = currentKind >>= fun x =>
        (operand? expr x).getD (failUnexpected "expected an expression") := by
      refine bind_congr fun x => ?_
      cases operand? expr x <;> rfl
    rw [getD, getD]
    exact kind fun x => same_operand? hexpr hread x _

/-- At the end no operator goes on. -/
theorem same_operatorsRound (power : Power) {rest rest' : Expr → Parse Expr}
    (hrest : ∀ left, SameBelow k (rest left) (rest' left)) (left : Expr) :
    SameBelow (k + 1) (operatorsRound expr power rest left)
      (operatorsRound expr' power rest' left) := by
  cases k with
  | zero =>
    intro s hs
    have hstop : (!s.stream.current.kind.power.exceeds power) = true := by
      rw [show s.stream.current.kind = .endOfFile from kind_of_no_tokens hs]
      rfl
    simp only [operatorsRound, run_current]
    rw [if_pos hstop, if_pos hstop]
  | succ k =>
    refine SameBelow.current fun t => ?_
    split
    next => exact .refl _ _
    next =>
      split
      next =>
        exact next fun _ => bind (n := 0) (hexpr _) (fun s => (hread _ s).zero) fun _ => hrest _
      next =>
        refine next fun _ => ?_
        split
        next => exact hrest _
        next => exact .refl _ _
      next => exact .refl _ _

theorem same_operators (power : Power) (n : Nat) (left : Expr) :
    SameBelow (k + 1) (operators expr power n left) (operators expr' power n left) := by
  induction n generalizing left with
  | zero => exact .refl _ _
  | succ n ih => exact same_operatorsRound hexpr hread power (fun left => (ih left).less) left

theorem same_expressionOf (power : Power) :
    SameBelow (k + 1) (expressionOf expr power) (expressionOf expr' power) :=
  bind (n := 0) (same_operand hexpr hread) (fun _ => (reads_operand hread).zero) fun left =>
    SameBelow.bound fun n => same_operators hexpr hread power n left

end Knot

/-! ### Statements -/

section Blocks

variable {k : Nat} {block block' : Parse Block} (hblock : SameBelow (k + 1) block block')
include hblock

theorem same_elseIf : SameBelow (k + 2) (elseIf block) (elseIf block') :=
  next fun _ => behind (n := 0) (fun _ => reads_condition.zero) fun _ => hblock.andThen _

theorem same_elseBlock : SameBelow (k + 1) (elseBlock block) (elseBlock block') := by
  refine kind fun x => ?_
  split
  next => exact (next fun _ => hblock.map some).less
  next => exact .refl _ _

theorem same_branchStmt (hread : ∀ s, Reads Shrinks 1 block s) :
    SameBelow (k + 2) (branchStmt block) (branchStmt block') := by
  refine next fun _ => behind (n := 0) (fun _ => reads_condition.zero) fun _ => ?_
  refine bind (n := 0) hblock (fun s => (hread s).zero) fun _ => ?_
  have helseIf (s : State) : Reads Shrinks 0 (elseIf block) s := (takes_elseIf hread).zero
  exact bind (n := 0) ((same_elseIf hblock).less.many helseIf)
    (fun _ => reads_many fun s _ => helseIf s) fun _ => (same_elseBlock hblock).andThen _

theorem same_repeatStmt : SameBelow (k + 2) (repeatStmt block) (repeatStmt block') :=
  next fun _ => behind (n := 0) (fun _ => reads_condition.zero) fun _ =>
    hblock.insideLoop.andThen _

theorem same_countStmt (names : Names) :
    SameBelow (k + 2) (countStmt names block) (countStmt names block') :=
  next fun _ => behind (n := 0) (fun _ => shrinks_expectSymbol _) fun _ =>
    behind (n := 0) (fun _ => (reads_loopStart names).zero) fun _ =>
    behind (n := 0) (fun _ => (reads_expression .lowest).zero) fun _ =>
    behind (n := 0) (fun _ => shrinks_expectSymbol _) fun _ =>
    behind (n := 0) (fun _ => reads_loopUpdate.zero) fun _ =>
    behind (n := 0) (fun _ => shrinks_expectSymbol _) fun _ => hblock.insideLoop.andThen _

theorem same_keywordStmt? (names : Names) (hread : ∀ s, Reads Shrinks 1 block s) (x : Keyword)
    (p : Parse Stmt) : SameBelow (k + 2) ((keywordStmt? names block x).getD p)
      ((keywordStmt? names block' x).getD p) := by
  unfold keywordStmt?
  split
  next => exact same_branchStmt hblock hread
  next => exact same_repeatStmt hblock
  next => exact same_repeatStmt hblock
  next => exact same_countStmt hblock names
  all_goals exact .refl _ _

end Blocks

variable {k : Nat}

/-- At the end no statement begins. -/
theorem same_stmt (names : Names) {block block' : Parse Block} (hblock : SameBelow k block block')
    (hread : ∀ s, Reads Shrinks 1 block s) :
    SameBelow (k + 1) (stmt names block) (stmt names block') := by
  cases k with
  | zero =>
    intro s hs
    rw [stmt, stmt, run_currentKind, run_currentKind, kind_of_no_tokens hs]
  | succ k =>
    refine kind fun x => ?_
    split
    next => exact same_keywordStmt? hblock names hread _ _
    next => exact .refl _ _
    next => exact .refl _ _
    next => exact .refl _ _

theorem same_blockOf {stmt stmt' : Parse Stmt} (hstmt : SameBelow k stmt stmt')
    (hread : ∀ s, Reads Shrinks 1 stmt s) : SameBelow k (blockOf stmt) (blockOf stmt') := by
  refine behind (n := 0) (fun _ => shrinks_expectSymbol _) fun _ => SameBelow.andThen _ ?_
  exact hstmt.recovering.many fun s => shrinks_recovering (hread s) skipStatement_suffix

end Uwu.Grammar
