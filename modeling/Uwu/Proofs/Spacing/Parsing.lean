import Uwu.Proofs.Spacing.Erasing

/-! Every parser, from expressions to programs, makes of tokens without places what it makes of the
tokens, without its spans. -/

namespace Uwu

namespace Grammar

variable {s s' : State}

/-! ### Lexemes -/

/-- Of the lexemes only those of keywords change. -/
theorem lexeme_erase_of_kind {t : Token} (h : ∀ k, t.kind ≠ .keyword k) :
    t.erase.lexeme = t.lexeme :=
  Token.lexeme_erase fun k _ => h k

theorem literalOf?_erase (t : Token) : literalOf? t.erase = literalOf? t := by
  obtain ⟨kind, lexeme, span⟩ := t
  cases kind with
  | keyword k => cases k <;> rfl
  | _ => rfl

theorem eraseSegments_textSegment (first last : Char) {t : Token}
    (h : ∀ k, t.kind ≠ .keyword k) :
    eraseSegments (textSegment first last t) = textSegment first last t.erase := by
  rw [textSegment, textSegment, lexeme_erase_of_kind h]
  split <;> rfl

/-! ### Expressions -/

theorem follows_literal : Follows eraseExpr literal literal := by
  apply follows_advance.bind
  intro t
  rw [literalOf?_erase]
  split
  next => exact follows_pure rfl
  next => exact follows_throw _ _

section Expressions

variable {expr : Power → Parse Expr} (hexpr : ∀ power, Follows eraseExpr (expr power) (expr power))
include hexpr

theorem follows_segments (n : Nat) :
    Follows (Prod.map eraseSegments Span.erase) (segments expr n) (segments expr n) := by
  induction n with
  | zero => exact follows_failExpected _
  | succ n ih =>
    apply (hexpr .lowest).bind
    intro e s s' hs
    -- From here on the states are fixed: the kind that is read is that of the next token, which is
    -- no keyword then and keeps its lexeme.
    apply followsAt_currentKind_bind hs
    split
    next hk =>
      have hne : ∀ k, s.stream.current.kind ≠ .keyword k := by simp [hk]
      apply followsAt_advance_bind hs
      apply ih.bind
      rintro ⟨rest, stop⟩
      apply follows_pure
      rw [← eraseSegments_textSegment _ _ hne, Prod.map_apply, eraseSegments, eraseSegments_append]
    next hk =>
      have hne : ∀ k, s.stream.current.kind ≠ .keyword k := by simp [hk]
      apply followsAt_advance_bind hs
      apply follows_pure
      rw [← eraseSegments_textSegment _ _ hne, Prod.map_apply, eraseSegments]
      rfl
    next => exact follows_failExpected _ s s' hs

theorem followsAt_format (hs : s.Erases s') (hk : s.kind = .stringPartStart) :
    FollowsAt eraseExpr (format expr) (format expr) s s' := by
  have hne : ∀ k, s.stream.current.kind ≠ .keyword k := by simp [hk]
  apply followsAt_advance_bind hs
  apply follows_bound.bind
  intro n
  apply (follows_segments hexpr n).bind
  rintro ⟨rest, stop⟩
  apply follows_pure
  rw [← eraseSegments_textSegment _ _ hne, eraseExpr, eraseSegments_append]
  rfl

theorem follows_input : Follows eraseExpr (input expr) (input expr) := by
  apply follows_advance.bind
  intro t
  apply (follows_expectSymbol _).bind
  intro _
  have rest (prompt : Option Expr) : Follows eraseExpr
      (do
        let stop ← expectSymbol .closeParen
        return .input prompt (t.span.through stop))
      (do
        let stop ← expectSymbol .closeParen
        return .input (erasePrompt prompt) (t.erase.span.through stop)) :=
    (follows_expectSymbol _).bind fun _ => follows_pure rfl
  apply follows_ifKind
  · have hnone : Follows erasePrompt (pure none) (pure none) := follows_pure rfl
    exact hnone.bind rest
  · have hsome : Follows erasePrompt (some <$> expr .lowest) (some <$> expr .lowest) :=
      (hexpr .lowest).map fun _ => rfl
    exact hsome.bind rest

theorem follows_listTo (close : Symbol) :
    Follows (Prod.map eraseAll Span.erase) (listTo close (expr .lowest))
      (listTo close (expr .lowest)) := by
  have h := Follows.listTo close (hexpr .lowest)
  rwa [eraseAll_eq] at h

theorem follows_array : Follows eraseExpr (array expr) (array expr) :=
  follows_advance.bind fun _ => (follows_listTo hexpr _).bind fun _ => follows_pure rfl

theorem follows_grouping : Follows eraseExpr (grouping expr) (grouping expr) :=
  follows_advance.bind fun _ => (hexpr .lowest).bind fun _ =>
    (follows_expectSymbol _).bind fun _ => follows_pure rfl

theorem follows_args : Follows (Prod.map eraseAll Span.erase) (args expr) (args expr) :=
  (follows_expectSymbol _).bind fun _ => follows_listTo hexpr _

theorem follows_index : Follows (Prod.map eraseExpr Span.erase) (index expr) (index expr) :=
  follows_advance.bind fun _ => (hexpr .lowest).bind fun _ =>
    (follows_expectSymbol _).bind fun _ => follows_pure rfl

theorem follows_link : Follows eraseLink (link expr) (link expr) := by
  apply follows_expectName.bind
  intro name
  apply follows_currentKind_bind
  intro k
  split
  next => exact (follows_args hexpr).bind fun _ => follows_pure rfl
  next =>
    apply (Follows.many _ (follows_index hexpr)).bind
    intro indices
    apply follows_pure
    have hindices : (indices.map (Prod.map eraseExpr Span.erase)).map Prod.fst =
        eraseAll (indices.map Prod.fst) := by
      rw [← eraseAll_eq, List.map_map, List.map_map]
      rfl
    have hstop : ((indices.map (Prod.map eraseExpr Span.erase)).getLast?.map Prod.snd).getD
        (unplaced name).span = default := by
      rw [List.getLast?_map]
      cases indices.getLast? <;> rfl
    rw [hindices, hstop]
    rfl
  next => exact follows_pure rfl

theorem followsAt_construction {id : Nat} (hs : s.Erases s') (hk : s.kind = .classId id) :
    FollowsAt erasePlace (construction expr) (construction expr) s s' := by
  have hne : ∀ k, s.stream.current.kind ≠ .keyword k := by simp [hk]
  apply followsAt_advance_bind hs
  rw [lexeme_erase_of_kind hne]
  apply follows_ifKind
  · exact (follows_args hexpr).bind fun _ => follows_pure rfl
  · exact follows_failExpected _

theorem follows_member : Follows eraseLink (member expr) (member expr) :=
  follows_advance.bind fun _ => follows_link hexpr

omit hexpr in
theorem erasePlace_addMember (p : Place) (l : Link) :
    erasePlace (addMember p l) = addMember (erasePlace p) (eraseLink l) := by
  rw [addMember, addMember, Place.span_erase, Link.span_erase, erasePlace]
  rfl

omit hexpr in
theorem erasePlace_foldl (ls : List Link) (p : Place) :
    erasePlace (ls.foldl addMember p) = (ls.map eraseLink).foldl addMember (erasePlace p) := by
  induction ls generalizing p with
  | nil => rfl
  | cons l ls ih => rw [List.foldl_cons, ih, erasePlace_addMember, List.map_cons, List.foldl_cons]

theorem follows_place : Follows erasePlace (place expr) (place expr) := by
  have members (first : Place) : Follows erasePlace
      (do
        let members ← many (· == .symbol .dot) (member expr)
        return members.foldl addMember first)
      (do
        let members ← many (· == .symbol .dot) (member expr)
        return members.foldl addMember (erasePlace first)) :=
    (Follows.many _ (follows_member hexpr)).bind fun ls => follows_pure (erasePlace_foldl ls first)
  have hlink : Follows erasePlace (Place.link <$> link expr) (Place.link <$> link expr) :=
    (follows_link hexpr).map fun _ => rfl
  intro s s' hs
  apply followsAt_currentKind_bind hs
  split
  next hk => exact (followsAt_construction hexpr hs hk).bind members
  next => exact (hlink s s' hs).bind members

theorem follows_prefixed (op : PrefixOp) :
    Follows eraseExpr (prefixed expr op) (prefixed expr op) := by
  apply follows_advance.bind
  intro t
  apply (hexpr .prefixed).bind
  intro operand
  apply follows_pure
  rw [Expr.span_erase]
  rfl

theorem followsAt_operand? {p : Parse Expr} (hs : s.Erases s')
    (h : operand? expr s.kind = some p) : FollowsAt eraseExpr p p s s' := by
  simp only [operand?] at h
  split at h
  all_goals try cases Option.some.inj h
  case h_7 => exact follows_input hexpr s s' hs
  case h_8 hk => exact followsAt_format hexpr hs hk
  case h_9 => exact follows_array hexpr s s' hs
  case h_10 => exact follows_grouping hexpr s s' hs
  case h_11 | h_12 =>
    have hplace : Follows eraseExpr (Expr.place <$> place expr) (Expr.place <$> place expr) :=
      (follows_place hexpr).map fun _ => rfl
    exact hplace s s' hs
  case h_13 =>
    obtain ⟨op, -, rfl⟩ := Option.map_eq_some_iff.mp h
    exact follows_prefixed hexpr op s s' hs
  all_goals exact follows_literal s s' hs

theorem follows_operand : Follows eraseExpr (operand expr) (operand expr) := by
  intro s s' hs
  apply followsAt_currentKind_bind hs
  split
  next h => exact followsAt_operand? hexpr hs h
  next => exact follows_failUnexpected _ s s' hs

theorem follows_operators (power : Power) (n : Nat) (left : Expr) :
    Follows eraseExpr (operators expr power n left) (operators expr power n (eraseExpr left)) := by
  induction n generalizing left with
  | zero => exact follows_pure rfl
  | succ n ih =>
    apply follows_current.bind
    intro t
    rw [Token.kind_erase]
    split
    next => exact follows_pure rfl
    next =>
      split
      next op _ =>
        apply follows_advance.bind
        intro _
        apply (hexpr _).bind
        intro right
        have h := ih (.infixed left ⟨op, t.span⟩ right (left.span.through right.span))
        rw [Expr.span_erase, Expr.span_erase]
        exact h
      next op _ _ =>
        apply follows_advance.bind
        intro _
        cases left with
        | place p =>
          have h := ih (.postfixed p ⟨op, t.span⟩ (p.span.through t.span))
          simp only [eraseExpr]
          rw [Place.span_erase]
          exact h
        | _ => exact follows_throw _ _
      next => exact follows_failHere _ _

end Expressions

theorem follows_exprWithin (n : Nat) (power : Power) :
    Follows eraseExpr (exprWithin n power) (exprWithin n power) := by
  induction n generalizing power with
  | zero => exact follows_failUnexpected _
  | succ n ih =>
    exact (follows_operand ih).bind fun left => follows_bound.bind fun k =>
      follows_operators ih power k left

theorem follows_expression (power : Power) :
    Follows eraseExpr (expression power) (expression power) :=
  follows_bound.bind fun n => follows_exprWithin n power

/-! ### Types -/

variable {names : Names}

theorem typeOf?_erase (t : Token) : typeOf? names t.erase = typeOf? names t := by
  obtain ⟨kind, lexeme, span⟩ := t
  cases kind <;> rfl

theorem follows_unitType : Follows id (unitType names) (unitType names) := by
  apply follows_current.bind
  intro t
  rw [typeOf?_erase]
  split
  next => exact follows_advance.bind fun _ => follows_pure rfl
  next => exact follows_failExpected _

theorem follows_dimension : Follows id dimension dimension :=
  follows_advance.bind fun _ => (follows_expectSymbol _).bind fun _ => follows_pure rfl

theorem follows_dataType : Follows id (dataType names) (dataType names) := by
  apply follows_unitType.bind
  intro unit
  apply (Follows.many _ follows_dimension).bind
  intro dimensions
  rw [List.map_id]
  exact follows_pure rfl

/-! ### Declarations and assignments -/

theorem follows_constMark : Follows id constMark constMark := by
  apply follows_currentKind_bind
  intro k
  apply follows_nextKind.bind
  intro next
  rw [id]
  split
  next => exact follows_advance.bind fun _ => follows_advance.bind fun _ => follows_pure rfl
  next => exact follows_pure rfl

theorem follows_none : Follows erasePrompt (pure none) (pure none) :=
  follows_pure rfl

theorem follows_some_expression :
    Follows erasePrompt (some <$> expression .lowest) (some <$> expression .lowest) :=
  (follows_expression .lowest).map fun _ => rfl

theorem isNone_erasePrompt (value : Option Expr) :
    (erasePrompt value).isNone = value.isNone := by
  cases value <;> rfl

theorem follows_declaration :
    Follows Declaration.erase (declaration names) (declaration names) := by
  apply follows_expectName.bind
  intro name
  apply (follows_expectSymbol _).bind
  intro _
  apply follows_dataType.bind
  intro type
  apply follows_constMark.bind
  intro isConst
  have rest (value : Option Expr) : Follows Declaration.erase
      (do
        let stop ← expectSymbol .terminator
        if isConst && value.isNone then record ⟨.constantWithoutValue name.value, name.span⟩
        return ⟨name, type, isConst, value, name.span.through stop⟩)
      (do
        let stop ← expectSymbol .terminator
        if isConst && (erasePrompt value).isNone then
          record ⟨.constantWithoutValue (unplaced name).value, (unplaced name).span⟩
        return ⟨unplaced name, type, isConst, erasePrompt value,
          (unplaced name).span.through stop⟩) := by
    apply (follows_expectSymbol _).bind
    intro _
    rw [isNone_erasePrompt]
    dsimp only
    split
    next => exact (follows_record _ _).bind fun _ => follows_pure rfl
    next => exact follows_pure rfl
  apply follows_ifKind
  · exact follows_advance.bind fun _ => follows_some_expression.bind rest
  · exact follows_none.bind rest

theorem follows_assignmentTo (target : Place) (op : AssignOp) :
    Follows Assignment.erase (assignmentTo target op) (assignmentTo (erasePlace target) op) := by
  rw [assignmentTo, assignmentTo, Place.isAssignable_erase]
  split
  next =>
    apply follows_advance.bind
    intro t
    apply (follows_expression .lowest).bind
    intro value
    apply follows_pure
    rw [Place.span_erase, Expr.span_erase]
    rfl
  next => exact follows_current.bind fun _ => follows_throw _ _

theorem follows_place_expression : Follows erasePlace (place expression) (place expression) :=
  follows_place follows_expression

theorem follows_args_expression :
    Follows (Prod.map eraseAll Span.erase) (args expression) (args expression) :=
  follows_args follows_expression

theorem follows_placeStmt : Follows Stmt.erase placeStmt placeStmt := by
  apply follows_place_expression.bind
  intro target
  apply follows_currentKind_bind
  intro kind
  rw [Place.isAssignable_erase, Place.span_erase]
  split
  next =>
    exact (follows_assignmentTo _ _).bind fun a => (follows_expectSymbol _).bind fun _ =>
      follows_pure rfl
  next =>
    exact follows_advance.bind fun t => (follows_expectSymbol _).bind fun _ => follows_pure rfl
  next =>
    split
    next => exact follows_failUnexpected _
    next => exact (follows_expectSymbol _).bind fun _ => follows_pure rfl

/-! ### Simple statements -/

theorem follows_printStmt : Follows Stmt.erase printStmt printStmt :=
  follows_advance.bind fun _ => follows_args_expression.bind fun _ =>
    (follows_expectSymbol _).bind fun _ => follows_pure rfl

theorem follows_leaveStmt : Follows Stmt.erase leaveStmt leaveStmt := by
  apply follows_advance.bind
  intro t
  have rest (value : Option Expr) : Follows Stmt.erase
      (do
        let stop ← expectSymbol .terminator
        return .leave value (t.span.through stop))
      (do
        let stop ← expectSymbol .terminator
        return .leave (erasePrompt value) (t.erase.span.through stop)) :=
    (follows_expectSymbol _).bind fun _ => follows_pure rfl
  apply follows_ifKind
  · exact follows_none.bind rest
  · exact follows_some_expression.bind rest

theorem follows_stopStmt : Follows Stmt.erase stopStmt stopStmt := by
  apply follows_advance.bind
  intro t
  apply (follows_expectSymbol _).bind
  intro _
  apply follows_isLooping.bind
  intro looping
  rw [id]
  dsimp only
  split
  next => exact (follows_record _ _).bind fun _ => follows_pure rfl
  next => exact follows_pure rfl

/-! ### Statements with blocks -/

theorem follows_condition : Follows eraseExpr condition condition :=
  (follows_expectSymbol _).bind fun _ => (follows_expression _).bind fun _ =>
    (follows_expectSymbol _).bind fun _ => follows_pure rfl

theorem follows_loopStart : Follows LoopStart.erase (loopStart names) (loopStart names) := by
  apply follows_declarationAhead.bind
  intro ahead
  cases ahead with
  | true => exact follows_declaration.bind fun d => follows_pure rfl
  | false =>
    apply follows_place_expression.bind
    intro target
    apply follows_currentKind_bind
    intro k
    split
    next =>
      exact (follows_assignmentTo _ _).bind fun a => (follows_expectSymbol _).bind fun _ =>
        follows_pure rfl
    next => exact follows_failExpected _

theorem follows_loopUpdate : Follows LoopUpdate.erase loopUpdate loopUpdate := by
  apply follows_place_expression.bind
  intro target
  apply follows_currentKind_bind
  intro kind
  rw [Place.span_erase]
  split
  next => exact (follows_assignmentTo _ _).bind fun a => follows_pure rfl
  next => exact follows_advance.bind fun t => follows_pure rfl
  next => exact follows_failExpected _

theorem follows_failNoStmt : Follows Stmt.erase failNoStmt failNoStmt :=
  follows_current.bind fun _ => follows_failHere _ _

section Blocks

variable {block : Parse Block} (hblock : Follows Block.erase block block)
include hblock

theorem follows_elseIf : Follows ElseIf.erase (elseIf block) (elseIf block) := by
  apply follows_advance.bind
  intro t
  apply follows_condition.bind
  intro e
  apply hblock.bind
  intro body
  apply follows_pure
  rw [Block.span_erase]
  rfl

theorem follows_elseBlock :
    Follows (Option.map Block.erase) (elseBlock block) (elseBlock block) := by
  apply follows_ifKind
  · exact follows_advance.bind fun _ => hblock.map fun _ => rfl
  · exact follows_pure rfl

theorem follows_branchStmt : Follows Stmt.erase (branchStmt block) (branchStmt block) := by
  apply follows_advance.bind
  intro t
  apply follows_condition.bind
  intro e
  apply hblock.bind
  intro body
  apply (Follows.many _ (follows_elseIf hblock)).bind
  intro elseIfs
  apply (follows_elseBlock hblock).bind
  intro elseBody
  apply follows_pure
  have hlast : (((elseIfs.map ElseIf.erase).getLast?.map ElseIf.span).getD body.erase.span) =
      default := by
    rw [List.getLast?_map, Block.span_erase]
    cases elseIfs.getLast? with
    | none => rfl
    | some last => exact last.span_erase
  have hstop : (((elseBody.map Block.erase).map Block.span).getD default) = default := by
    cases elseBody with
    | none => rfl
    | some b => exact b.span_erase
  rw [Stmt.erase_branch, hlast, hstop]
  rfl

theorem follows_repeatStmt : Follows Stmt.erase (repeatStmt block) (repeatStmt block) := by
  apply follows_advance.bind
  intro t
  apply follows_condition.bind
  intro e
  apply hblock.insideLoop.bind
  intro body
  apply follows_pure
  rw [Block.span_erase, Stmt.erase]
  rfl

theorem follows_countStmt :
    Follows Stmt.erase (countStmt names block) (countStmt names block) := by
  apply follows_advance.bind
  intro t
  apply (follows_expectSymbol _).bind
  intro _
  apply follows_loopStart.bind
  intro start
  apply (follows_expression _).bind
  intro e
  apply (follows_expectSymbol _).bind
  intro _
  apply follows_loopUpdate.bind
  intro update
  apply (follows_expectSymbol _).bind
  intro _
  apply hblock.insideLoop.bind
  intro body
  apply follows_pure
  rw [Block.span_erase, Stmt.erase]
  rfl

theorem follows_keywordStmt? (k : Keyword) :
    Follows Stmt.erase ((keywordStmt? names block k).getD failNoStmt)
      ((keywordStmt? names block k).getD failNoStmt) := by
  cases k with
  | iwf => exact follows_branchStmt hblock
  | whiwe | doWhiwe => exact follows_repeatStmt hblock
  | fow => exact follows_countStmt hblock
  | wetuwn => exact follows_leaveStmt
  | bweak => exact follows_stopStmt
  | pwint => exact follows_printStmt
  | _ => exact follows_failNoStmt

theorem follows_stmt : Follows Stmt.erase (stmt names block) (stmt names block) := by
  apply follows_currentKind_bind
  intro k
  split
  next => exact follows_keywordStmt? hblock _
  next =>
    apply follows_declarationAhead.bind
    intro ahead
    cases ahead with
    | true => exact follows_declaration.bind fun d => follows_pure rfl
    | false => exact follows_placeStmt
  next => exact follows_placeStmt
  next => exact follows_failNoStmt

end Blocks

/-! ### Blocks -/

theorem follows_blockOf {p : Parse Stmt} (hp : Follows Stmt.erase p p) :
    Follows Block.erase (blockOf p) (blockOf p) := by
  apply (follows_expectSymbol _).bind
  intro start
  apply (Follows.many _ (hp.recovering State.Erases.skipStatement)).bind
  intro body
  apply (follows_expectSymbol _).bind
  intro stop
  apply follows_pure
  rw [filterMap_id_map, eraseStmts_eq]
  rfl

theorem follows_stmtWithin (n : Nat) :
    Follows Stmt.erase (stmtWithin names n) (stmtWithin names n) := by
  induction n with
  | zero => exact follows_failNoStmt
  | succ n ih => exact follows_stmt (follows_blockOf ih)

theorem follows_codeBlock : Follows Block.erase (codeBlock names) (codeBlock names) :=
  follows_blockOf (follows_bound.bind follows_stmtWithin)

/-! ### Items -/

theorem follows_param : Follows Param.erase (param names) (param names) :=
  follows_expectName.bind fun _ => (follows_expectSymbol _).bind fun _ =>
    follows_dataType.bind fun _ => follows_spanBefore.bind fun _ => follows_pure rfl

theorem follows_params : Follows (List.map Param.erase) (params names) (params names) :=
  (follows_expectSymbol _).bind fun _ => (Follows.listTo _ follows_param).bind fun _ =>
    follows_pure rfl

theorem follows_expectKeyword (k : Keyword) :
    Follows Span.erase (expectKeyword k) (expectKeyword k) :=
  (follows_expect _).map fun _ => rfl

theorem follows_functionName : Follows unplaced functionName functionName := by
  intro s s' hs
  apply followsAt_currentKind_bind hs
  split
  next hk =>
    apply followsAt_advance_bind hs
    apply follows_pure
    have hlexeme : s.stream.current.erase.lexeme = s.stream.current.lexeme := by
      apply Token.lexeme_erase
      -- The keyword in the place of a name is a single word.
      intro k hmem hkind
      rw [State.kind, hkind] at hk
      cases hk
      exact absurd hmem (by decide)
    rw [hlexeme]
    rfl
  next => exact follows_expectName s s' hs

theorem follows_function : Follows Function.erase (function names) (function names) := by
  apply (follows_expectKeyword _).bind
  intro start
  apply follows_functionName.bind
  intro name
  apply (follows_expectSymbol _).bind
  intro _
  apply follows_dataType.bind
  intro returnType
  apply follows_params.bind
  intro ps
  apply follows_codeBlock.bind
  intro body
  apply follows_pure
  rw [Block.span_erase]
  rfl

theorem follows_global : Follows Declaration.erase (global names) (global names) :=
  (follows_expectKeyword _).bind fun _ => follows_declaration.bind fun _ => follows_pure rfl

def Member.erase : Member → Member
  | property d => property d.erase
  | method f => method f.erase

theorem follows_classMember : Follows Member.erase (classMember names) (classMember names) := by
  apply follows_ifKind
  · exact follows_function.bind fun _ => follows_pure rfl
  · apply follows_declarationAhead.bind
    intro ahead
    cases ahead with
    | true => exact follows_declaration.bind fun _ => follows_pure rfl
    | false => exact follows_failUnexpected _

theorem follows_className : Follows (Prod.map unplaced id) (className names) (className names) := by
  apply follows_current.bind
  intro t
  obtain ⟨kind, lexeme, span⟩ := t
  cases kind with
  | classId id => exact follows_unitType.bind fun _ => follows_pure rfl
  | _ => exact follows_failExpected _

theorem property?_erase (x : Member) :
    x.erase.property? = x.property?.map Declaration.erase := by
  cases x <;> rfl

theorem method?_erase (x : Member) : x.erase.method? = x.method?.map Function.erase := by
  cases x <;> rfl

theorem follows_classItem : Follows Class.erase (classItem names) (classItem names) := by
  apply (follows_expectKeyword _).bind
  intro start
  apply follows_className.bind
  rintro ⟨name, type⟩
  apply follows_params.bind
  intro ps
  apply (follows_expectSymbol _).bind
  intro _
  apply (Follows.many _ (follows_classMember.recovering State.Erases.skipStatement)).bind
  intro members
  apply (follows_expectSymbol _).bind
  intro stop
  apply follows_pure
  rw [filterMap_id_map, filterMap_map_comm property?_erase, filterMap_map_comm method?_erase]
  rfl

/-! ### Programs -/

def Item.erase : Item → Item
  | global d => global d.erase
  | function f => function f.erase
  | cls c => cls c.erase
  | entry f => entry f.erase

theorem follows_item : Follows Item.erase (item names) (item names) := by
  apply follows_currentKind_bind
  intro k
  split
  next => exact follows_global.bind fun _ => follows_pure rfl
  next => exact follows_classItem.bind fun _ => follows_pure rfl
  next =>
    apply follows_nextKind.bind
    intro next
    apply follows_function.bind
    intro f
    rw [id]
    split <;> exact follows_pure rfl
  next => exact follows_current.bind fun _ => follows_failHere _ _

theorem follows_itemsUpTo (n : Nat) (hasEntry : Bool) :
    Follows (List.map Item.erase) (itemsUpTo names n hasEntry) (itemsUpTo names n hasEntry) := by
  induction n generalizing hasEntry with
  | zero => exact follows_pure rfl
  | succ n ih =>
    apply follows_ifKind _ (follows_pure rfl)
    apply (follows_item.recovering State.Erases.skipItem).bind
    intro found
    cases found with
    | none => exact ih hasEntry
    | some i =>
      cases i with
      | entry f =>
        have rest : Follows (List.map Item.erase)
            (do return .entry f :: (← itemsUpTo names n true))
            (do return .entry f.erase :: (← itemsUpTo names n true)) :=
          (ih true).bind fun _ => follows_pure rfl
        cases hasEntry with
        | true => exact (follows_record _ _).bind fun _ => rest
        | false => exact rest
      | _ => exact (ih hasEntry).bind fun _ => follows_pure rfl

section Picks

variable (i : Item)

theorem global?_erase : i.erase.global? = i.global?.map Declaration.erase := by
  cases i <;> rfl

theorem function?_erase : i.erase.function? = i.function?.map Function.erase := by
  cases i <;> rfl

theorem class?_erase : i.erase.class? = i.class?.map Class.erase := by
  cases i <;> rfl

theorem entry?_erase : i.erase.entry? = i.entry?.map Function.erase := by
  cases i <;> rfl

end Picks

theorem follows_items : Follows (List.map Item.erase) (items names) (items names) := by
  apply follows_bound.bind
  intro n
  apply (follows_itemsUpTo n false).bind
  intro is
  rw [filterMap_map_comm entry?_erase, List.isEmpty_map]
  dsimp only
  split
  next => exact follows_current.bind fun _ => (follows_record _ _).bind fun _ => follows_pure rfl
  next => exact follows_pure rfl

theorem State.Erases.ofTokens (tokens : List Token) :
    (State.ofTokens tokens).Erases (State.ofTokens (tokens.map Token.erase)) :=
  ⟨Stream.ofTokens_erase tokens, rfl, Iff.rfl⟩

end Grammar

/-- Tokens without places make the program without its spans, or none if there is none. -/
theorem Program.ofTokens_erase (tokens : List Token) (names : Names) :
    (ofTokens (tokens.map Token.erase) names).toOption =
      (ofTokens tokens names).toOption.map erase := by
  have hitems := @Grammar.follows_items names _ _ (.ofTokens tokens)
  unfold Grammar.FollowsAt at hitems
  rw [ofTokens, ofTokens]
  cases hrun : Grammar.items names (.ofTokens tokens) with
  | error d s =>
    rw [hrun] at hitems
    obtain ⟨d', s', hrun', -⟩ := hitems
    rw [hrun']
    rfl
  | ok is s =>
    rw [hrun] at hitems
    obtain ⟨s', hrun', hs⟩ := hitems
    rw [hrun']
    simp only [Grammar.filterMap_map_comm Grammar.entry?_erase,
      Grammar.filterMap_map_comm Grammar.global?_erase,
      Grammar.filterMap_map_comm Grammar.function?_erase,
      Grammar.filterMap_map_comm Grammar.class?_erase]
    cases hrecorded : s.recorded with
    | cons d ds =>
      obtain ⟨d', ds', hrecorded'⟩ := List.exists_cons_of_ne_nil
        (mt hs.recorded.1 (hrecorded ▸ List.cons_ne_nil d ds))
      rw [hrecorded']
      rfl
    | nil =>
      rw [hs.recorded.2 hrecorded]
      cases is.filterMap Grammar.Item.entry? <;> rfl

end Uwu
