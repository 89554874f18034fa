import Uwu.Proofs.Places.Laying

/-! The spans of an accepted program nest. The span that a parser gives reaches from the first to the
last of the row that it lays, so whatever it puts inside lies there. What grows to the right, by an
operator or a member, is taken into a new frame together with what follows. -/

namespace Uwu.Grammar

open Outline

variable {s : State}

/-! ### Expressions -/

theorem draws_literal (hs : isPlain s.kind) : Draws Expr.outline literal s := by
  refine .next hs fun t => ?_
  cases literalOf? s.stream.current with
  | some value => exact lays_pure rfl
  | none => exact lays_throw _

theorem segmentOutlines_textSegment (first last : Char) (t : Token) :
    segmentOutlines (textSegment first last t) = [] := by
  unfold textSegment
  split <;> rfl

theorem frames_postfixed (p : Place) (op : Located PostfixOp) :
    Frames (.node (p.span.through op.span) [p.outline, leaf op.span])
      [p.outline, leaf op.span] := by
  rw [← p.span_outline]
  exact frames_through p.outline (leaf op.span) [] (.refl _)

theorem frames_infixed (left : Expr) (op : Located InfixOp) (right : Expr) :
    Frames (Expr.outline (.infixed left op right (left.span.through right.span)))
      [left.outline, leaf op.span, right.outline] := by
  rw [Expr.outline, ← left.span_outline, ← right.span_outline]
  exact frames_through left.outline right.outline [_] (.refl _)

/-- A frame is extended with the members of a path one by one. -/
theorem becomes_addMember (links : List Link) (first : Place) :
    Becomes (first.outline :: links.map Link.outline) [(links.foldl addMember first).outline] := by
  induction links generalizing first with
  | nil => exact .refl _
  | cons l links ih =>
    have hframe : Frames (addMember first l).outline [first.outline, l.outline] := by
      have hspan : first.span.through l.span = first.outline.span.through l.outline.span := by
        rw [first.span_outline, l.span_outline]
      rw [addMember, Place.outline, hspan]
      exact ⟨⟨_, rfl, _, rfl, rfl⟩, .refl _⟩
    exact hframe.becomes.trans (ih (addMember first l))

section Expressions

variable {expr : Power → Parse Expr} (hexpr : ∀ power t, Draws Expr.outline (expr power) t)
include hexpr

theorem lays_segments (n : Nat) :
    Lays (fun x xs => xs = segmentOutlines x.1 ++ [leaf x.2]) (segments expr n) s := by
  induction n generalizing s with
  | zero => exact lays_failExpected _
  | succ n ih =>
    refine (hexpr .lowest s).then fun e t => ?_
    apply lays_currentKind_bind.2
    split
    next hk =>
      have hmid : Reads Shrinks 1 advance t := reads_advance (by rw [hk]; rfl)
      refine hmid.andLays fun mid t => ih.result ?_
      rintro ⟨rest, stop⟩ _ rfl
      simp only [segmentOutlines, segmentOutlines_append, segmentOutlines_textSegment,
        List.nil_append, List.cons_append]
    next hk =>
      refine .next (by rw [hk]; rfl) fun _ => lays_pure ?_
      simp only [segmentOutlines, segmentOutlines_textSegment, List.cons_append, List.nil_append]
    next => exact lays_failExpected _

theorem draws_format (hs : isPlain s.kind) : Draws Expr.outline (format expr) s := by
  refine Lays.framed (.next hs fun t => lays_bound_bind.2 ((lays_segments hexpr _).result ?_))
  rintro ⟨rest, stop⟩ _ rfl
  rw [Expr.outline, segmentOutlines_append, segmentOutlines_textSegment, List.nil_append]
  exact frames_between (leaf s.stream.current.span) (leaf stop) _

theorem draws_input (hs : isPlain s.kind) : Draws Expr.outline (input expr) s := by
  refine Lays.framed (.next hs fun t => (shrinks_expectSymbol _).andLays fun _ t => ?_)
  apply lays_currentKind_bind.2
  have hclose (prompt : Option Expr) (t : State) :
      Lays (fun e ys => Frames (Expr.outline e)
        (leaf s.stream.current.span :: (prompt.toList.map Expr.outline ++ ys)))
        (do
          let stop ← expectSymbol .closeParen
          return .input prompt (s.stream.current.span.through stop)) t := by
    refine draws_expectSymbol.result ?_
    rintro stop _ rfl
    have hframe := frames_between (leaf s.stream.current.span) (leaf stop)
      (prompt.toList.map Expr.outline)
    cases prompt <;> exact hframe
  split
  next => exact hclose none t
  next =>
    refine Lays.bind ((hexpr .lowest t).map (g := some)
      (Q := fun e xs => xs = e.toList.map Expr.outline) fun _ _ hxs => hxs) ?_
    rintro prompt t _ rfl
    exact hclose prompt t

theorem draws_array (hs : isPlain s.kind) : Draws Expr.outline (array expr) s := by
  refine Lays.framed (.next hs fun t => (lays_listTo (hexpr .lowest)).result ?_)
  rintro ⟨es, stop⟩ _ rfl
  rw [Expr.outline, exprOutlines_eq]
  exact frames_between (leaf s.stream.current.span) (leaf stop) _

theorem draws_grouping (hs : isPlain s.kind) : Draws Expr.outline (grouping expr) s := by
  have hopen : Reads Shrinks 1 advance s := reads_advance hs
  refine hopen.andLays fun _ t => (hexpr .lowest t).then fun e t => ?_
  exact (shrinks_expectSymbol _).andLays fun _ _ => lays_pure rfl

theorem lays_args :
    Lays (fun x xs => xs = x.1.map Expr.outline ++ [leaf x.2]) (args expr) s :=
  (shrinks_expectSymbol _).andLays fun _ _ => lays_listTo (hexpr .lowest)

theorem lays_index (hs : isPlain s.kind) :
    Lays (fun x xs => xs = [x.1.outline, leaf x.2]) (index expr) s := by
  have hopen : Reads Shrinks 1 advance s := reads_advance hs
  refine hopen.andLays fun _ t => (hexpr .lowest t).then fun e t => draws_expectSymbol.result ?_
  rintro stop _ rfl
  rfl

omit hexpr in
/-- A path that is indexed ends with its last bracket. -/
theorem frames_indexed (name : Name) (indices : List (Expr × Span)) :
    Frames (Link.outline (.indexed name (indices.map Prod.fst)
        (name.span.through ((indices.getLast?.map Prod.snd).getD name.span))))
      (leaf name.span :: indices.flatMap fun x => [x.1.outline, leaf x.2]) := by
  have hchildren (xs : List (Expr × Span)) : ((xs.map Prod.fst).map Expr.outline).Sublist
      (xs.flatMap fun x => [x.1.outline, leaf x.2]) := by
    induction xs with
    | nil => exact .slnil
    | cons x xs ih => exact (ih.cons _).cons_cons _
  rw [Link.outline, exprOutlines_eq]
  rcases List.eq_nil_or_concat indices with rfl | ⟨front, x, rfl⟩
  · exact ⟨⟨_, rfl, _, rfl, rfl⟩, .refl _⟩
  · have hrow : (front ++ [x]).flatMap (fun x => [x.1.outline, leaf x.2]) =
        (front.flatMap fun x => [x.1.outline, leaf x.2]) ++ [x.1.outline] ++ [leaf x.2] := by
      simp
    have hinside := (hchildren (front ++ [x])).cons_cons (leaf name.span)
    rw [hrow] at hinside
    rw [List.concat_eq_append, hrow, List.getLast?_concat]
    exact frames_through (leaf name.span) (leaf x.2) _ hinside

theorem draws_link : Draws Link.outline (link expr) s := by
  refine Lays.framed (draws_expectName.then fun name t => ?_)
  apply lays_currentKind_bind.2
  split
  next =>
    refine (lays_args hexpr).result ?_
    rintro ⟨es, stop⟩ _ rfl
    rw [Link.outline, exprOutlines_eq]
    exact frames_before (leaf name.span) (leaf stop) _
  next =>
    refine (lays_many fun t ht => lays_index hexpr (by rw [beq_iff_eq.1 ht]; rfl)).result ?_
    rintro indices _ rfl
    exact frames_indexed name indices
  next => exact lays_pure ⟨⟨_, rfl, _, rfl, rfl⟩, List.nil_sublist _⟩

theorem draws_construction (hs : isPlain s.kind) : Draws Place.outline (construction expr) s := by
  refine Lays.framed (.next hs fun t => ?_)
  apply lays_currentKind_bind.2
  split
  next =>
    refine (lays_args hexpr).result ?_
    rintro ⟨es, stop⟩ _ rfl
    rw [Place.outline, exprOutlines_eq]
    exact frames_before (leaf s.stream.current.span) (leaf stop) _
  next => exact lays_failExpected _

theorem draws_member (hs : isPlain s.kind) : Draws Link.outline (member expr) s := by
  have hdot : Reads Shrinks 1 advance s := reads_advance hs
  exact hdot.andLays fun _ _ => draws_link hexpr

theorem draws_place : Draws Place.outline (place expr) s := by
  have members (first : Place) (t : State) : Lays
      (fun p ys => Becomes ([first.outline] ++ ys) [p.outline]) (do
        let members ← many (· == .symbol .dot) (member expr)
        return members.foldl addMember first) t := by
    refine (lays_many fun t ht => draws_member hexpr (by rw [beq_iff_eq.1 ht]; rfl)).result ?_
    rintro links _ rfl
    rw [← List.map_eq_flatMap]
    exact becomes_addMember links first
  refine Lays.draws (lays_currentKind_bind.2 ?_)
  dsimp only
  split
  next hk => exact (draws_construction hexpr (by rw [hk]; rfl)).then members
  next =>
    have hlink : Draws Place.outline (Place.link <$> link expr) s :=
      (draws_link hexpr).map fun l xs hxs => hxs
    exact hlink.then members

theorem draws_prefixed (op : PrefixOp) (hs : isPlain s.kind) :
    Draws Expr.outline (prefixed expr op) s := by
  refine Lays.framed (.next hs fun t => (hexpr .prefixed t).result ?_)
  rintro e _ rfl
  rw [Expr.outline, ← e.span_outline]
  exact frames_through (leaf s.stream.current.span) e.outline [] (.refl _)

theorem draws_operand? {p : Parse Expr} (hp : operand? expr s.kind = some p) :
    Draws Expr.outline p s := by
  have hs := isPlain_of_operand? hp
  have hplace : Draws Expr.outline (Expr.place <$> place expr) s :=
    (draws_place hexpr).map fun _ _ hxs => hxs
  simp only [operand?] at hp
  split at hp
  all_goals try cases Option.some.inj hp
  case h_7 => exact draws_input hexpr hs
  case h_8 => exact draws_format hexpr hs
  case h_9 => exact draws_array hexpr hs
  case h_10 => exact draws_grouping hexpr hs
  case h_11 | h_12 => exact hplace
  case h_13 =>
    obtain ⟨op, -, rfl⟩ := Option.map_eq_some_iff.mp hp
    exact draws_prefixed hexpr op hs
  all_goals exact draws_literal hs

theorem draws_operand : Draws Expr.outline (operand expr) s := by
  apply lays_currentKind_bind.2
  split
  next p hp => exact draws_operand? hexpr hp
  next => exact lays_failUnexpected _

/-- An operator takes what was made before it and its right operand into a frame. -/
theorem lays_operators (power : Power) (n : Nat) (left : Expr) :
    Lays (fun e ys => Becomes (left.outline :: ys) [e.outline]) (operators expr power n left) s := by
  induction n generalizing s left with
  | zero => exact lays_pure (.refl _)
  | succ n ih =>
    rw [operators, lays_current_bind]
    split
    next => exact lays_pure (.refl _)
    next hx =>
      have hs : isPlain s.kind := isPlain_of_exceeds (by simpa using hx)
      split
      next op _ =>
        refine .next hs fun t => (hexpr op.power t).then fun right t => ?_
        refine (ih (.infixed left ⟨op, s.stream.current.span⟩ right _)).becomes ?_
        intro e ys h
        refine ⟨ys, .refl ys, Becomes.trans ?_ h⟩
        exact (frames_infixed left ⟨op, s.stream.current.span⟩ right).becomes
      next op _ _ =>
        refine .next hs fun t => ?_
        split
        next p =>
          refine (ih (.postfixed p ⟨op, s.stream.current.span⟩ _)).becomes ?_
          intro e ys h
          refine ⟨ys, .refl ys, Becomes.trans ?_ h⟩
          exact (frames_postfixed p ⟨op, s.stream.current.span⟩).becomes
        next => exact lays_throw _
      next => exact lays_failHere _

end Expressions

theorem draws_exprWithin (n : Nat) (power : Power) : Draws Expr.outline (exprWithin n power) s := by
  induction n generalizing s power with
  | zero => exact lays_failUnexpected _
  | succ n ih =>
    have hexpr (power : Power) (t : State) : Draws Expr.outline (exprWithin n power) t := ih power
    refine Lays.draws ((draws_operand hexpr).then fun left t => lays_bound_bind.2 ?_)
    exact lays_operators hexpr power _ left

theorem draws_expression (power : Power) : Draws Expr.outline (expression power) s :=
  lays_bound_bind.2 (draws_exprWithin _ power)

theorem draws_targetPlace : Draws Place.outline (place expression) s :=
  draws_place fun power _ => draws_expression power

/-! ### Declarations and assignments -/

section Statements

variable {names : Names}

/-- The frame of a declaration, which that of a global goes beyond. -/
theorem lays_declaration : Lays (fun d xs => Frames d.outline xs) (declaration names) s := by
  refine draws_expectName.then fun name t => (shrinks_expectSymbol _).andLays fun _ t => ?_
  have htype (t : State) : Reads Shrinks 1 (dataType names) t := reads_dataType names
  have hmark (t : State) : Reads Shrinks 0 constMark t := reads_constMark
  refine (htype t).andLays fun type t => (hmark t).andLays fun isConst t => ?_
  have rest (value : Option Expr) (t : State) : Lays (fun d ys => Frames (Declaration.outline d)
      ([leaf name.span] ++ (value.toList.map Expr.outline ++ ys))) (do
      let stop ← expectSymbol .terminator
      if isConst && value.isNone then record ⟨.constantWithoutValue name.value, name.span⟩
      return (⟨name, type, isConst, value, name.span.through stop⟩ : Declaration)) t := by
    refine draws_expectSymbol.then fun stop t => ?_
    have hframe : Frames (Declaration.outline ⟨name, type, isConst, value, name.span.through stop⟩)
        ([leaf name.span] ++ (value.toList.map Expr.outline ++ ([leaf stop] ++ []))) :=
      frames_before (leaf name.span) (leaf stop) _
    split
    next =>
      have hrecord (d : Diagnostic) : Reads Shrinks 0 (record d) t := reads_record d
      exact (hrecord _).andLays fun _ _ => lays_pure hframe
    next => exact lays_pure hframe
  apply lays_currentKind_bind.2
  split
  next hk =>
    have hassign : Reads Shrinks 1 advance t := reads_advance (by rw [hk]; rfl)
    refine hassign.andLays fun _ t => ?_
    refine Lays.bind ((draws_expression .lowest).map (g := some)
      (Q := fun e xs => xs = e.toList.map Expr.outline) fun _ _ hxs => hxs) ?_
    rintro value t _ rfl
    exact rest value t
  next => exact rest none t

theorem draws_declaration : Draws Declaration.outline (declaration names) s :=
  lays_declaration.framed

/-- The frame of an assignment to what was read before, which that of a statement goes beyond. -/
theorem lays_assignmentTo (target : Place) (op : AssignOp) (hs : isPlain s.kind) :
    Lays (fun a ys => Frames a.outline ([target.outline] ++ ys)) (assignmentTo target op) s := by
  rw [assignmentTo]
  split
  next =>
    refine .next hs fun t => (draws_expression .lowest).result ?_
    rintro value _ rfl
    rw [Assignment.outline, ← target.span_outline, ← value.span_outline]
    exact frames_through target.outline value.outline [_] (.refl _)
  next => exact lays_current_bind.2 (lays_throw _)

theorem draws_placeStmt : Draws Stmt.outline placeStmt s := by
  refine Lays.draws (draws_targetPlace.then fun target t => ?_)
  apply lays_currentKind_bind.2
  split
  next op hop =>
    refine (lays_assignmentTo target op (isPlain_of_assignOp hop)).bind fun a t ys hframe => ?_
    refine draws_expectSymbol.result ?_
    rintro stop _ rfl
    rw [← List.append_assoc]
    exact (hframe.extend (leaf stop)).becomes_self
  next op _ hop =>
    refine .next (isPlain_of_postfixOp hop) fun u => draws_expectSymbol.result ?_
    rintro stop _ rfl
    have hvalue := frames_postfixed target ⟨op, t.stream.current.span⟩
    exact hvalue.becomes.trans (frames_before _ (leaf stop) []).becomes_self
  next =>
    split
    next => exact lays_failUnexpected _
    next =>
      refine draws_expectSymbol.result ?_
      rintro stop _ rfl
      have hframe := frames_before target.outline (leaf stop) []
      rw [target.span_outline] at hframe
      exact hframe.becomes_self

/-! ### Simple statements -/

theorem draws_printStmt (hs : isPlain s.kind) : Draws Stmt.outline printStmt s := by
  refine Lays.draws (.next hs fun t => ?_)
  refine (lays_args fun power _ => draws_expression power).bind ?_
  rintro ⟨es, close⟩ t _ rfl
  refine draws_expectSymbol.result ?_
  rintro stop _ rfl
  rw [Stmt.outline, exprOutlines_eq]
  have hinside : (es.map Expr.outline).Sublist
      (leaf s.stream.current.span :: ((es.map Expr.outline ++ [leaf close]) ++ [leaf stop])) :=
    ((List.sublist_append_left _ _).trans (List.sublist_append_left _ _)).cons _
  exact (frames_through (leaf s.stream.current.span) (leaf stop) _ hinside).becomes_self

theorem draws_leaveStmt (hs : isPlain s.kind) : Draws Stmt.outline leaveStmt s := by
  refine Lays.framed (.next hs fun t => ?_)
  have hstop (value : Option Expr) (t : State) :
      Lays (fun st ys => Frames (Stmt.outline st)
        (leaf s.stream.current.span :: (value.toList.map Expr.outline ++ ys)))
        (do
          let stop ← expectSymbol .terminator
          return .leave value (s.stream.current.span.through stop)) t := by
    refine draws_expectSymbol.result ?_
    rintro stop _ rfl
    exact frames_between (leaf s.stream.current.span) (leaf stop) _
  apply lays_currentKind_bind.2
  split
  next => exact hstop none t
  next =>
    refine Lays.bind ((draws_expression .lowest).map (g := some)
      (Q := fun e xs => xs = e.toList.map Expr.outline) fun _ _ hxs => hxs) ?_
    rintro value t _ rfl
    exact hstop value t

theorem draws_stopStmt (hs : isPlain s.kind) : Draws Stmt.outline stopStmt s := by
  refine Lays.framed (.next hs fun t => draws_expectSymbol.then fun stop t => ?_)
  have hframe : Frames (Stmt.outline (.stop (s.stream.current.span.through stop)))
      (leaf s.stream.current.span :: ([leaf stop] ++ [])) :=
    frames_between (leaf s.stream.current.span) (leaf stop) []
  apply lays_isLooping_bind.2
  split
  next =>
    have hrecord (d : Diagnostic) : Reads Shrinks 0 (record d) t := reads_record d
    exact (hrecord _).andLays fun _ _ => lays_pure hframe
  next => exact lays_pure hframe

/-! ### Statements with blocks -/

theorem draws_condition : Draws Expr.outline condition s := by
  refine (shrinks_expectSymbol _).andLays fun _ t => (draws_expression .lowest).then fun e t => ?_
  exact (shrinks_expectSymbol _).andLays fun _ _ => lays_pure rfl

section Blocks

variable {block : Parse Block} (hblock : ∀ t, Draws Block.outline block t)
include hblock

theorem draws_elseIf (hs : isPlain s.kind) : Draws ElseIf.outline (elseIf block) s := by
  refine Lays.framed (.next hs fun t => draws_condition.then fun e t => (hblock t).result ?_)
  rintro body _ rfl
  rw [ElseIf.outline, ← body.span_outline]
  exact frames_through (leaf s.stream.current.span) body.outline [_] (List.sublist_cons_self _ _)

theorem lays_elseBlock :
    Lays (fun b xs => xs = b.toList.map Block.outline) (elseBlock block) s := by
  rw [elseBlock, lays_currentKind_bind]
  split
  next hk =>
    have helse : Reads Shrinks 1 advance s := reads_advance (by rw [hk]; rfl)
    exact helse.andLays fun _ t => (hblock t).map fun _ _ hxs => hxs
  next => exact lays_pure rfl

omit hblock in
/-- A branch ends with the last of its blocks. -/
theorem frames_branch (t : Span) (e : Expr) (body : Block) (elseIfs : List ElseIf)
    (elseBody : Option Block) :
    Frames (Stmt.outline (.branch e body elseIfs elseBody (t.through
        ((elseBody.map Block.span).getD ((elseIfs.getLast?.map ElseIf.span).getD body.span)))))
      (leaf t :: e.outline :: body.outline :: (elseIfs.map ElseIf.outline ++
        elseBody.toList.map Block.outline)) := by
  rw [Stmt.outline_branch]
  cases elseBody with
  | some b =>
    have hframe := frames_through (leaf t) b.outline
      (e.outline :: body.outline :: elseIfs.map ElseIf.outline) (List.sublist_cons_self _ _)
    rw [b.span_outline] at hframe
    exact hframe
  | none =>
    rcases List.eq_nil_or_concat elseIfs with rfl | ⟨front, x, rfl⟩
    · have hframe := frames_through (leaf t) body.outline [e.outline] (List.sublist_cons_self _ _)
      rw [body.span_outline] at hframe
      exact hframe
    · have hframe := frames_through (leaf t) x.outline
        (e.outline :: body.outline :: front.map ElseIf.outline) (List.sublist_cons_self _ _)
      simpa using hframe

theorem draws_branchStmt (hs : isPlain s.kind) : Draws Stmt.outline (branchStmt block) s := by
  refine Lays.framed (.next hs fun t => draws_condition.then fun e t => ?_)
  refine (hblock t).then fun body t => ?_
  refine (lays_many fun t ht => draws_elseIf hblock (by rw [beq_iff_eq.1 ht]; rfl)).then ?_
  intro elseIfs t
  refine (lays_elseBlock hblock).result ?_
  rintro elseBody _ rfl
  rw [← List.map_eq_flatMap]
  exact frames_branch s.stream.current.span e body elseIfs elseBody

theorem draws_repeatStmt (hs : isPlain s.kind) : Draws Stmt.outline (repeatStmt block) s := by
  refine Lays.framed (.next hs fun t => draws_condition.then fun e t => ?_)
  refine (Lays.insideLoop hblock).result ?_
  rintro body _ rfl
  rw [Stmt.outline, ← body.span_outline]
  exact frames_through (leaf s.stream.current.span) body.outline [_] (List.sublist_cons_self _ _)

omit hblock in
theorem draws_loopStart : Draws LoopStart.outline (loopStart names) s := by
  apply lays_declarationAhead_bind.2
  split
  next => exact draws_declaration.result fun _ _ hxs => hxs
  next =>
    refine Lays.draws (draws_targetPlace.then fun target t => ?_)
    apply lays_currentKind_bind.2
    split
    next op hop =>
      refine (lays_assignmentTo target op (isPlain_of_assignOp hop)).bind fun a t ys hframe => ?_
      exact (shrinks_expectSymbol _).andLays fun _ _ => lays_pure (by
        rw [List.append_nil]
        exact hframe.becomes_self)
    next => exact lays_failExpected _

omit hblock in
theorem draws_loopUpdate : Draws LoopUpdate.outline loopUpdate s := by
  refine Lays.draws (draws_targetPlace.then fun target t => ?_)
  apply lays_currentKind_bind.2
  split
  next op hop =>
    exact (lays_assignmentTo target op (isPlain_of_assignOp hop)).result fun a ys hframe =>
      hframe.becomes_self
  next op _ hop =>
    refine .next (isPlain_of_postfixOp hop) fun u => lays_pure ?_
    exact (frames_postfixed target ⟨op, t.stream.current.span⟩).becomes_self
  next => exact lays_failExpected _

theorem draws_countStmt (hs : isPlain s.kind) :
    Draws Stmt.outline (countStmt names block) s := by
  refine Lays.framed (.next hs fun t => (shrinks_expectSymbol _).andLays fun _ t => ?_)
  refine draws_loopStart.then fun start t => (draws_expression .lowest).then fun e t => ?_
  refine (shrinks_expectSymbol _).andLays fun _ t => draws_loopUpdate.then fun update t => ?_
  refine (shrinks_expectSymbol _).andLays fun _ t => (Lays.insideLoop hblock).result ?_
  rintro body _ rfl
  rw [Stmt.outline, ← body.span_outline]
  exact frames_through (leaf s.stream.current.span) body.outline [_, _, _]
    (List.sublist_cons_self _ _)

theorem draws_stmt : Draws Stmt.outline (stmt names block) s := by
  apply lays_currentKind_bind.2
  split
  next k hk =>
    have hs : isPlain s.kind := by rw [hk]; rfl
    unfold keywordStmt?
    split
    next => exact draws_branchStmt hblock hs
    next => exact draws_repeatStmt hblock hs
    next => exact draws_repeatStmt hblock hs
    next => exact draws_countStmt hblock hs
    next => exact draws_leaveStmt hs
    next => exact draws_stopStmt hs
    next => exact draws_printStmt hs
    next => exact lays_current_bind.2 (lays_failHere _)
  next =>
    apply lays_declarationAhead_bind.2
    split
    next => exact draws_declaration.result fun _ _ hxs => hxs
    next => exact draws_placeStmt
  next => exact draws_placeStmt
  next => exact lays_current_bind.2 (lays_failHere _)

end Blocks

theorem draws_blockOf {stmt : Parse Stmt} (hstmt : ∀ t, Draws Stmt.outline stmt t) :
    Draws Block.outline (blockOf stmt) s := by
  refine Lays.framed (draws_expectSymbol.then fun start t => ?_)
  refine (lays_many fun t _ => lays_recovering (hstmt t) skipStatement_suffix).then fun body t => ?_
  refine draws_expectSymbol.result ?_
  rintro stop _ rfl
  rw [flatMap_filterMap_id, ← List.map_eq_flatMap, Block.outline, stmtOutlines_eq]
  exact frames_between (leaf start) (leaf stop) _

theorem draws_stmtWithin (n : Nat) : Draws Stmt.outline (stmtWithin names n) s := by
  induction n generalizing s with
  | zero => exact lays_current_bind.2 (lays_failHere _)
  | succ n ih => exact draws_stmt fun _ => draws_blockOf fun _ => ih

theorem draws_codeBlock : Draws Block.outline (codeBlock names) s :=
  draws_blockOf fun _ => lays_bound_bind.2 (draws_stmtWithin _)

/-! ### Functions and classes -/

theorem draws_param : Draws Param.outline (param names) s := by
  refine Lays.framed (draws_expectName.then fun name t => (shrinks_expectSymbol _).andLays ?_)
  intro _ t
  have htype : Reads Passes 1 (dataType names) t := reads_dataType names
  refine htype.andLaysBefore fun type t x => lays_pure ?_
  exact frames_before (leaf name.span) (leaf x) []

theorem lays_params : Lays (fun qs xs => xs = qs.map Param.outline) (params names) s := by
  refine (shrinks_expectSymbol _).andLays fun _ t => ?_
  refine ((lays_listTo fun _ => draws_param).result (g := Prod.fst) (Q := fun qs xs =>
    Becomes xs (qs.map Param.outline)) ?_).becomes fun qs xs h => ⟨_, h, rfl⟩
  rintro ⟨qs, stop⟩ _ rfl
  exact becomes_sublist (List.sublist_append_left _ _)

theorem draws_functionName : Draws (fun n => leaf n.span) functionName s := by
  apply lays_currentKind_bind.2
  split
  next hk => exact .next (by rw [hk]; rfl) fun _ => lays_pure rfl
  next => exact draws_expectName

theorem draws_function : Draws Function.outline (function names) s := by
  refine Lays.framed (draws_expectKeyword.then fun start t => draws_functionName.then ?_)
  intro name t
  have htype (t : State) : Reads Shrinks 1 (dataType names) t := reads_dataType names
  refine (shrinks_expectSymbol _).andLays fun _ t => (htype t).andLays fun type t => ?_
  refine lays_params.then fun qs t => draws_codeBlock.result ?_
  rintro body _ rfl
  have hframe := frames_through (leaf start) body.outline (leaf name.span :: qs.map Param.outline)
    (List.sublist_cons_self _ _)
  rw [body.span_outline] at hframe
  exact hframe

theorem draws_global : Draws Declaration.outline (global names) s := by
  refine Lays.framed (draws_expectKeyword.then fun start t => lays_declaration.result ?_)
  exact fun d xs hframe => hframe.widen (leaf start)

theorem draws_classMember : Draws Member.outline (classMember names) s := by
  apply lays_currentKind_bind.2
  split
  next => exact draws_function.result fun _ _ hxs => hxs
  next =>
    apply lays_declarationAhead_bind.2
    split
    next => exact draws_declaration.result fun _ _ hxs => hxs
    next => exact lays_failUnexpected _

theorem span_memberOutline (m : Member) : m.outline.span.start = m.start := by
  cases m <;> rfl

theorem span_itemOutline (i : Item) : i.outline.span.start = i.start := by
  cases i <;> rfl

theorem lays_className : Lays (fun x xs => xs = [leaf x.1.span]) (className names) s := by
  apply lays_current_bind.2
  split
  next id hk =>
    have hunit : Lays (fun _ xs => xs = [leaf s.stream.current.span]) (unitType names) s := by
      rw [unitType, lays_current_bind, typeOf?, hk]
      exact .next (by rw [State.kind, hk]; rfl) fun _ => lays_pure rfl
    exact hunit.result fun _ _ hxs => hxs
  next => exact lays_failExpected _

/-- Members lie in the order in which they are read, so a class has them in this order. -/
theorem becomes_class (start stop : Span) (name : Name) (type : DataType) (qs : List Param)
    (ms : List Member) :
    Becomes (leaf start :: leaf name.span :: (qs.map Param.outline ++
        (ms.map Member.outline ++ [leaf stop])))
      [Class.outline ⟨name, type, qs, ms.filterMap Member.property?, ms.filterMap Member.method?,
        start.through stop⟩] := by
  have hinside : (ms.map Member.outline).Sublist (leaf start :: leaf name.span ::
      (qs.map Param.outline ++ (ms.map Member.outline ++ [leaf stop]))) :=
    (((List.sublist_append_left _ _).trans (List.sublist_append_right _ _)).cons _).cons _
  have hstart : (fun x => x.span.start) ∘ Member.outline = Member.start :=
    funext span_memberOutline
  intro us hrow
  have hincreasing := (hrow.sublist hinside).increasing
  rw [List.map_map, hstart] at hincreasing
  have hframe := frames_between (leaf start) (leaf stop)
    (leaf name.span :: (qs.map Param.outline ++ ms.map Member.outline))
  rw [List.cons_append, List.append_assoc] at hframe
  rw [Class.outline, classMembers, sortBy_eq_of_increasing (members_perm ms) hincreasing]
  exact hframe.becomes_self us hrow

theorem draws_classItem : Draws Class.outline (classItem names) s := by
  refine Lays.draws (draws_expectKeyword.then fun start t => ?_)
  refine lays_className.bind ?_
  rintro ⟨name, type⟩ t _ rfl
  refine lays_params.then fun qs t => (shrinks_expectSymbol _).andLays fun _ t => ?_
  refine (lays_many fun t _ => lays_recovering draws_classMember skipStatement_suffix).then ?_
  intro members t
  refine draws_expectSymbol.result ?_
  rintro stop _ rfl
  rw [flatMap_filterMap_id, ← List.map_eq_flatMap]
  exact becomes_class start stop name type qs (members.filterMap id)

theorem draws_item : Draws Item.outline (item names) s := by
  apply lays_currentKind_bind.2
  split
  next => exact draws_global.result fun _ _ hxs => hxs
  next => exact draws_classItem.result fun _ _ hxs => hxs
  next =>
    apply lays_nextKind_bind.2
    refine draws_function.result fun f xs hxs => ?_
    split <;> exact hxs
  next => exact lays_current_bind.2 (lays_failHere _)

theorem Rounds.row {b : Bool} {u : State} {is : List Item} (h : Rounds names b s is u) :
    ∃ us, s.stream.tokens = us ++ u.stream.tokens ∧
      (Laid s.stream.tokens → Row us (is.map Item.outline)) := by
  have hcons {i : Item} {is : List Item} {s t u : State} (hi : item names s = .ok i t)
      (ih : ∃ us, t.stream.tokens = us ++ u.stream.tokens ∧
        (Laid t.stream.tokens → Row us (is.map Item.outline))) :
      ∃ us, s.stream.tokens = us ++ u.stream.tokens ∧
        (Laid s.stream.tokens → Row us ((i :: is).map Item.outline)) := by
    obtain ⟨us, _, hs, rfl, hrow⟩ := Outcome.of_ok draws_item hi
    obtain ⟨vs, ht, hrest⟩ := ih
    have hall : s.stream.tokens = (us ++ vs) ++ u.stream.tokens := by
      rw [hs, ht, List.append_assoc]
    refine ⟨us ++ vs, hall, fun hlaid => ?_⟩
    have hboth : Laid (us ++ vs) := by
      rw [hall] at hlaid
      exact hlaid.front
    exact (hrow hlaid).append hboth (hrest (hlaid.suffix ⟨us, hs.symm⟩))
  induction h with
  | stop => exact ⟨[], rfl, fun _ => row_nil []⟩
  | entry hi _ _ ih => exact hcons hi ih
  | other hi _ _ _ ih => exact hcons hi ih

end Statements

end Uwu.Grammar

namespace Uwu

open Grammar

/-! ### Programs -/

theorem Lexed.laid_ofLines (lines : List String) (names : Names) :
    Laid (State.ofTokens (ofLines lines names).tokens).stream.tokens := by
  obtain ⟨-, ts, hts, htokens⟩ := sound_ofLines lines names
  have hsub : (ts.filter fun t => !t.kind.isTrivia).Sublist (ofLines lines names).tokens := by
    rw [hts]
    exact List.filter_sublist.trans (List.sublist_append_left _ _)
  rw [htokens]
  exact ⟨fun t ht => (lexeme_ofLines lines names (hsub.subset ht)).1,
    (increasing_ofLines lines names).sublist hsub⟩

/-- The items of an accepted program lie in a row. -/
theorem Program.row_ofTokens {lines : List String} {names known : Names} {p : Program}
    (h : Program.ofTokens (Lexed.ofLines lines names).tokens known = .ok p) :
    ∃ us, Row us p.outlines := by
  obtain ⟨is, u, hrounds, hperm⟩ := Program.items_ofTokens h
  obtain ⟨us, -, hrow⟩ := hrounds.row
  have hrow := hrow (Lexed.laid_ofLines lines names)
  have hstart : (fun x => x.span.start) ∘ Item.outline = Item.start := funext span_itemOutline
  have hincreasing := hrow.increasing
  rw [List.map_map, hstart] at hincreasing
  refine ⟨us, ?_⟩
  rw [outlines, items, sortBy_eq_of_increasing hperm hincreasing]
  exact hrow

/-- In an accepted program every span contains those of what it is made of, and these lie one behind
the other, as do the spans of the globals, functions and classes. -/
theorem Program.nested_outlines {lines : List String} {names known : Names} {p : Program}
    (h : Program.ofTokens (Lexed.ofLines lines names).tokens known = .ok p) :
    (∀ x ∈ p.outlines, x.Nested) ∧ Outline.Apart p.outlines := by
  obtain ⟨us, hrow⟩ := Program.row_ofTokens h
  exact ⟨hrow.nested, hrow.apart⟩

theorem mixedItems_nested : ∃ p, (compile mixedItems .empty).outcome = .ok p ∧
    (p.globals.length = 1 ∧ p.classes.length = 1) ∧
    (∀ x ∈ p.outlines, x.Nested) ∧ Outline.Apart p.outlines := by
  have hs : mixedItems.toList = _ := toList_append_of_eq
    (toList_append_of_eq (toList_of_eq rfl) (toList_of_eq rfl)) (toList_of_eq rfl)
  obtain ⟨p, hp, ht⟩ := exists_compiled mixedItems .empty
    (fun p => p.globals.length == 1 && p.classes.length == 1) hs (by decide +kernel)
  rw [Bool.and_eq_true, beq_iff_eq, beq_iff_eq] at ht
  exact ⟨p, hp, ht, Program.nested_outlines (compile_eq_ok.1 hp).2.1⟩

end Uwu
