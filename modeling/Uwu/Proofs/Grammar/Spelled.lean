import Uwu.Proofs.Grammar.Spelling

/-! Every parser says what it reads: the signs of what it makes are the signs of the tokens that it
takes, in their order. -/

namespace Uwu

theorem PrefixOp.kind_of_ofKind? {k : Kind} {op : PrefixOp} (h : ofKind? k = some op) :
    op.kind = k := by
  have hfind : all.find? (fun op => op.kind == k) = some op := h
  have hk := List.find?_some hfind
  exact eq_of_beq hk

theorem InfixOp.kind_of_ofKind? {k : Kind} {op : InfixOp} (h : ofKind? k = some op) :
    op.kind = k := by
  have hfind : all.find? (fun op => op.kind == k) = some op := h
  have hk := List.find?_some hfind
  exact eq_of_beq hk

theorem PostfixOp.kind_of_ofKind? {k : Kind} {op : PostfixOp} (h : ofKind? k = some op) :
    op.kind = k := by
  have hfind : all.find? (fun op => op.kind == k) = some op := h
  have hk := List.find?_some hfind
  exact eq_of_beq hk

theorem AssignOp.kind_of_ofKind? {k : Kind} {op : AssignOp} (h : ofKind? k = some op) :
    op.kind = k := by
  have hfind : all.find? (fun op => op.kind == k) = some op := h
  have hk := List.find?_some hfind
  exact eq_of_beq hk

namespace Grammar

/-! ### Expressions -/

/-- The parsers of the expressions inside of others. -/
structure SpellsExprs (names : Names) (expr : Power → Parse Expr) : Prop where
  reads : ∀ power t, Reads Shrinks 1 (expr power) t
  first : ∀ power t, Outcome (expr power) t (fun _ _ => ClosesNoList t.kind) fun _ => True
  spells : ∀ power g m t, Mark.Begins g m →
    Spells names m (Says (exprSigns names) (Mark.At g)) (expr power) t

section Expressions

variable {names : Names} {s : State} {m : Mark} {g : List Bool}

theorem spells_literal (hm : m.At g) (hk : isSpoken s.kind) :
    Spells names m (Says (exprSigns names) (Mark.At g)) literal s := by
  cases hv : literalOf? s.stream.current with
  | none =>
    refine .next rfl hk (fun _ => rfl) ?_
    rw [hv]
    exact spells_throw _
  | some v =>
    refine .next rfl hk (sign_literal hv) ?_
    rw [hv]
    exact spells_pure ⟨rfl, hm⟩

/-- A text between its neighbours in a string. -/
theorem segmentSigns_textSegment (kind : Kind) (first last : Char) (t : Token) (ss : List Segment) :
    segmentSigns names kind "" (textSegment first last t ++ ss) =
      segmentSigns names kind (t.partText first last) ss := by
  rw [textSegment, Token.partText]
  split
  next hnil => rw [hnil]; rfl
  next => rw [List.singleton_append, segmentSigns, String.empty_append]

variable {expr : Power → Parse Expr} (hexpr : SpellsExprs names expr)
include hexpr

/-- The signs behind the part that the segments follow. -/
theorem spells_segments (hm : m.Begins g) (n : Nat) :
    Spells names m (fun x xs m' => (∀ kind text,
      segmentSigns names kind text x.1 = .text kind text :: xs) ∧ m'.At g) (segments expr n) s := by
  induction n generalizing s m with
  | zero => exact spells_failExpected _
  | succ n ih =>
    rw [segments]
    refine (hexpr.spells .lowest g m s hm).andThen fun e m' t hm' => ?_
    rw [spells_currentKind_bind]
    split
    next hk =>
      have hsign : t.stream.current.sign =
          .text .stringPartMid (t.stream.current.partText '|' '|') := by
        simp [Token.sign, hk]
      have hbegins : Mark.Begins g ⟨.stringPartMid, m'.groups⟩ := ⟨hm', rfl⟩
      refine .next hk rfl (fun _ => hsign) ?_
      refine (ih hbegins).bind ?_
      rintro ⟨ss, span⟩ xs m'' _ ⟨hss, hm''⟩
      refine spells_pure ⟨fun kind text => ?_, hm''⟩
      rw [segmentSigns, segmentSigns_textSegment, hss, List.append_nil]
    next hk =>
      have hsign : t.stream.current.sign =
          .text .stringPartEnd (t.stream.current.partText '|' '"') := by
        simp [Token.sign, hk]
      refine .next hk rfl (fun _ => hsign) (spells_pure ⟨fun kind text => ?_, hm'⟩)
      have htext := @segmentSigns_textSegment names .stringPartMid '|' '"' t.stream.current []
      rw [List.append_nil] at htext
      rw [segmentSigns, htext]
      rfl
    next => exact spells_failExpected _

theorem spells_format (hm : m.At g) (hk : s.kind = .stringPartStart) :
    Spells names m (Says (exprSigns names) (Mark.At g)) (format expr) s := by
  have hsign : s.stream.current.sign =
      .text .stringPartStart (s.stream.current.partText '"' '|') := by
    simp [Token.sign, hk]
  have hbegins : Mark.Begins g ⟨.stringPartStart, m.groups⟩ := ⟨hm, rfl⟩
  refine .next hk rfl (fun _ => hsign) ?_
  rw [spells_bound_bind]
  refine (spells_segments hexpr hbegins _).bind ?_
  rintro ⟨ss, span⟩ xs m' _ ⟨hss, hm'⟩
  refine spells_pure ⟨?_, hm'⟩
  rw [exprSigns, segmentSigns_textSegment, hss, List.append_nil]

theorem spells_input (hm : m.At g) (hk : s.kind = .keyword .inpwt) :
    Spells names m (Says (exprSigns names) (Mark.At g)) (input expr) s := by
  refine .next hk rfl (sign_keyword hk) (.opens ⟨hm, rfl⟩ fun _ m' t hm' => ?_)
  have rest (prompt : Option Expr) (start : Span) (m' : Mark) (t : State)
      (hm' : m'.At (false :: g)) :
      Spells names m' (fun e ys m'' => Says (exprSigns names) (Mark.At g) e
        (Keyword.inpwt.sign :: Symbol.openParen.sign :: (promptSigns names prompt ++ ys)) m'') (do
          let stop ← expectSymbol .closeParen
          return .input prompt (start.through stop)) t :=
    .closes hm' fun _ m'' _ hm'' => spells_pure ⟨by rw [exprSigns], hm''⟩
  simp only [spells_currentKind_bind]
  split
  next =>
    have hnone : Spells names m' (Says (promptSigns names) (Mark.At (false :: g))) (pure none) t :=
      spells_pure ⟨rfl, hm'.1⟩
    exact hnone.andThen fun prompt m'' t => rest prompt _ m'' t
  next =>
    have hsome : Spells names m' (Says (promptSigns names) (Mark.At (false :: g)))
        (some <$> expr .lowest) t := (hexpr.spells .lowest _ m' t hm').map fun _ _ _ h => h
    exact hsome.andThen fun prompt m'' t => rest prompt _ m'' t

theorem spells_array (hm : m.At g) (hk : s.kind = .symbol .openBrace) :
    Spells names m (Says (exprSigns names) (Mark.At g)) (array expr) s := by
  have hbegins : Mark.Begins g ⟨.symbol .openBrace, m.groups⟩ := ⟨hm, rfl⟩
  refine .next hk rfl (sign_symbol hk) ?_
  refine (spells_listToBrace (hexpr.first .lowest) (fun t => (hexpr.reads .lowest t).zero)
    (fun g m' t => hexpr.spells .lowest g m' t) hbegins).bind
      fun ⟨es, stop⟩ xs m' _ ⟨hxs, hm'⟩ => spells_pure ⟨?_, hm'⟩
  rw [hxs, exprSigns, listSigns_eq, List.append_nil]

theorem spells_grouping (hm : m.Begins g) (hk : s.kind = .symbol .openParen) :
    Spells names m (Says (exprSigns names) (Mark.At g)) (grouping expr) s := by
  have hleaves (next : Kind) :
      leaves m (.symbol .openParen) next Symbol.openParen.sign = [] := by
    rw [leaves, Mark.drops, hm.2]
    rfl
  have hbegins : (m.after (.symbol .openParen)).Begins (true :: g) := by
    refine ⟨?_, rfl⟩
    rw [Mark.after, hm.1, hm.2]
  refine .read hk (by simp) (sign_symbol hk) ?_
  rw [hleaves]
  refine (hexpr.spells .lowest _ _ s.next hbegins).andThen fun e m' t hm' => ?_
  refine .closesGroup hm' fun _ m'' _ hm'' => spells_pure ⟨?_, hm''⟩
  rw [List.append_nil, List.nil_append]

/-- Arguments between parentheses. -/
def argsSigns (names : Names) (es : List Expr) : List Sign :=
  Symbol.openParen.sign :: (listSigns names es ++ [Symbol.closeParen.sign])

theorem spells_args (hm : m.Calls g) :
    Spells names m (Says (fun x => argsSigns names x.1) (Mark.At g)) (args expr) s := by
  refine .opens hm fun _ m' t hm' => ?_
  refine (spells_listToParen (hexpr.first .lowest) (fun t => (hexpr.reads .lowest t).zero)
    (fun g m' t => hexpr.spells .lowest g m' t) hm').mono ?_
  rintro ⟨es, stop⟩ xs m'' ⟨rfl, hm''⟩
  refine ⟨?_, hm''⟩
  change _ = argsSigns names es
  rw [argsSigns, listSigns_eq]

/-! ### Access paths -/

theorem spells_index (hm : m.At g) (hk : s.kind = .symbol .openBracket) :
    Spells names m (Says (fun x => Symbol.openBracket.sign ::
      (exprSigns names x.1 ++ [Symbol.closeBracket.sign])) (Mark.At g)) (index expr) s := by
  have hbegins : Mark.Begins g ⟨.symbol .openBracket, m.groups⟩ := ⟨hm, rfl⟩
  refine .next hk rfl (sign_symbol hk) ?_
  refine (hexpr.spells .lowest g _ s.next hbegins).andThen fun e m' t hm' => ?_
  exact .symbol rfl fun _ _ => spells_pure ⟨rfl, hm'⟩

theorem spells_link (hm : m.At g) :
    Spells names m (Says (linkSigns names) (Mark.At g)) (link expr) s := by
  refine (spells_expectName hm).andThen fun name m' t hm' => ?_
  rw [spells_currentKind_bind]
  split
  next =>
    refine (spells_args hexpr hm').bind fun ⟨es, stop⟩ xs m'' _ ⟨hxs, hm''⟩ =>
      spells_pure ⟨?_, hm''⟩
    rw [hxs, linkSigns, List.append_nil]
    rfl
  next =>
    refine (spells_many (fun m'' t hm'' hk => spells_index hexpr hm'' (beq_iff_eq.1 hk))
      hm'.1).bind fun indices xs m'' _ ⟨hxs, hm''⟩ => spells_pure ⟨?_, hm''⟩
    rw [hxs, linkSigns, indexSigns_eq, List.flatMap_map, List.append_nil]
    rfl
  next => exact spells_pure ⟨rfl, hm'.1⟩

theorem spells_construction (hm : m.At g) {id : Nat} (hk : s.kind = .classId id) :
    Spells names m (Says (placeSigns names) (Mark.At g)) (construction expr) s := by
  refine .next hk rfl (sign_classId hk) ?_
  rw [spells_currentKind_bind]
  split
  next =>
    have hcalls : Mark.Calls g ⟨.classId id, m.groups⟩ := ⟨hm, rfl⟩
    refine (spells_args hexpr hcalls).bind fun ⟨es, stop⟩ xs m' _ ⟨hxs, hm'⟩ =>
      spells_pure ⟨?_, hm'⟩
    rw [hxs, placeSigns, List.append_nil]
    rfl
  next => exact spells_failExpected _

theorem spells_member (hm : m.At g) (hk : s.kind = .symbol .dot) :
    Spells names m (Says (fun l => Symbol.dot.sign :: linkSigns names l) (Mark.At g))
      (member expr) s := by
  have hat : Mark.At g ⟨.symbol .dot, m.groups⟩ := hm
  refine .next hk rfl (sign_symbol hk) ((spells_link hexpr hat).mono ?_)
  rintro l xs m' ⟨rfl, hm'⟩
  exact ⟨rfl, hm'⟩

omit hexpr in
theorem placeSigns_foldl_addMember (links : List Link) (first : Place) :
    placeSigns names (links.foldl addMember first) =
      placeSigns names first ++ links.flatMap fun l => Symbol.dot.sign :: linkSigns names l := by
  induction links generalizing first with
  | nil => rw [List.foldl_nil, List.flatMap_nil, List.append_nil]
  | cons l links ih =>
    rw [List.foldl_cons, ih, addMember, placeSigns, List.flatMap_cons, List.append_assoc]

theorem spells_place (hm : m.At g) :
    Spells names m (Says (placeSigns names) (Mark.At g)) (place expr) s := by
  have members (first : Place) (m' : Mark) (t : State) (hm' : m'.At g) :
      Spells names m' (fun p ys m'' => Says (placeSigns names) (Mark.At g) p
        (placeSigns names first ++ ys) m'') (do
          let members ← many (· == .symbol .dot) (member expr)
          return members.foldl addMember first) t := by
    refine (spells_many (fun m'' t hm'' hk => spells_member hexpr hm'' (beq_iff_eq.1 hk))
      hm').result ?_
    rintro links xs m'' ⟨rfl, hm''⟩
    exact ⟨(placeSigns_foldl_addMember links first).symm, hm''⟩
  simp only [place, spells_currentKind_bind]
  split
  next id hk => exact (spells_construction hexpr hm hk).andThen members
  next =>
    have hlink : Spells names m (Says (placeSigns names) (Mark.At g))
        (Place.link <$> link expr) s :=
      (spells_link hexpr hm).map fun l xs m' h => h
    exact hlink.andThen members

/-! ### Operators -/

omit hexpr in
theorem sign_prefixOp {t : Token} {op : PrefixOp} (hk : t.kind = op.kind)
    (h : t.kind.Fits names t.lexeme) : t.sign = kindSign op.kind := by
  cases op <;> exact sign_symbol hk h

omit hexpr in
theorem sign_infixOp {t : Token} {op : InfixOp} (hk : t.kind = op.kind)
    (h : t.kind.Fits names t.lexeme) : t.sign = kindSign op.kind := by
  cases op with
  | and | or => exact sign_keyword hk h
  | _ => exact sign_symbol hk h

omit hexpr in
theorem sign_postfixOp {t : Token} {op : PostfixOp} (hk : t.kind = op.kind)
    (h : t.kind.Fits names t.lexeme) : t.sign = kindSign op.kind := by
  cases op <;> exact sign_symbol hk h

theorem spells_prefixed (hm : m.At g) {op : PrefixOp} (hk : s.kind = op.kind) :
    Spells names m (Says (exprSigns names) (Mark.At g)) (prefixed expr op) s := by
  have hbegins : Mark.Begins g ⟨op.kind, m.groups⟩ := ⟨hm, by cases op <;> rfl⟩
  refine .next hk (by cases op <;> rfl) (sign_prefixOp hk) ?_
  refine (hexpr.spells .prefixed g _ s.next hbegins).result ?_
  rintro e xs m' ⟨rfl, hm'⟩
  exact ⟨by rw [exprSigns], hm'⟩

theorem spells_operand? {p : Parse Expr} (hm : m.Begins g) (h : operand? expr s.kind = some p) :
    Spells names m (Says (exprSigns names) (Mark.At g)) p s := by
  have hplace : Spells names m (Says (exprSigns names) (Mark.At g)) (Expr.place <$> place expr) s :=
    (spells_place hexpr hm.1).map fun p xs m' ⟨hxs, hm'⟩ => ⟨by rw [hxs, exprSigns], hm'⟩
  have hspoken := isPlain_of_operand? h
  simp only [operand?] at h
  split at h
  all_goals try cases Option.some.inj h
  case h_7 hk => exact spells_input hexpr hm.1 hk
  case h_8 hk => exact spells_format hexpr hm.1 hk
  case h_9 hk => exact spells_array hexpr hm.1 hk
  case h_10 hk => exact spells_grouping hexpr hm hk
  case h_11 | h_12 => exact hplace
  case h_13 =>
    obtain ⟨op, hop, rfl⟩ := Option.map_eq_some_iff.mp h
    exact spells_prefixed hexpr hm.1 (PrefixOp.kind_of_ofKind? hop).symm
  all_goals
    rename_i hk
    exact spells_literal hm.1 (by rw [hk]; rfl)

theorem spells_operand (hm : m.Begins g) :
    Spells names m (Says (exprSigns names) (Mark.At g)) (operand expr) s := by
  rw [operand, spells_currentKind_bind]
  split
  next p h => exact spells_operand? hexpr hm h
  next => exact spells_failUnexpected _

/-- The operators behind `left` go on with what `left` says. -/
theorem spells_operators (power : Power) (hm : m.At g) (n : Nat) (left : Expr) :
    Spells names m (fun e xs m' => exprSigns names e = exprSigns names left ++ xs ∧ m'.At g)
      (operators expr power n left) s := by
  have hstop (left : Expr) {m : Mark} (hm : m.At g) {s : State} :
      Spells names m (fun e xs m' => exprSigns names e = exprSigns names left ++ xs ∧ m'.At g)
        (pure left) s := spells_pure ⟨(List.append_nil _).symm, hm⟩
  induction n generalizing s m left with
  | zero => exact hstop left hm
  | succ n ih =>
    simp only [operators, spells_current_bind]
    split
    next => exact hstop left hm
    next =>
      split
      next op hop =>
        have hk : s.kind = op.kind := (InfixOp.kind_of_ofKind? hop).symm
        have hbegins : Mark.Begins g ⟨op.kind, m.groups⟩ := ⟨hm, by cases op <;> rfl⟩
        refine .next hk (by cases op <;> rfl) (sign_infixOp hk) ?_
        refine (hexpr.spells _ g _ s.next hbegins).andThen fun right m' t hm' => ?_
        refine (ih hm' _).mono fun e xs m'' ⟨he, hm''⟩ => ⟨?_, hm''⟩
        rw [he, exprSigns, List.append_assoc, List.cons_append]
      next op _ hop =>
        have hk : s.kind = op.kind := (PostfixOp.kind_of_ofKind? hop).symm
        have hat : Mark.At g ⟨op.kind, m.groups⟩ := hm
        refine .next hk (by cases op <;> rfl) (sign_postfixOp hk) ?_
        split
        next p =>
          refine (ih hat _).mono fun e xs m'' ⟨he, hm''⟩ => ⟨?_, hm''⟩
          rw [he, exprSigns, exprSigns, List.append_assoc, List.singleton_append]
        next => exact spells_throw _
      next => exact spells_failHere _

end Expressions

/-! ### The knot -/

section

variable {names : Names} {s : State} {m : Mark} {g : List Bool}

/-- An expression begins with no bracket that closes a list. -/
theorem first_exprWithin (n : Nat) (power : Power) :
    Outcome (exprWithin n power) s (fun _ _ => ClosesNoList s.kind) fun _ => True := by
  cases n with
  | zero => trivial
  | succ n =>
    by_cases hs : ClosesNoList s.kind
    · unfold Outcome
      split
      next => exact hs
      next => trivial
    · have hnone : operand? (exprWithin n) s.kind = none := by
        have hcases : s.kind = .symbol .closeParen ∨ s.kind = .symbol .closeBrace := by
          simpa [ClosesNoList, or_iff_not_imp_left] using hs
        rcases hcases with hk | hk <;> rw [hk] <;> rfl
      rw [exprWithin, outcome_bind, operand, outcome_bind, outcome_currentKind, hnone]
      trivial

theorem spellsExprs_exprWithin (n : Nat) : SpellsExprs names (exprWithin n) := by
  induction n with
  | zero =>
    exact ⟨fun power _ => reads_exprWithin 0 power, fun power _ => first_exprWithin 0 power,
      fun _ _ _ _ _ => spells_failUnexpected _⟩
  | succ n ih =>
    refine ⟨fun power _ => reads_exprWithin _ power, fun power _ => first_exprWithin _ power,
      fun power g m t hm => ?_⟩
    refine (spells_operand ih hm).andThen fun left m' t hm' => ?_
    rw [spells_bound_bind]
    exact (spells_operators ih power hm' _ left).mono fun e xs m'' ⟨he, hm''⟩ => ⟨he.symm, hm''⟩

theorem spellsExprs_expression : SpellsExprs names expression where
  reads power _ := reads_expression power
  first power _ := first_exprWithin _ power
  spells power g m t hm := spells_bound_bind.2 ((spellsExprs_exprWithin _).spells power g m t hm)

/-! ### Types -/

theorem sign_type {t : Token} {type : DataType} (ht : typeOf? names t = some type)
    (h : t.kind.Fits names t.lexeme) : t.sign = baseSign type.base := by
  obtain ⟨kind, lexeme, span⟩ := t
  cases kind with
  | keyword k =>
    rw [sign_keyword rfl h]
    cases k <;> first | (cases ht; rfl) | cases ht
  | classId id =>
    cases ht
    have hname : names.classes.name? id = some lexeme := NameTable.name?_of_id? h.1
    simp [Token.sign, Token.word, baseSign, hname]
  | _ => cases ht

theorem spells_unitType (hm : m.At g) :
    Spells names m (Says typeSigns (Mark.Calls g)) (unitType names) s := by
  rw [unitType, spells_current_bind]
  split
  next type ht =>
    have htype : s.kind.isType := by rw [← isSome_typeOf? names, ht]; rfl
    have hspoken : isSpoken s.kind ∧ Mark.opensGroup ⟨s.kind, m.groups⟩ = false := by
      cases hk : s.kind with
      | keyword k => cases k <;> simp_all [isSpoken, Mark.opensGroup, Kind.isType, Keyword.isType]
      | classId id => exact ⟨rfl, rfl⟩
      | _ => simp [hk, Kind.isType] at htype
    have hzero : type.dimension = 0 := by
      rw [typeOf?] at ht
      split at ht
      next =>
        obtain ⟨b, -, rfl⟩ := Option.map_eq_some_iff.1 ht
        rfl
      next => cases ht; rfl
      next => cases ht
    refine .next rfl hspoken.1 (sign_type ht) (spells_pure ⟨?_, hm, hspoken.2⟩)
    rw [typeSigns, hzero]
    rfl
  next => exact spells_failExpected _

theorem spells_dimension (hm : m.Calls g) (hk : s.kind = .symbol .openBracket) :
    Spells names m (Says (fun _ => [Symbol.openBracket.sign, Symbol.closeBracket.sign])
      (Mark.Calls g)) dimension s := by
  refine .next hk rfl (sign_symbol hk) ?_
  exact .symbol rfl fun _ _ => spells_pure ⟨rfl, hm.1, rfl⟩

theorem typeSigns_arrayOf (t : DataType) (dimensions : List Unit) :
    typeSigns (t.arrayOf dimensions.length) = typeSigns t ++
      dimensions.flatMap fun _ => [Symbol.openBracket.sign, Symbol.closeBracket.sign] := by
  rw [typeSigns, typeSigns, DataType.arrayOf, ← List.replicate_append_replicate,
    List.flatten_append, List.flatMap_def, List.map_const', List.cons_append]

theorem spells_dataType (hm : m.At g) :
    Spells names m (Says typeSigns (Mark.Calls g)) (dataType names) s := by
  refine (spells_unitType hm).andThen fun unit m' t hm' => ?_
  refine (spells_many (fun m'' t hm'' hk => spells_dimension hm'' (beq_iff_eq.1 hk)) hm').result ?_
  rintro dimensions xs m'' ⟨rfl, hm''⟩
  exact ⟨(typeSigns_arrayOf unit dimensions).symm, hm''⟩

/-! ### Declarations and assignments -/

theorem spells_constMark (hm : m.At g) :
    Spells names m (Says constSigns (Mark.At g)) constMark s := by
  rw [constMark, spells_currentKind_bind, spells_nextKind_bind]
  split
  next hk =>
    have hnext : s.next.kind = .keyword .dono := by rw [State.kind, State.current_next, hk.2]
    refine .next hk.1 rfl (sign_symbol hk.1) (.next hnext rfl (sign_keyword hnext) ?_)
    exact spells_pure ⟨rfl, hm⟩
  next => exact spells_pure ⟨rfl, hm⟩

theorem spells_declaration (hm : m.At g) :
    Spells names m (Says (declarationSigns names) (Mark.Begins g)) (declaration names) s := by
  refine (spells_expectName hm).andThen fun name m' t hm' => .symbol rfl fun _ t => ?_
  have hat : Mark.At g ⟨.symbol .dash, m'.groups⟩ := hm'.1
  refine (spells_dataType hat).andThen fun type m' t hm' => ?_
  refine (spells_constMark hm'.1).andThen fun isConst m' t hm' => ?_
  have rest (value : Option Expr) (m' : Mark) (t : State) (hm' : m'.At g) :
      Spells names m' (fun d xs m'' => Says (declarationSigns names) (Mark.Begins g) d
        (nameSign names name.value :: Symbol.dash.sign :: (typeSigns type ++
          (constSigns isConst ++ (valueSigns names value ++ xs)))) m'') (do
          let stop ← expectSymbol .terminator
          if isConst && value.isNone then record ⟨.constantWithoutValue name.value, name.span⟩
          return ⟨name, type, isConst, value, name.span.through stop⟩) t := by
    refine .symbol rfl fun _ t => ?_
    split
    next => exact .record fun t => spells_pure ⟨rfl, hm', rfl⟩
    next => exact spells_pure ⟨rfl, hm', rfl⟩
  simp only [spells_currentKind_bind]
  split
  next hk =>
    have hbegins : Mark.Begins g ⟨.symbol .assign, m'.groups⟩ := ⟨hm', rfl⟩
    have hvalue : Spells names ⟨.symbol .assign, m'.groups⟩ (fun value xs m'' =>
        valueSigns names value = Symbol.assign.sign :: xs ∧ m''.At g)
        (some <$> expression .lowest) t.next := by
      refine (spellsExprs_expression.spells .lowest g _ t.next hbegins).map ?_
      rintro e xs m'' ⟨hxs, hm''⟩
      exact ⟨by rw [hxs, valueSigns], hm''⟩
    refine .next hk rfl (sign_symbol hk) (hvalue.bind ?_)
    rintro value xs m'' u ⟨hxs, hm''⟩
    have hrest := rest value m'' u hm''
    rw [hxs] at hrest
    exact hrest
  next =>
    have hnone : Spells names m' (Says (valueSigns names) (Mark.At g)) (pure none) t :=
      spells_pure ⟨rfl, hm'⟩
    exact hnone.andThen rest

theorem sign_assignOp {t : Token} {op : AssignOp} (hk : t.kind = op.kind)
    (h : t.kind.Fits names t.lexeme) : t.sign = kindSign op.kind := by
  cases op <;> exact sign_symbol hk h

theorem spells_assignmentTo (target : Place) {op : AssignOp} (hm : m.At g)
    (hk : s.kind = op.kind) : Spells names m (fun a xs m' =>
      assignmentSigns names a = placeSigns names target ++ xs ∧ m'.At g)
      (assignmentTo target op) s := by
  have hbegins : Mark.Begins g ⟨op.kind, m.groups⟩ := ⟨hm, by cases op <;> rfl⟩
  rw [assignmentTo]
  split
  next =>
    refine .next hk (by cases op <;> rfl) (sign_assignOp hk) ?_
    refine (spellsExprs_expression.spells .lowest g _ s.next hbegins).result ?_
    rintro e xs m' ⟨rfl, hm'⟩
    exact ⟨rfl, hm'⟩
  next => exact spells_current_bind.2 (spells_throw _)

/-! ### Statements -/

theorem spells_path (hm : m.At g) :
    Spells names m (Says (placeSigns names) (Mark.At g)) (place expression) s :=
  spells_place spellsExprs_expression hm

theorem spells_placeStmt (hm : m.At g) :
    Spells names m (Says (stmtSigns names) (Mark.At g)) placeStmt s := by
  refine (spells_path hm).andThen fun target m' t hm' => ?_
  simp only [spells_currentKind_bind]
  split
  next op hop =>
    refine (spells_assignmentTo target hm' (AssignOp.kind_of_ofKind? hop).symm).bind ?_
    rintro a xs m'' u ⟨ha, hm''⟩
    refine .symbol rfl fun _ _ => spells_pure ⟨?_, hm''⟩
    have hsigns : assignmentSigns names a = placeSigns names target ++ xs := ha
    rw [stmtSigns, ← List.append_assoc, ← hsigns]
    rfl
  next op _ hop =>
    have hk : t.kind = op.kind := (PostfixOp.kind_of_ofKind? hop).symm
    refine .next hk (by cases op <;> rfl) (sign_postfixOp hk) ?_
    refine .symbol rfl fun _ _ => spells_pure ⟨?_, hm'⟩
    rw [stmtSigns, exprSigns, List.append_assoc]
    rfl
  next =>
    split
    next => exact spells_failUnexpected _
    next =>
      refine .symbol rfl fun _ _ => spells_pure ⟨?_, hm'⟩
      rw [stmtSigns, exprSigns]

theorem spells_printStmt (hm : m.At g) (hk : s.kind = .keyword .pwint) :
    Spells names m (Says (stmtSigns names) (Mark.At g)) printStmt s := by
  have hcalls : Mark.Calls g ⟨.keyword .pwint, m.groups⟩ := ⟨hm, rfl⟩
  refine .next hk rfl (sign_keyword hk) ?_
  refine (spells_args spellsExprs_expression hcalls).bind fun ⟨es, _⟩ xs m' t ⟨hxs, hm'⟩ =>
    .symbol rfl fun _ _ => spells_pure ⟨?_, hm'⟩
  have hargs : xs = argsSigns names es := hxs
  rw [hargs, stmtSigns, argsSigns, List.cons_append, List.append_assoc]
  rfl

theorem spells_leaveStmt (hm : m.At g) (hk : s.kind = .keyword .wetuwn) :
    Spells names m (Says (stmtSigns names) (Mark.At g)) leaveStmt s := by
  have hbegins : Mark.Begins g ⟨.keyword .wetuwn, m.groups⟩ := ⟨hm, rfl⟩
  have rest (value : Option Expr) (start : Span) (m' : Mark) (t : State) (hm' : m'.At g) :
      Spells names m' (fun st ys m'' => Says (stmtSigns names) (Mark.At g) st
        (Keyword.wetuwn.sign :: (promptSigns names value ++ ys)) m'') (do
          let stop ← expectSymbol .terminator
          return .leave value (start.through stop)) t :=
    .symbol rfl fun _ _ => spells_pure ⟨by rw [stmtSigns], hm'⟩
  refine .next hk rfl (sign_keyword hk) ?_
  simp only [spells_currentKind_bind]
  split
  next =>
    have hnone : Spells names ⟨.keyword .wetuwn, m.groups⟩ (Says (promptSigns names) (Mark.At g))
        (pure none) s.next := spells_pure ⟨rfl, hm⟩
    exact hnone.andThen fun value m' t => rest value _ m' t
  next =>
    have hsome : Spells names ⟨.keyword .wetuwn, m.groups⟩ (Says (promptSigns names) (Mark.At g))
        (some <$> expression .lowest) s.next :=
      (spellsExprs_expression.spells .lowest g _ s.next hbegins).map fun _ _ _ h => h
    exact hsome.andThen fun value m' t => rest value _ m' t

theorem spells_stopStmt (hm : m.At g) (hk : s.kind = .keyword .bweak) :
    Spells names m (Says (stmtSigns names) (Mark.At g)) stopStmt s := by
  refine .next hk rfl (sign_keyword hk) (.symbol rfl fun _ t => ?_)
  simp only [spells_isLooping_bind]
  split
  next => exact .record fun _ => spells_pure ⟨by rw [stmtSigns], hm⟩
  next => exact spells_pure ⟨by rw [stmtSigns], hm⟩

theorem spells_failNoStmt {P : Stmt → List Sign → Mark → Prop} : Spells names m P failNoStmt s :=
  spells_current_bind.2 (spells_failHere _)

/-! ### Statements with blocks -/

theorem spells_condition (hm : m.Calls g) :
    Spells names m (Says (conditionSigns names) (Mark.At g)) condition s := by
  refine .opens hm fun _ m' t hm' => ?_
  refine (spellsExprs_expression.spells .lowest _ m' t hm').andThen fun e m' t hm' => ?_
  exact .closes hm' fun _ m'' _ hm'' => spells_pure ⟨rfl, hm''⟩

theorem spells_loopStart (hm : m.At g) :
    Spells names m (Says (startSigns names) (Mark.Begins g)) (loopStart names) s := by
  simp only [loopStart, spells_declarationAhead_bind]
  split
  next => exact (spells_declaration hm).result fun d xs m' h => h
  next =>
    refine (spells_path hm).andThen fun target m' t hm' => ?_
    rw [spells_currentKind_bind]
    split
    next op hop =>
      refine (spells_assignmentTo target hm' (AssignOp.kind_of_ofKind? hop).symm).bind
        fun a xs m'' u ⟨ha, hm''⟩ => .symbol rfl fun _ _ => spells_pure ⟨?_, hm'', rfl⟩
      rw [startSigns, ha, List.append_assoc]
    next => exact spells_failExpected _

theorem spells_loopUpdate (hm : m.At g) :
    Spells names m (Says (updateSigns names) (Mark.At g)) loopUpdate s := by
  refine (spells_path hm).andThen fun target m' t hm' => ?_
  rw [spells_currentKind_bind]
  split
  next op hop =>
    refine (spells_assignmentTo target hm' (AssignOp.kind_of_ofKind? hop).symm).result ?_
    rintro a xs m'' ⟨ha, hm''⟩
    exact ⟨ha.symm, hm''⟩
  next op _ hop =>
    have hk : t.kind = op.kind := (PostfixOp.kind_of_ofKind? hop).symm
    exact .next hk (by cases op <;> rfl) (sign_postfixOp hk) (spells_pure ⟨rfl, hm'⟩)
  next => exact spells_failExpected _

section Blocks

variable {block : Parse Block}
  (hblock : ∀ g m t, Mark.At g m → Spells names m (Says (blockSigns names) (Mark.At g)) block t)
include hblock

theorem spells_elseIf (hm : m.At g) (hk : s.kind = .keyword .ewseIwf) :
    Spells names m (Says (fun e => Keyword.ewseIwf.sign ::
      (conditionSigns names e.condition ++ blockSigns names e.body)) (Mark.At g))
      (elseIf block) s := by
  have hcalls : Mark.Calls g ⟨.keyword .ewseIwf, m.groups⟩ := ⟨hm, rfl⟩
  refine .next hk rfl (sign_keyword hk) ?_
  refine (spells_condition hcalls).andThen fun e m' t hm' => (hblock g m' t hm').result ?_
  rintro body xs m'' ⟨rfl, hm''⟩
  exact ⟨rfl, hm''⟩

theorem spells_elseBlock (hm : m.At g) :
    Spells names m (Says (elseSigns names) (Mark.At g)) (elseBlock block) s := by
  rw [elseBlock, spells_currentKind_bind]
  split
  next hk =>
    have hat : Mark.At g ⟨.keyword .ewse, m.groups⟩ := hm
    refine .next hk rfl (sign_keyword hk) ((hblock g _ s.next hat).map ?_)
    rintro b xs m' ⟨rfl, hm'⟩
    exact ⟨by rw [elseSigns], hm'⟩
  next => exact spells_pure ⟨by rw [elseSigns], hm⟩

theorem spells_branchStmt (hm : m.At g) (hk : s.kind = .keyword .iwf) :
    Spells names m (Says (stmtSigns names) (Mark.At g)) (branchStmt block) s := by
  have hcalls : Mark.Calls g ⟨.keyword .iwf, m.groups⟩ := ⟨hm, rfl⟩
  refine .next hk rfl (sign_keyword hk) ?_
  refine (spells_condition hcalls).andThen fun e m' t hm' => ?_
  refine (hblock g m' t hm').andThen fun body m' t hm' => ?_
  refine (spells_many (fun m'' t hm'' hk => spells_elseIf hblock hm'' (beq_iff_eq.1 hk))
    hm').andThen fun elseIfs m' t hm' => ?_
  refine (spells_elseBlock hblock hm').result ?_
  rintro elseBody xs m'' ⟨rfl, hm''⟩
  exact ⟨by rw [stmtSigns, elseIfSigns_eq], hm''⟩

theorem spells_repeatStmt {k : Keyword} (hm : m.At g) (hk : s.kind = .keyword k)
    (hloop : k = .whiwe ∨ k = .doWhiwe) :
    Spells names m (Says (stmtSigns names) (Mark.At g)) (repeatStmt block) s := by
  have hcalls : Mark.Calls g ⟨.keyword k, m.groups⟩ := by
    rcases hloop with rfl | rfl <;> exact ⟨hm, rfl⟩
  refine .next hk (by rcases hloop with rfl | rfl <;> rfl) (sign_keyword hk) ?_
  refine (spells_condition hcalls).andThen fun e m' t hm' => ?_
  refine (Spells.insideLoop fun t => hblock g m' t hm').result ?_
  rintro body xs m'' ⟨rfl, hm''⟩
  refine ⟨?_, hm''⟩
  have hkind : s.stream.current.kind = .keyword k := hk
  rw [stmtSigns, hkind]
  rcases hloop with rfl | rfl <;> rfl

theorem spells_countStmt (hm : m.At g) (hk : s.kind = .keyword .fow) :
    Spells names m (Says (stmtSigns names) (Mark.At g)) (countStmt names block) s := by
  have hcalls : Mark.Calls g ⟨.keyword .fow, m.groups⟩ := ⟨hm, rfl⟩
  refine .next hk rfl (sign_keyword hk) (.opens hcalls fun _ m' t hm' => ?_)
  refine (spells_loopStart hm'.1).andThen fun start m' t hm' => ?_
  refine (spellsExprs_expression.spells .lowest _ m' t hm').andThen fun e m' t hm' => ?_
  have hat : Mark.At (false :: g) ⟨.symbol .terminator, m'.groups⟩ := hm'
  refine .symbol rfl fun _ t => (spells_loopUpdate hat).andThen fun update m' t hm' => ?_
  refine .closes hm' fun _ m'' t hm'' => ?_
  refine (Spells.insideLoop fun t => hblock g m'' t hm'').result ?_
  rintro body xs m'' ⟨rfl, hm''⟩
  exact ⟨by rw [stmtSigns], hm''⟩

theorem spells_keywordStmt {k : Keyword} (hm : m.At g) (hk : s.kind = .keyword k) :
    Spells names m (Says (stmtSigns names) (Mark.At g))
      ((keywordStmt? names block k).getD failNoStmt) s := by
  unfold keywordStmt?
  split
  next => exact spells_branchStmt hblock hm hk
  next => exact spells_repeatStmt hblock hm hk (.inl rfl)
  next => exact spells_repeatStmt hblock hm hk (.inr rfl)
  next => exact spells_countStmt hblock hm hk
  next => exact spells_leaveStmt hm hk
  next => exact spells_stopStmt hm hk
  next => exact spells_printStmt hm hk
  next => exact spells_failNoStmt

theorem spells_stmt (hm : m.At g) :
    Spells names m (Says (stmtSigns names) (Mark.At g)) (stmt names block) s := by
  simp only [stmt, spells_currentKind_bind]
  split
  next k hk => exact spells_keywordStmt hblock hm hk
  next =>
    rw [spells_declarationAhead_bind]
    split
    next =>
      refine (spells_declaration hm).result ?_
      rintro d xs m' ⟨rfl, hm'⟩
      exact ⟨by rw [stmtSigns], hm'.1⟩
    next => exact spells_placeStmt hm
  next => exact spells_placeStmt hm
  next => exact spells_failNoStmt

end Blocks

theorem spells_blockOf {stmt : Parse Stmt}
    (h : ∀ g m t, Mark.At g m → Spells names m (Says (stmtSigns names) (Mark.At g)) stmt t)
    (hm : m.At g) :
    Spells names m (Says (blockSigns names) (Mark.At g)) (blockOf stmt) s := by
  have hat : Mark.At g ⟨.symbol .doubleOpenBracket, m.groups⟩ := hm
  have hrecovering (m' : Mark) (t : State) (hm' : m'.At g) :
      Spells names m' (Says (fun found => (found.map (stmtSigns names)).getD []) (Mark.At g))
        (recovering stmt skipStatement) t :=
    spells_recovering hm' (fun _ _ => rfl) (h g m' t hm')
  refine .symbol rfl fun _ t => ?_
  refine (spells_many (fun m' t hm' _ => hrecovering m' t hm') hat).andThen fun body m' t hm' => ?_
  refine .symbol rfl fun _ _ => spells_pure ⟨?_, hm'⟩
  rw [blockSigns, stmtsSigns_eq, flatMap_filterMap_id]

theorem spells_stmtWithin (n : Nat) : ∀ g m s, Mark.At g m →
    Spells names m (Says (stmtSigns names) (Mark.At g)) (stmtWithin names n) s := by
  induction n with
  | zero => exact fun _ _ _ _ => spells_failNoStmt
  | succ n ih => exact fun g m s hm => spells_stmt (fun g m t hm => spells_blockOf ih hm) hm

theorem spells_codeBlock (hm : m.At g) :
    Spells names m (Says (blockSigns names) (Mark.At g)) (codeBlock names) s :=
  spells_blockOf (fun g m t hm => spells_bound_bind.2 (spells_stmtWithin _ g m t hm)) hm

/-! ### Functions -/

theorem spells_param (hm : m.At g) :
    Spells names m (Says (paramSigns names) (Mark.At g)) (param names) s := by
  refine (spells_expectName hm).andThen fun name m' t hm' => .symbol rfl fun _ t => ?_
  have hat : Mark.At g ⟨.symbol .dash, m'.groups⟩ := hm'.1
  refine (spells_dataType hat).andThen fun type m' t hm' => ?_
  exact spells_spanBefore_bind.2 (spells_pure ⟨by rw [paramSigns]; simp, hm'.1⟩)

/-- A parameter begins with its name. -/
theorem first_param : Outcome (param names) s (fun _ _ => ClosesNoList s.kind) fun _ => True := by
  rw [param, outcome_bind, expectName, outcome_bind, outcome_currentKind]
  split
  next hk =>
    have hfirst : ClosesNoList s.kind := by
      refine ⟨?_, ?_⟩ <;> intro hc <;> rw [hc] at hk <;> cases hk
    exact outcome_always (fun _ _ => outcome_always (fun _ _ => hfirst) fun _ => trivial)
      fun _ => trivial
  next => trivial

theorem spells_params (hm : m.Calls g) :
    Spells names m (Says (paramsSigns names) (Mark.At g)) (params names) s := by
  refine .opens hm fun _ m' t hm' => ?_
  refine (spells_listToParen (fun _ => first_param) (fun _ => (reads_param names).zero)
    (fun g m' t hm' => spells_param hm'.1) hm').bind ?_
  rintro ⟨ps, stop⟩ xs m'' t ⟨rfl, hm''⟩
  exact spells_pure ⟨by rw [paramsSigns, List.append_nil], hm''⟩

/-- An identifier is not spelled as the keyword for the entry. -/
theorem ne_spelling_mainuwu {t : Token} (hk : isIdentifier t.kind)
    (h : t.kind.Fits names t.lexeme) : t.lexeme ≠ Keyword.mainuwu.spelling := by
  intro hl
  obtain ⟨kind, lexeme, span⟩ := t
  cases kind with
  | identifier id =>
    obtain ⟨-, hword⟩ : names.identifiers.id? lexeme = some id ∧ Keyword.ofWord? lexeme = none := h
    rw [show lexeme = Keyword.mainuwu.spelling from hl] at hword
    exact absurd hword (by decide)
  | _ => cases hk

theorem spells_functionName (hm : m.At g) :
    Spells names m (Says (fun n => [functionNameSign names n.value]) (Mark.At g))
      functionName s := by
  rw [functionName, spells_currentKind_bind]
  split
  next hk =>
    have hsign (h : s.stream.current.kind.Fits names s.stream.current.lexeme) :
        s.stream.current.sign = functionNameSign names s.stream.current.lexeme := by
      have hkind : s.stream.current.kind = .keyword .mainuwu := hk
      rw [sign_keyword hkind h]
      rw [hkind] at h
      rw [h (by decide), functionNameSign, if_pos rfl]
    exact .next hk rfl hsign (spells_pure ⟨rfl, hm⟩)
  next =>
    rw [expectName, spells_currentKind_bind]
    split
    next hk =>
      have hspoken : isSpoken s.kind := by
        cases h : s.kind <;> first | rfl | (rw [h] at hk; cases hk)
      refine .next rfl hspoken (fun h => ?_) (spells_pure ⟨rfl, hm⟩)
      have hne := ne_spelling_mainuwu hk h
      rw [sign_identifier hk h, functionNameSign, if_neg hne]
    next => exact spells_failExpected _

/-- A keyword is read that begins an item. -/
theorem Spells.keyword {α : Type} {Q : α → List Sign → Mark → Prop} {k : Keyword}
    {f : Span → Parse α}
    (hf : ∀ a t, Spells names ⟨.keyword k, m.groups⟩ (fun b ys => Q b (k.sign :: ys)) (f a) t) :
    Spells names m Q (expectKeyword k >>= f) s := by
  have hread : Spells names m Q (advance >>= fun t => f t.span) s ∨ s.kind ≠ .keyword k := by
    by_cases hk : s.kind = .keyword k
    · exact .inl (.next hk rfl (sign_keyword hk) (hf _ _))
    · exact .inr hk
  rw [Spells, outcome_bind, expectKeyword, outcome_bind, outcome_expect]
  split
  next hk => exact hread.resolve_right (not_not_intro hk)
  next => trivial

theorem spells_function (hm : m.At g) :
    Spells names m (Says (functionSigns names) (Mark.At g)) (function names) s := by
  have hat : Mark.At g ⟨.keyword .fwunc, m.groups⟩ := hm
  refine .keyword fun _ t => (spells_functionName hat).andThen fun name m' t hm' => ?_
  have hat : Mark.At g ⟨.symbol .dash, m'.groups⟩ := hm'
  refine .symbol rfl fun _ t => (spells_dataType hat).andThen fun type m' t hm' => ?_
  refine (spells_params hm').andThen fun ps m' t hm' => (spells_codeBlock hm').result ?_
  rintro body xs m'' ⟨rfl, hm''⟩
  exact ⟨rfl, hm''⟩

end

end Grammar

end Uwu
