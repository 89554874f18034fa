import Uwu.Proofs.Grammar.Abreast

/-! Every parser inside of an item goes abreast of itself with more items behind: whatever it reads,
and wherever it fails, it never takes the start of the next item for a part of its own. -/

namespace Uwu.Grammar

open Grammar.Stream (beginsItem)

variable {rest : List Token} {depth n k : Nat} {s s' : State}

/-! ### Expressions -/

theorem abreast_literal (h : Beside rest depth s s') (hs : isPlain s.kind) :
    Abreast rest depth 1 literal literal s s' := by
  refine .next h hs fun ht _ => ?_
  cases literalOf? s.stream.current with
  | some => exact abreast_pure ht _
  | none => exact abreast_throw ht ⟨rfl, nofun, nofun⟩

section Expressions

/-- Two parsers of expressions that go abreast where fewer than `k` tokens are left. -/
def AbreastBelow (rest : List Token) (depth k : Nat) (expr expr' : Power → Parse Expr) : Prop :=
  ∀ power s s', Beside rest depth s s' → s.stream.tokens.length < k →
    Abreast rest depth 1 (expr power) (expr' power) s s'

variable {expr expr' : Power → Parse Expr} (hexpr : AbreastBelow rest depth k expr expr')
include hexpr

theorem abreast_segments {n n' : Nat} (h : Beside rest depth s s')
    (hk : s.stream.tokens.length < k) (hn : s.stream.tokens.length < n)
    (hn' : s.stream.tokens.length < n') :
    Abreast rest depth 1 (segments expr n) (segments expr' n') s s' := by
  induction n generalizing s s' n' with
  | zero => exact absurd hn (Nat.not_lt_zero _)
  | succ n ih =>
    cases n' with
    | zero => exact absurd hn' (Nat.not_lt_zero _)
    | succ n' =>
      refine (hexpr _ s s' h hk).andThen fun e t t' ht hl => ?_
      refine abreast_currentKind ht (.mk rfl rfl rfl) ?_
      split
      next hm =>
        refine (Abreast.next ht (by rw [hm]; rfl) fun hu hl' => ?_).zero
        exact ((ih hu (by omega) (by omega) (by omega)).result _).zero
      next hm => exact (abreast_advance ht (by rw [hm]; rfl)).zero.result _
      next => exact abreast_failExpected ht _

theorem abreast_format (h : Beside rest depth s s') (hk : s.stream.tokens.length ≤ k)
    (hs : isPlain s.kind) : Abreast rest depth 1 (format expr) (format expr') s s' := by
  refine .next h hs fun ht hl => abreast_bound ?_
  refine ((abreast_segments hexpr ht (by omega) (Nat.lt_succ_self _) ?_).result _).zero
  rw [ht.tokens, List.length_append]
  omega

theorem abreast_input (h : Beside rest depth s s') (hk : s.stream.tokens.length ≤ k)
    (hs : isPlain s.kind) : Abreast rest depth 1 (input expr) (input expr') s s' := by
  refine .next h hs fun ht hl => (abreast_expectSymbol ht rfl).zero.andThen fun _ u u' hu hl' => ?_
  refine abreast_currentKind hu (.mk rfl rfl rfl) ?_
  split
  next =>
    refine (abreast_pure hu _).andThen fun _ v v' hv _ => ?_
    exact ((abreast_expectSymbol hv rfl).result _).zero
  next =>
    refine ((hexpr _ u u' hu (by omega)).map _).zero.andThen fun _ v v' hv _ => ?_
    exact ((abreast_expectSymbol hv rfl).result _).zero

theorem abreast_array (h : Beside rest depth s s') (hk : s.stream.tokens.length ≤ k)
    (hs : isPlain s.kind) : Abreast rest depth 1 (array expr) (array expr') s s' := by
  refine .next h hs fun ht hl => ((abreast_listTo ht rfl fun u u' hu hle => ?_).result _).zero
  exact hexpr _ u u' hu (by omega)

theorem abreast_grouping (h : Beside rest depth s s') (hk : s.stream.tokens.length ≤ k)
    (hs : isPlain s.kind) : Abreast rest depth 1 (grouping expr) (grouping expr') s s' := by
  refine .next h hs fun ht hl => ?_
  refine (hexpr _ _ _ ht (by omega)).zero.andThen fun _ u u' hu _ => ?_
  exact ((abreast_expectSymbol hu rfl).result _).zero

theorem abreast_args (h : Beside rest depth s s') (hk : s.stream.tokens.length ≤ k) :
    Abreast rest depth 1 (args expr) (args expr') s s' := by
  refine (abreast_expectSymbol h rfl).andThen fun _ t t' ht hl => ?_
  exact (abreast_listTo ht rfl fun u u' hu hle => hexpr _ u u' hu (by omega)).zero

theorem abreast_index (h : Beside rest depth s s') (hk : s.stream.tokens.length ≤ k)
    (hs : isPlain s.kind) : Abreast rest depth 1 (index expr) (index expr') s s' := by
  refine .next h hs fun ht hl => ?_
  refine (hexpr _ _ _ ht (by omega)).zero.andThen fun _ u u' hu _ => ?_
  exact ((abreast_expectSymbol hu rfl).result _).zero

theorem abreast_link (h : Beside rest depth s s') (hk : s.stream.tokens.length ≤ k) :
    Abreast rest depth 1 (link expr) (link expr') s s' := by
  refine (abreast_expectName h).andThen fun name t t' ht hl => ?_
  refine abreast_currentKind ht (.mk rfl rfl rfl) ?_
  split
  next => exact ((abreast_args hexpr ht (by omega)).result _).zero
  next =>
    refine (abreast_many ht (.mk rfl rfl rfl) fun u u' hu hm hle => ?_).result _
    exact abreast_index hexpr hu (by omega) (by rw [beq_iff_eq.mp hm]; rfl)
  next => exact abreast_pure ht _

theorem abreast_construction (h : Beside rest depth s s') (hk : s.stream.tokens.length ≤ k)
    (hs : isPlain s.kind) : Abreast rest depth 1 (construction expr) (construction expr') s s' := by
  refine .next h hs fun ht hl => abreast_currentKind ht (.mk rfl rfl rfl) ?_
  split
  next => exact ((abreast_args hexpr ht (by omega)).result _).zero
  next => exact abreast_failExpected ht _

theorem abreast_member (h : Beside rest depth s s') (hk : s.stream.tokens.length ≤ k)
    (hs : isPlain s.kind) : Abreast rest depth 1 (member expr) (member expr') s s' :=
  .next h hs fun ht _ => (abreast_link hexpr ht (by omega)).zero

theorem abreast_place (h : Beside rest depth s s') (hk : s.stream.tokens.length ≤ k) :
    Abreast rest depth 1 (place expr) (place expr') s s' := by
  have members (first : Place) (t t' : State) (ht : Beside rest depth t t')
      (hl : t.stream.tokens.length + 1 ≤ s.stream.tokens.length) :
      Abreast rest depth 0
        (many (· == .symbol .dot) (member expr) >>= fun ls => pure (ls.foldl addMember first))
        (many (· == .symbol .dot) (member expr') >>= fun ls => pure (ls.foldl addMember first))
        t t' := by
    refine (abreast_many ht (.mk rfl rfl rfl) fun u u' hu hm hle => ?_).result _
    exact abreast_member hexpr hu (by omega) (by rw [beq_iff_eq.mp hm]; rfl)
  refine abreast_currentKind h (.mk rfl rfl rfl) ?_
  split
  next hc => exact (abreast_construction hexpr h hk (by rw [hc]; rfl)).andThen members
  next => exact ((abreast_link hexpr h hk).map _).andThen members

theorem abreast_prefixed (op : PrefixOp) (h : Beside rest depth s s')
    (hk : s.stream.tokens.length ≤ k) (hs : isPlain s.kind) :
    Abreast rest depth 1 (prefixed expr op) (prefixed expr' op) s s' :=
  .next h hs fun ht _ => ((hexpr _ _ _ ht (by omega)).result _).zero

theorem abreast_operand (h : Beside rest depth s s') (hk : s.stream.tokens.length ≤ k) :
    Abreast rest depth 1 (operand expr) (operand expr') s s' := by
  refine abreast_currentKind h (.mk rfl rfl rfl) ?_
  cases hp : operand? expr s.kind with
  | none =>
    have hp' : operand? expr' s.kind = none := by
      generalize s.kind = j at hp
      cases j with
      | keyword w => cases w <;> first | rfl | cases hp
      | symbol x => cases x <;> first | rfl | cases hp
      | _ => first | rfl | cases hp
    rw [hp']
    exact abreast_failUnexpected h _
  | some p =>
    have hs := isPlain_of_operand? hp
    simp only [operand?] at hp ⊢
    split at hp
    all_goals try cases Option.some.inj hp
    case h_7 => exact abreast_input hexpr h hk hs
    case h_8 => exact abreast_format hexpr h hk hs
    case h_9 => exact abreast_array hexpr h hk hs
    case h_10 => exact abreast_grouping hexpr h hk hs
    case h_11 | h_12 => exact (abreast_place hexpr h hk).map _
    case h_13 =>
      obtain ⟨op, hop, rfl⟩ := Option.map_eq_some_iff.mp hp
      simp only [hop, Option.map_some]
      exact abreast_prefixed hexpr op h hk hs
    all_goals exact abreast_literal h hs

theorem abreast_operators (power : Power) {n n' : Nat} (left : Expr) (h : Beside rest depth s s')
    (hk : s.stream.tokens.length ≤ k) (hn : s.stream.tokens.length < n)
    (hn' : s.stream.tokens.length < n') :
    Abreast rest depth 0 (operators expr power n left) (operators expr' power n' left) s s' := by
  induction n generalizing s s' n' left with
  | zero => exact absurd hn (Nat.not_lt_zero _)
  | succ n ih =>
    cases n' with
    | zero => exact absurd hn' (Nat.not_lt_zero _)
    | succ n' =>
      refine abreast_current h (fun _ => ?_) fun hs => ?_
      · split
        next => exact abreast_pure h _
        next hx =>
          have hs : isPlain s.kind := isPlain_of_exceeds (by simpa using hx)
          split
          next =>
            refine (Abreast.next h hs fun ht hl => ?_).zero
            refine (hexpr _ _ _ ht (by omega)).zero.andThen fun right u u' hu hl' => ?_
            exact ih _ hu (by omega) (by omega) (by omega)
          next =>
            refine (Abreast.next h hs fun ht hl => ?_).zero
            split
            next => exact ih _ ht (by omega) (by omega) (by omega)
            next => exact abreast_throw ht ⟨rfl, nofun, nofun⟩
          next => exact .of_error rfl rfl ⟨rfl, nofun, nofun⟩ (.refl h)
      · -- Neither the end nor the start of an item is an operator.
        have hstop : s.kind.power.exceeds power = false := by
          rw [hs]
          rfl
        have hstop' : s'.kind.power.exceeds power = false := by
          rwa [h.blind (f := Kind.power) (.mk rfl rfl rfl)]
        rw [hstop, hstop']
        exact abreast_pure h _

end Expressions

theorem abreast_exprWithin {n n' : Nat} (power : Power) (h : Beside rest depth s s')
    (hn : s.stream.tokens.length < n) (hn' : s.stream.tokens.length < n') :
    Abreast rest depth 1 (exprWithin n power) (exprWithin n' power) s s' := by
  induction n generalizing s s' n' power with
  | zero => exact absurd hn (Nat.not_lt_zero _)
  | succ n ih =>
    cases n' with
    | zero => exact absurd hn' (Nat.not_lt_zero _)
    | succ n' =>
      have hexpr : AbreastBelow rest depth s.stream.tokens.length (exprWithin n) (exprWithin n') :=
        fun power t t' ht hl => ih power ht (by omega) (by omega)
      refine (abreast_operand hexpr h (Nat.le_refl _)).andThen fun left t t' ht hl => ?_
      refine abreast_bound ?_
      refine abreast_operators hexpr power left ht (by omega) (Nat.lt_succ_self _) ?_
      rw [ht.tokens, List.length_append]
      omega

theorem abreast_expression (power : Power) (h : Beside rest depth s s') :
    Abreast rest depth 1 (expression power) (expression power) s s' := by
  refine abreast_bound (abreast_exprWithin power h (Nat.lt_succ_self _) ?_)
  rw [h.tokens, List.length_append]
  omega

theorem abreastBelow_expression : AbreastBelow rest depth k expression expression :=
  fun power _ _ h _ => abreast_expression power h

/-! ### Types and declarations -/

section Types

variable (names : Names)

theorem abreast_unitType (h : Beside rest depth s s') :
    Abreast rest depth 1 (unitType names) (unitType names) s s' := by
  refine abreast_current h (fun _ => ?_) fun hs => ?_
  · split
    next type ht =>
      refine .next h ?_ fun hu _ => abreast_pure hu _
      have hk : s.kind.isType := by rw [← isSome_typeOf? names, ht]; rfl
      cases hs : s.kind <;> first | rfl | simp [hs, Kind.isType] at hk
    next => exact abreast_failExpected h _
  · -- Neither the end nor the start of an item names a type.
    have hnone {t : Token} (ht : t.kind.isType = false) : typeOf? names t = none := by
      rw [← Option.not_isSome_iff_eq_none, isSome_typeOf?, ht]
      exact Bool.false_ne_true
    have htype : s.kind.isType = false := by
      rw [hs]
      rfl
    rw [hnone htype, hnone ((h.blind (f := Kind.isType) (.mk rfl rfl rfl)).trans htype)]
    exact abreast_failExpected h _

theorem abreast_dataType (h : Beside rest depth s s') :
    Abreast rest depth 1 (dataType names) (dataType names) s s' := by
  refine (abreast_unitType names h).andThen fun _ t t' ht _ => ?_
  refine (abreast_many ht (.mk rfl rfl rfl) fun u u' hu hm _ => ?_).result _
  refine .next hu (by rw [beq_iff_eq.mp hm]; rfl) fun hv _ => ?_
  exact ((abreast_expectSymbol hv rfl).result _).zero

theorem abreast_constMark (h : Beside rest depth s s') :
    Abreast rest depth 0 constMark constMark s s' := by
  have hkind : (s'.kind = .symbol .dash) = (s.kind = .symbol .dash) :=
    h.blind (f := (· = .symbol .dash)) (.mk (by simp) (by simp) (by simp))
  have hsame : (s'.kind = .symbol .dash ∧ s'.stream.peek.kind = .keyword .dono) =
      (s.kind = .symbol .dash ∧ s.stream.peek.kind = .keyword .dono) := by
    rw [hkind]
    refine propext (and_congr_right fun hs => Iff.of_eq ?_)
    have hblind : Blind (· = Kind.keyword .dono) := .mk (by simp) (by simp) (by simp)
    exact h.blind_peek hblind (by simp [hs])
  change Abreast rest depth 0
    (if s.kind = .symbol .dash ∧ s.stream.peek.kind = .keyword .dono then
      advance >>= fun _ => advance >>= fun _ => pure true else pure false)
    (if s'.kind = .symbol .dash ∧ s'.stream.peek.kind = .keyword .dono then
      advance >>= fun _ => advance >>= fun _ => pure true else pure false) s s'
  simp only [hsame]
  split
  next hd =>
    refine (Abreast.next h (by rw [hd.1]; rfl) fun ht _ => ?_).zero
    refine ((abreast_advance ht ?_).result _).zero
    rw [State.kind, State.current_next, hd.2]
    rfl
  next => exact abreast_pure h _

theorem abreast_declaration (h : Beside rest depth s s') :
    Abreast rest depth 1 (declaration names) (declaration names) s s' := by
  refine (abreast_expectName h).andThen fun name _ _ ht _ => ?_
  refine (abreast_expectSymbol ht rfl).zero.andThen fun _ _ _ ht _ => ?_
  refine (abreast_dataType names ht).zero.andThen fun type _ _ ht _ => ?_
  refine (abreast_constMark ht).andThen fun isConst _ _ ht _ => ?_
  have last (value : Option Expr) (t t' : State) (ht : Beside rest depth t t') :
      Abreast rest depth 0 (do
        let stop ← expectSymbol .terminator
        if isConst && value.isNone then record ⟨.constantWithoutValue name.value, name.span⟩
        return (⟨name, type, isConst, value, name.span.through stop⟩ : Declaration)) (do
        let stop ← expectSymbol .terminator
        if isConst && value.isNone then record ⟨.constantWithoutValue name.value, name.span⟩
        return (⟨name, type, isConst, value, name.span.through stop⟩ : Declaration)) t t' := by
    refine (abreast_expectSymbol ht rfl).zero.andThen fun _ _ _ hu _ => ?_
    split
    next => exact (abreast_record hu (by constructor <;> nofun)).result _
    next => exact abreast_pure hu _
  refine abreast_currentKind ht (.mk rfl rfl rfl) ?_
  split
  next hs =>
    refine (Abreast.next ht (by rw [hs]; rfl) fun hu _ => ?_).zero
    refine ((abreast_expression .lowest hu).zero.map some).andThen fun value v v' hv _ => ?_
    exact last value v v' hv
  next => exact (abreast_pure ht none).andThen fun value u u' hu _ => last value u u' hu

end Types

/-! ### Simple statements -/

theorem abreast_assignmentTo (target : Place) (op : AssignOp) (h : Beside rest depth s s')
    (hs : isPlain s.kind) :
    Abreast rest depth 1 (assignmentTo target op) (assignmentTo target op) s s' := by
  rw [assignmentTo]
  split
  next => exact .next h hs fun ht _ => ((abreast_expression _ ht).result _).zero
  next => exact .of_error rfl rfl ⟨rfl, by simp [Ordinary]⟩ (.refl h)

theorem abreast_placeStmt (h : Beside rest depth s s') :
    Abreast rest depth 1 placeStmt placeStmt s s' := by
  refine (abreast_place abreastBelow_expression h (Nat.le_refl _)).andThen fun _ _ _ ht _ => ?_
  refine abreast_currentKind ht (.mk rfl rfl rfl) ?_
  split
  next hop =>
    refine (abreast_assignmentTo _ _ ht (isPlain_of_assignOp hop)).zero.andThen fun _ _ _ hu _ => ?_
    exact ((abreast_expectSymbol hu rfl).result _).zero
  next hop =>
    refine (Abreast.next ht (isPlain_of_postfixOp hop) fun hu _ => ?_).zero
    exact ((abreast_expectSymbol hu rfl).result _).zero
  next =>
    split
    next => exact abreast_failUnexpected ht _
    next => exact ((abreast_expectSymbol ht rfl).result _).zero

theorem abreast_printStmt (h : Beside rest depth s s') (hs : isPlain s.kind) :
    Abreast rest depth 1 printStmt printStmt s s' := by
  refine .next h hs fun ht _ => ?_
  refine (abreast_args abreastBelow_expression ht (Nat.le_refl _)).zero.andThen fun _ _ _ hu _ => ?_
  exact ((abreast_expectSymbol hu rfl).result _).zero

theorem abreast_leaveStmt (h : Beside rest depth s s') (hs : isPlain s.kind) :
    Abreast rest depth 1 leaveStmt leaveStmt s s' := by
  refine .next h hs fun ht _ => abreast_currentKind ht (.mk rfl rfl rfl) ?_
  split
  next =>
    refine (abreast_pure ht _).andThen fun _ u u' hu _ => ?_
    exact ((abreast_expectSymbol hu rfl).result _).zero
  next =>
    refine ((abreast_expression .lowest ht).map some).zero.andThen fun _ u u' hu _ => ?_
    exact ((abreast_expectSymbol hu rfl).result _).zero

theorem abreast_stopStmt (h : Beside rest depth s s') (hs : isPlain s.kind) :
    Abreast rest depth 1 stopStmt stopStmt s s' := by
  refine .next h hs fun ht _ => (abreast_expectSymbol ht rfl).zero.andThen fun _ u u' hu _ => ?_
  refine abreast_isLooping hu ?_
  split
  next => exact (abreast_record hu (by constructor <;> nofun)).result _
  next => exact abreast_pure hu _

/-! ### Statements with blocks -/

theorem abreast_condition (h : Beside rest depth s s') :
    Abreast rest depth 1 condition condition s s' := by
  refine (abreast_expectSymbol h rfl).andThen fun _ _ _ ht _ => ?_
  refine (abreast_expression _ ht).zero.andThen fun _ _ _ hu _ => ?_
  exact ((abreast_expectSymbol hu rfl).result _).zero

theorem abreast_loopStart (names : Names) (h : Beside rest depth s s') :
    Abreast rest depth 1 (loopStart names) (loopStart names) s s' := by
  refine abreast_declarationAhead h fun b => ?_
  split
  next => exact (abreast_declaration names h).result _
  next =>
    have hplace := abreast_place (k := s.stream.tokens.length) abreastBelow_expression h (Nat.le_refl _)
    refine hplace.andThen fun target _ _ ht _ => ?_
    refine abreast_currentKind ht (.mk rfl rfl rfl) ?_
    split
    next op hop =>
      have hassign := abreast_assignmentTo target op ht (isPlain_of_assignOp hop)
      refine hassign.zero.andThen fun _ _ _ hu _ => ?_
      exact ((abreast_expectSymbol hu rfl).result _).zero
    next => exact abreast_failExpected ht _

theorem abreast_loopUpdate (h : Beside rest depth s s') :
    Abreast rest depth 1 loopUpdate loopUpdate s s' := by
  refine (abreast_place abreastBelow_expression h (Nat.le_refl _)).andThen fun _ t t' ht _ => ?_
  refine abreast_currentKind ht (.mk rfl rfl rfl) ?_
  split
  next hop => exact ((abreast_assignmentTo _ _ ht (isPlain_of_assignOp hop)).result _).zero
  next hop => exact ((abreast_advance ht (isPlain_of_postfixOp hop)).result _).zero
  next => exact abreast_failExpected ht _

theorem abreast_failNoStmt (h : Beside rest depth s s') :
    Abreast rest depth n failNoStmt failNoStmt s s' :=
  .of_error rfl rfl ⟨rfl, nofun, nofun⟩ (.refl h)

section Statements

/-- Two parsers of blocks that go abreast where at most `k` tokens are left. -/
def AbreastBlocks (rest : List Token) (depth k : Nat) (block block' : Parse Block) : Prop :=
  ∀ s s', Beside rest depth s s' → s.stream.tokens.length ≤ k →
    Abreast rest depth 1 block block' s s'

variable (names : Names) {block block' : Parse Block}
  (hblock : AbreastBlocks rest depth k block block')
include hblock

theorem abreast_elseIf (h : Beside rest depth s s') (hk : s.stream.tokens.length ≤ k)
    (hs : isPlain s.kind) : Abreast rest depth 1 (elseIf block) (elseIf block') s s' := by
  refine .next h hs fun ht _ => (abreast_condition ht).zero.andThen fun _ u u' hu _ => ?_
  exact ((hblock u u' hu (by omega)).result _).zero

theorem abreast_elseBlock (h : Beside rest depth s s') (hk : s.stream.tokens.length ≤ k) :
    Abreast rest depth 0 (elseBlock block) (elseBlock block') s s' := by
  refine abreast_currentKind h (.mk rfl rfl rfl) ?_
  split
  next hs =>
    refine (Abreast.next h (by rw [hs]; rfl) fun ht _ => ?_).zero
    exact ((hblock _ _ ht (by omega)).map _).zero
  next => exact abreast_pure h _

theorem abreast_branchStmt (h : Beside rest depth s s') (hk : s.stream.tokens.length ≤ k)
    (hs : isPlain s.kind) : Abreast rest depth 1 (branchStmt block) (branchStmt block') s s' := by
  refine .next h hs fun ht _ => (abreast_condition ht).zero.andThen fun _ u u' hu _ => ?_
  refine (hblock u u' hu (by omega)).zero.andThen fun _ v v' hv _ => ?_
  refine (abreast_many hv (.mk rfl rfl rfl) fun w w' hw hm _ => ?_).andThen fun _ w w' hw _ => ?_
  · exact abreast_elseIf hblock hw (by omega) (by rw [beq_iff_eq.mp hm]; rfl)
  · exact (abreast_elseBlock hblock hw (by omega)).result _

theorem abreast_insideLoop (h : Beside rest depth s s') (hk : s.stream.tokens.length ≤ k) :
    Abreast rest depth 1 (insideLoop block) (insideLoop block') s s' :=
  .insideLoop h fun t t' hl ht => hblock t t' ht (by rw [hl]; exact hk)

theorem abreast_repeatStmt (h : Beside rest depth s s') (hk : s.stream.tokens.length ≤ k)
    (hs : isPlain s.kind) : Abreast rest depth 1 (repeatStmt block) (repeatStmt block') s s' := by
  refine .next h hs fun ht _ => (abreast_condition ht).zero.andThen fun _ u u' hu _ => ?_
  exact ((abreast_insideLoop hblock hu (by omega)).result _).zero

theorem abreast_countStmt (h : Beside rest depth s s') (hk : s.stream.tokens.length ≤ k)
    (hs : isPlain s.kind) :
    Abreast rest depth 1 (countStmt names block) (countStmt names block') s s' := by
  refine .next h hs fun ht _ => (abreast_expectSymbol ht rfl).zero.andThen fun _ _ _ ht _ => ?_
  refine (abreast_loopStart names ht).zero.andThen fun _ _ _ ht _ => ?_
  refine (abreast_expression .lowest ht).zero.andThen fun _ _ _ ht _ => ?_
  refine (abreast_expectSymbol ht rfl).zero.andThen fun _ _ _ ht _ => ?_
  refine (abreast_loopUpdate ht).zero.andThen fun _ _ _ ht _ => ?_
  refine (abreast_expectSymbol ht rfl).zero.andThen fun _ u u' hu _ => ?_
  exact ((abreast_insideLoop hblock hu (by omega)).result _).zero

theorem abreast_keywordStmt {w : Keyword} (h : Beside rest depth s s')
    (hk : s.stream.tokens.length ≤ k) (hw : s.kind = .keyword w) :
    Abreast rest depth 1 ((keywordStmt? names block w).getD failNoStmt)
      ((keywordStmt? names block' w).getD failNoStmt) s s' := by
  have hs : isPlain s.kind := by rw [hw]; rfl
  unfold keywordStmt?
  split
  next => exact abreast_branchStmt hblock h hk hs
  next => exact abreast_repeatStmt hblock h hk hs
  next => exact abreast_repeatStmt hblock h hk hs
  next => exact abreast_countStmt names hblock h hk hs
  next => exact abreast_leaveStmt h hs
  next => exact abreast_stopStmt h hs
  next => exact abreast_printStmt h hs
  next => exact abreast_failNoStmt h

theorem abreast_stmt (h : Beside rest depth s s') (hk : s.stream.tokens.length ≤ k) :
    Abreast rest depth 1 (stmt names block) (stmt names block') s s' := by
  refine abreast_currentKind h (.mk rfl rfl rfl) ?_
  split
  next w hw => exact abreast_keywordStmt names hblock h hk hw
  next =>
    refine abreast_declarationAhead h fun b => ?_
    split
    next => exact (abreast_declaration names h).result _
    next => exact abreast_placeStmt h
  next => exact abreast_placeStmt h
  next => exact abreast_failNoStmt h

end Statements

/-! ### Blocks -/

/-- In a block a skip goes no further than the bracket that closes it. -/
theorem skipStatementFrom_append {ts : List Token} (rest : List Token) (inner : Nat)
    (stop stop' previous : Span)
    (hin : ∀ t ∈ ts, t.kind ≠ .endOfFile) (h : depthAfter? (depth + 1 + inner) ts = some 0) :
    ∃ us last, us <:+ ts ∧ depthAfter? (depth + 1) us = some 0 ∧
      Stream.skipStatementFrom stop inner previous ts = ⟨us, stop, last⟩ ∧
      Stream.skipStatementFrom stop' inner previous (ts ++ rest) = ⟨us ++ rest, stop', last⟩ := by
  induction ts generalizing inner previous with
  | nil => simp [depthAfter?] at h
  | cons t ts ih =>
    rw [List.forall_mem_cons] at hin
    have further {inner : Nat} (hd : depthAfter? (depth + 1 + inner) ts = some 0) :
        ∃ us last, us <:+ t :: ts ∧ depthAfter? (depth + 1) us = some 0 ∧
          Stream.skipStatementFrom stop inner t.span ts = ⟨us, stop, last⟩ ∧
          Stream.skipStatementFrom stop' inner t.span (ts ++ rest) = ⟨us ++ rest, stop', last⟩ := by
      obtain ⟨us, last, hsuffix, hrun⟩ := ih inner t.span hin.2 hd
      exact ⟨us, last, hsuffix.trans (List.suffix_cons _ _), hrun⟩
    simp only [List.cons_append, Stream.skipStatementFrom]
    split
    next hk => exact absurd hk hin.1
    next hk =>
      rw [depthAfter?_plain (by rw [hk]; rfl)] at h
      split
      next hz =>
        subst hz
        exact ⟨ts, t.span, List.suffix_cons _ _, h, rfl, rfl⟩
      next => exact further h
    next hk =>
      rw [depthAfter?_open hk] at h
      exact further h
    next hk =>
      split
      next => exact ⟨t :: ts, previous, List.suffix_rfl, h, rfl, rfl⟩
      next =>
        rw [depthAfter?_close hk] at h
        exact ⟨ts, t.span, List.suffix_cons _ _, h, rfl, rfl⟩
      next =>
        rw [Nat.succ_eq_add_one, ← Nat.add_assoc, depthAfter?_close hk] at h
        exact further h
    next he _ ho hc =>
      rw [depthAfter?_plain (isPlain_iff.mpr ⟨he, ho, hc⟩)] at h
      exact further h

section Blocks

variable {α β : Type} {item item' : Parse α}

/-- A round of a block, be its statement broken or not. -/
theorem abreast_round (hkeeps : ∀ t, Reads Keeps 1 item t) (hin : insideBlock s.kind)
    (h : Abreast rest (depth + 1) 1 item item' s s') :
    Abreast rest (depth + 1) 1 (recovering item skipStatement) (recovering item' skipStatement)
      s s' := by
  have hrun : Abreast rest (depth + 1) 0 (recovering item skipStatement)
      (recovering item' skipStatement) s s' := by
    obtain ⟨a, t, t', hp, hp', ht, -⟩ | ⟨d, d', t, t', hp, hp', hd, ht⟩ := h.cases
    · refine .of_ok (a := some a) ?_ ?_ ht ht.length_le
      · rw [recovering, hp]
      · rw [recovering, hp']
    · have hb := ht.beside
      obtain ⟨us, last, hsuffix, hnested, hskip, hskip'⟩ := skipStatementFrom_append rest 0
        t.stream.stop t'.stream.stop t.stream.previous hb.inside hb.nested
      have hpassed : Passed rest (depth + 1) s s'
          (skipStatement s { t with recorded := t.recorded ++ [d] })
          (skipStatement s' { t' with recorded := t'.recorded ++ [d'] }) := by
        refine (ht.record hd).moved ?_ skipStatementFrom_suffix rfl rfl rfl
        simp only [skipStatement, Stream.skipStatement, hb.previous, hb.tokens, hskip, hskip']
        have hin : ∀ u ∈ us, u.kind ≠ .endOfFile := fun u hu => hb.inside u (hsuffix.subset hu)
        exact ⟨⟨rfl, hb.loops, hin, hnested, hb.border⟩, rfl⟩
      refine .of_ok (a := none) ?_ ?_ hpassed hpassed.length_le
      · rw [recovering, hp]
      · rw [recovering, hp']
  refine hrun.of_outcome (Outcome.mono (outcome_recovering_item hkeeps hin) (fun _ t ht => ?_)
    fun _ => id)
  exact Nat.succ_le_of_lt ht.2

/-- The rounds of a block end at its bracket. -/
theorem abreast_rounds (hkeeps : ∀ t, Reads Keeps 1 item t) (h : Beside rest (depth + 1) s s')
    (hitem : ∀ t t', Beside rest (depth + 1) t t' →
      t.stream.tokens.length ≤ s.stream.tokens.length →
      Abreast rest (depth + 1) 1 item item' t t') :
    ∃ xs t t', many insideBlock (recovering item skipStatement) s = .ok xs t ∧
      many insideBlock (recovering item' skipStatement) s' = .ok xs t' ∧
      Passed rest (depth + 1) s s' t t' ∧ t.kind = .symbol .doubleCloseBracket := by
  have hrounds : Abreast rest (depth + 1) 0 (many insideBlock (recovering item skipStatement))
      (many insideBlock (recovering item' skipStatement)) s s' := by
    refine abreast_bound (abreast_upTo h (Nat.lt_succ_self _) ?_ (fun t t' ht => ?_)
      fun t t' ht hin hle => abreast_round hkeeps hin (hitem t t' ht hle))
    · rw [h.tokens, List.length_append]
      omega
    · rw [ht.kind_eq ht.kind_ne_end]
  have hends : Outcome (many insideBlock (recovering item skipStatement)) s
      (fun _ t => ¬ insideBlock t.kind) fun _ => False :=
    Outcome.mono (outcome_rounds hkeeps (Nat.lt_succ_self _)) (fun _ _ ht => ht.2) fun _ => id
  unfold Outcome at hends
  obtain ⟨xs, t, t', hp, hp', ht, -⟩ | ⟨d, d', t, t', hp, -, -, -⟩ := hrounds.cases
  · rw [hp] at hends
    refine ⟨xs, t, t', hp, hp', ht, ?_⟩
    simpa [insideBlock, ht.beside.kind_ne_end] using hends
  · rw [hp] at hends
    exact hends.elim

/-- Items in the brackets of a block. -/
theorem abreast_bracketed (g : Span → List (Option α) → Span → β)
    (hkeeps : ∀ t, Reads Keeps 1 item t) (h : Beside rest depth s s')
    (hitem : ∀ t t', Beside rest (depth + 1) t t' →
      t.stream.tokens.length < s.stream.tokens.length →
      Abreast rest (depth + 1) 1 item item' t t') :
    Abreast rest depth 1
      (expectSymbol .doubleOpenBracket >>= fun start =>
        many insideBlock (recovering item skipStatement) >>= fun body =>
          expectSymbol .doubleCloseBracket >>= fun stop => pure (g start body stop))
      (expectSymbol .doubleOpenBracket >>= fun start =>
        many insideBlock (recovering item' skipStatement) >>= fun body =>
          expectSymbol .doubleCloseBracket >>= fun stop => pure (g start body stop)) s s' := by
  have hsame : s'.kind = .symbol .doubleOpenBracket ↔ s.kind = .symbol .doubleOpenBracket :=
    .of_eq (h.blind (f := (· = .symbol .doubleOpenBracket)) (.mk (by simp) (by simp) (by simp)))
  have hrun {item : Parse α} {s t : State} {xs : List (Option α)}
      (ho : s.kind = .symbol .doubleOpenBracket)
      (hm : many insideBlock (recovering item skipStatement) s.next = .ok xs t)
      (hc : t.kind = .symbol .doubleCloseBracket) :
      (expectSymbol .doubleOpenBracket >>= fun start =>
        many insideBlock (recovering item skipStatement) >>= fun body =>
          expectSymbol .doubleCloseBracket >>= fun stop => pure (g start body stop)) s =
        .ok (g s.stream.current.span xs t.stream.current.span) t.next := by
    rw [run_bind (run_expectSymbol_of_kind ho), run_bind hm, run_bind (run_expectSymbol_of_kind hc)]
    rfl
  by_cases ho : s.kind = .symbol .doubleOpenBracket
  · have hne : s.kind ≠ .endOfFile := by simp [ho]
    have hopen := State.tokens_eq_cons hne
    have hfirst : Passed rest (depth + 1) s s' s.next s'.next :=
      .next h.toFacing hne (by rw [hopen]; exact depthAfter?_open ho)
    obtain ⟨xs, t, t', hm, hm', ht, hc⟩ := abreast_rounds hkeeps hfirst.beside fun t t' ht hle =>
      hitem t t' ht (by rw [hopen, List.length_cons]; omega)
    have hne' : t.kind ≠ .endOfFile := by simp [hc]
    have hlast : Passed rest depth t t' t.next t'.next :=
      .next ht.beside.toFacing hne' (by rw [State.tokens_eq_cons hne']; exact depthAfter?_close hc)
    have hend := hrun (hsame.mpr ho) hm' ((ht.beside.kind_eq hne').trans hc)
    rw [h.current hne, ht.beside.current hne'] at hend
    refine .of_ok (hrun ho hm hc) hend ((hfirst.trans ht).trans hlast) ?_
    have hle := (ht.trans hlast).length_le
    rw [hopen, List.length_cons]
    omega
  · have ho' : s'.kind ≠ .symbol .doubleOpenBracket := fun he => ho (hsame.mp he)
    exact .of_error (run_bind_error (run_expectSymbol_of_ne ho))
      (run_bind_error (run_expectSymbol_of_ne ho')) ⟨rfl, nofun, nofun⟩ (.refl h)

end Blocks

section Bodies

variable (names : Names)

theorem abreast_blockOf {stmt stmt' : Parse Stmt} (hkeeps : ∀ t, Reads Keeps 1 stmt t)
    (h : Beside rest depth s s')
    (hstmt : ∀ t t', Beside rest (depth + 1) t t' →
      t.stream.tokens.length < s.stream.tokens.length →
      Abreast rest (depth + 1) 1 stmt stmt' t t') :
    Abreast rest depth 1 (blockOf stmt) (blockOf stmt') s s' :=
  abreast_bracketed (fun start body stop => (⟨body.filterMap id, start.through stop⟩ : Block))
    hkeeps h hstmt

theorem abreast_stmtWithin {n n' : Nat} (h : Beside rest depth s s')
    (hn : s.stream.tokens.length < n) (hn' : s.stream.tokens.length < n') :
    Abreast rest depth 1 (stmtWithin names n) (stmtWithin names n') s s' := by
  induction n generalizing depth s s' n' with
  | zero => exact absurd hn (Nat.not_lt_zero _)
  | succ n ih =>
    cases n' with
    | zero => exact absurd hn' (Nat.not_lt_zero _)
    | succ n' =>
      refine abreast_stmt names (fun t t' ht hle => ?_) h (Nat.le_refl _)
      refine abreast_blockOf (fun _ => keeps_stmtWithin names n) ht fun u u' hu hlt => ?_
      exact ih hu (by omega) (by omega)

theorem abreast_statement (h : Beside rest depth s s') :
    Abreast rest depth 1 (statement names) (statement names) s s' := by
  refine abreast_bound (abreast_stmtWithin names h (Nat.lt_succ_self _) ?_)
  rw [h.tokens, List.length_append]
  omega

theorem abreast_codeBlock (h : Beside rest depth s s') :
    Abreast rest depth 1 (codeBlock names) (codeBlock names) s s' :=
  abreast_blockOf (fun _ => keeps_statement names) h fun _ _ ht _ => abreast_statement names ht

/-! ### Items -/

theorem abreast_param (h : Beside rest depth s s') :
    Abreast rest depth 1 (param names) (param names) s s' := by
  refine (abreast_expectName h).andThen fun name _ _ ht _ => ?_
  refine (abreast_expectSymbol ht rfl).zero.andThen fun _ _ _ ht _ => ?_
  refine (abreast_dataType names ht).zero.andThen fun type _ _ ht _ => ?_
  exact abreast_spanBefore ht (abreast_pure ht _)

theorem abreast_params (h : Beside rest depth s s') :
    Abreast rest depth 1 (params names) (params names) s s' := by
  refine (abreast_expectSymbol h rfl).andThen fun _ _ _ ht _ => ?_
  exact ((abreast_listTo ht rfl fun _ _ hu _ => abreast_param names hu).result _).zero

theorem abreast_functionName (h : Beside rest depth s s') :
    Abreast rest depth 1 functionName functionName s s' := by
  refine abreast_currentKind h (.mk rfl rfl rfl) ?_
  split
  next hs => exact (abreast_advance h (by rw [hs]; rfl)).result _
  next => exact abreast_expectName h

theorem run_className_of_ne {s : State} (h : ∀ id, s.kind ≠ .classId id) :
    className names s = .error ⟨.expected "a class name" s.stream.current.described,
      s.stream.current.span⟩ s := by
  rw [className, run_current]
  cases hk : s.stream.current.kind with
  | classId id => exact absurd hk (h id)
  | _ => rfl

theorem abreast_className (h : Beside rest depth s s') :
    Abreast rest depth 1 (className names) (className names) s s' := by
  by_cases hs : s.kind = .endOfFile
  · -- Neither the end nor the start of an item is the name of a class.
    have hclass : (∀ id, s'.kind ≠ .classId id) = ∀ id, s.kind ≠ .classId id :=
      h.blind (f := fun j => ∀ id, j ≠ .classId id) (.mk (by simp) (by simp) (by simp))
    have hends : ∀ id, s.kind ≠ .classId id := by simp [hs]
    exact .of_error (run_className_of_ne names hends) (run_className_of_ne names (hclass.mpr hends))
      ⟨rfl, nofun, nofun⟩ (.refl h)
  · refine abreast_current h (fun _ => ?_) fun he => absurd he hs
    split
    next => exact (abreast_unitType names h).result _
    next => exact abreast_failExpected h _

/-- The keyword that an item begins with. -/
theorem Facing.keyword {β : Type} {f f' : Span → Parse β} {w : Keyword}
    (h : Facing rest depth s s') (hw : s.kind = .keyword w)
    (hf : Beside rest depth s.next s'.next →
      Abreast rest depth 0 (f s.stream.current.span) (f' s.stream.current.span) s.next s'.next) :
    Abreast rest depth 1 (expectKeyword w >>= f) (expectKeyword w >>= f') s s' := by
  have hs : isPlain s.kind := by rw [hw]; rfl
  have hrun {f : Span → Parse β} {s : State} (hw : s.kind = .keyword w) :
      (expectKeyword w >>= f) s = (advance >>= fun t => f t.span) s := by
    rw [expectKeyword, run_bind (t := s.next) (a := s.stream.current.span), run_advance]
    rw [run_bind (run_expect hw), run_pure]
  rw [Abreast, hrun hw, hrun ((h.kind_eq (isPlain_iff.mp hs).1).trans hw)]
  exact h.thenAbreast hs fun ht _ => hf ht

theorem abreast_function (h : Facing rest depth s s') (hs : s.kind = .keyword .fwunc) :
    Abreast rest depth 1 (function names) (function names) s s' := by
  refine h.keyword hs fun ht => ?_
  refine (abreast_functionName ht).zero.andThen fun _ _ _ ht _ => ?_
  refine (abreast_expectSymbol ht rfl).zero.andThen fun _ _ _ ht _ => ?_
  refine (abreast_dataType names ht).zero.andThen fun _ _ _ ht _ => ?_
  refine (abreast_params names ht).zero.andThen fun _ _ _ ht _ => ?_
  exact ((abreast_codeBlock names ht).result _).zero

theorem abreast_global (h : Facing rest depth s s') (hs : s.kind = .keyword .gwobaw) :
    Abreast rest depth 1 (global names) (global names) s s' :=
  h.keyword hs fun ht => ((abreast_declaration names ht).result _).zero

theorem abreast_classMember (h : Beside rest (depth + 1) s s') :
    Abreast rest (depth + 1) 1 (classMember names) (classMember names) s s' := by
  refine h.currentKind h.kind_ne_end ?_
  split
  next hs => exact (abreast_function names h.toFacing hs).result _
  next =>
    refine abreast_declarationAhead h fun b => ?_
    split
    next => exact (abreast_declaration names h).result _
    next => exact abreast_failUnexpected h _

theorem abreast_classItem (h : Facing rest depth s s') (hs : s.kind = .keyword .cwass) :
    Abreast rest depth 1 (classItem names) (classItem names) s s' := by
  refine h.keyword hs fun ht => ?_
  refine (abreast_className names ht).zero.andThen fun (name, type) _ _ ht _ => ?_
  refine (abreast_params names ht).zero.andThen fun ps _ _ ht _ => Abreast.zero (n := 1) ?_
  exact abreast_bracketed (fun _ members stop =>
    (⟨name, type, ps, (members.filterMap id).filterMap Member.property?,
      (members.filterMap id).filterMap Member.method?, s.stream.current.span.through stop⟩ : Class))
    (fun _ => keeps_classMember names) ht fun _ _ hu _ => abreast_classMember names hu

/-- An item. Where it begins with no keyword of an item, the two have to have read the same. -/
theorem abreast_item (h : Facing rest depth s s') (hs : s.kind ≠ .endOfFile)
    (hb : ¬ beginsItem s.kind → Beside rest depth s s') :
    Abreast rest depth 1 (item names) (item names) s s' := by
  refine h.currentKind hs ?_
  split
  next hk => exact (abreast_global names h hk).result _
  next hk => exact (abreast_classItem names h hk).result _
  next hk =>
    refine h.nextKind hs (.mk rfl rfl rfl) ?_
    refine (abreast_function names h hk).andThen fun f _ _ ht _ => ?_
    split
    next => exact abreast_pure ht _
    next => exact abreast_pure ht _
  next hgwobaw hcwass hfwunc =>
    have hbegins : ¬ beginsItem s.kind := by
      unfold beginsItem
      split
      next hk => exact absurd hk hgwobaw
      next hk => exact absurd hk hfwunc
      next hk => exact absurd hk hcwass
      next => exact Bool.false_ne_true
    exact .of_error rfl rfl ⟨rfl, nofun, nofun⟩ (.refl (hb hbegins))

end Bodies

end Uwu.Grammar
