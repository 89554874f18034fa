import Uwu.Proofs.Grammar.Builds
import Uwu.Proofs.Grammar.SourceOrder

/-! An accepted program is well-formed: a parser that records no mistake builds nothing else. -/

namespace Uwu

/-! ### Literals and texts -/

namespace Lexeme

theorem unescape_eq_nil {cs : List Char} : unescape cs = [] ↔ cs = [] := by
  constructor
  · intro h
    unfold unescape at h
    split at h
    next => rfl
    next => split at h <;> cases h
    next => cases h
  · rintro rfl
    rfl

end Lexeme

namespace Grammar

theorem inRange_of_literalOf? {t : Token} {value : Literal} (h : literalOf? t = some value) :
    value.InRange := by
  have hmax : maxInt < 2 ^ 63 := by decide
  unfold literalOf? at h
  split at h
  next =>
    unfold intLiteral? at h
    split at h
    next n _ =>
      split at h
      next hn =>
        cases h
        exact Nat.lt_of_le_of_lt hn hmax
      next => cases h
    next => cases h
  next =>
    obtain ⟨n, -, rfl⟩ := Option.map_eq_some_iff.1 h
    trivial
  all_goals cases h <;> trivial

theorem textsApart_of_true {ss : List Segment} (h : textsApart true ss) : textsApart false ss := by
  cases ss with
  | nil => trivial
  | cons segment ss =>
    cases segment with
    | text => exact absurd h.1 Bool.true_eq_false.mp
    | expr => exact h

/-- A part of a string brings a text that is not empty, or none. -/
theorem textsApart_textSegment (first last : Char) (t : Token) {ss : List Segment}
    (h : textsApart true ss) : textsApart false (textSegment first last t ++ ss) := by
  unfold textSegment
  split
  next => exact textsApart_of_true h
  next hne =>
    refine ⟨rfl, fun hempty => hne ?_, h⟩
    exact Lexeme.unescape_eq_nil.1 (String.ofList_eq_empty_iff.1 hempty)

theorem segmentsWellFormed_textSegment (first last : Char) (t : Token) :
    SegmentsWellFormed (textSegment first last t) := by
  unfold textSegment
  split <;> trivial

/-- What stands behind the first part of an interpolated string. -/
structure Behind (ss : List Segment) : Prop where
  expr : ∃ e, .expr e ∈ ss
  apart : textsApart true ss
  segments : SegmentsWellFormed ss

theorem Behind.cons {e : Expr} {ss : List Segment} (he : e.WellFormed)
    (hss : textsApart false ss) (h : SegmentsWellFormed ss) : Behind (.expr e :: ss) :=
  ⟨⟨e, List.mem_cons_self⟩, hss, he, h⟩

theorem wellFormed_foldl_addMember {links : List Link} {first : Place}
    (hf : first.WellFormed) (hl : ∀ l ∈ links, l.WellFormed) :
    (links.foldl addMember first).WellFormed := by
  induction links generalizing first with
  | nil => exact hf
  | cons l links ih =>
    obtain ⟨hhead, htail⟩ := List.forall_mem_cons.1 hl
    exact ih ⟨hf, hhead⟩ htail

/-! ### Expressions -/

section

variable {ts : List Token} {loops : Nat} {s : State}

theorem builds_literal : Builds ts loops Expr.WellFormed literal s := by
  refine .next fun _ => ?_
  split
  next value hv => exact builds_pure (inRange_of_literalOf? hv)
  next => exact builds_throw _

section Expressions

variable {expr : Power → Parse Expr}
  (hexpr : ∀ power t, Builds ts loops Expr.WellFormed (expr power) t)
include hexpr

theorem builds_segments (n : Nat) :
    Builds ts loops (fun x => Behind x.1) (segments expr n) s := by
  induction n generalizing s with
  | zero => exact builds_failExpected _
  | succ n ih =>
    refine (hexpr .lowest s).bind fun e t => ?_
    rw [builds_currentKind_bind]
    split
    next =>
      refine .next fun _ => ih.bind fun ⟨rest, stop⟩ _ => builds_pure fun hrest he => ?_
      refine .cons he (textsApart_textSegment _ _ _ hrest.apart) ?_
      exact segmentsWellFormed_append.2 ⟨segmentsWellFormed_textSegment _ _ _, hrest.segments⟩
    next =>
      refine .next fun _ => builds_pure fun he => ?_
      have hapart : textsApart false (textSegment '|' '"' t.stream.current ++ []) :=
        textsApart_textSegment _ _ _ trivial
      rw [List.append_nil] at hapart
      exact .cons he hapart (segmentsWellFormed_textSegment _ _ _)
    next => exact builds_failExpected _

theorem builds_format : Builds ts loops Expr.WellFormed (format expr) s := by
  refine .next fun _ => builds_bound_bind.2 ?_
  refine (builds_segments hexpr _).result fun ⟨rest, stop⟩ hrest => ?_
  obtain ⟨e, he⟩ := hrest.expr
  refine ⟨⟨e, List.mem_append_right _ he⟩, textsApart_textSegment _ _ _ hrest.apart, ?_⟩
  exact segmentsWellFormed_append.2 ⟨segmentsWellFormed_textSegment _ _ _, hrest.segments⟩

theorem builds_input : Builds ts loops Expr.WellFormed (input expr) s := by
  have rest (prompt : Option Expr) (start : Span) (t : State) :
      Builds ts loops (fun e : Expr => ValueWellFormed prompt → e.WellFormed) (do
        let stop ← expectSymbol .closeParen
        return .input prompt (start.through stop)) t := by
    refine (reads_expectSymbol rfl).andBuilds fun _ _ => builds_pure fun hp => ?_
    cases prompt with
    | none => trivial
    | some e => exact hp e rfl
  refine .next fun _ => (reads_expectSymbol rfl).andBuilds fun _ t => ?_
  simp only [builds_currentKind_bind]
  split
  next => exact (builds_pure valueWellFormed_none).bind fun prompt => rest prompt _
  next => exact ((hexpr .lowest t).map valueWellFormed_some).bind fun prompt => rest prompt _

theorem builds_listExpr {close : Symbol} :
    Builds ts loops (fun x => ExprsWellFormed x.1) (listTo close (expr .lowest)) s :=
  (builds_listTo (hexpr .lowest)).mono fun _ h => exprsWellFormed_iff.2 h

theorem builds_array : Builds ts loops Expr.WellFormed (array expr) s :=
  .next fun _ => (builds_listExpr hexpr).result fun _ hes => hes

theorem builds_grouping : Builds ts loops Expr.WellFormed (grouping expr) s :=
  .next fun t => (hexpr .lowest t).bind fun _ _ =>
    (reads_expectSymbol rfl).andBuilds fun _ _ => builds_pure id

theorem builds_args : Builds ts loops (fun x => ExprsWellFormed x.1) (args expr) s :=
  (reads_expectSymbol rfl).andBuilds fun _ _ => builds_listExpr hexpr

theorem builds_index : Builds ts loops (fun x => x.1.WellFormed) (index expr) s :=
  .next fun t => (hexpr .lowest t).bind fun _ _ =>
    (reads_expectSymbol rfl).andBuilds fun _ _ => builds_pure id

theorem builds_link : Builds ts loops Link.WellFormed (link expr) s := by
  refine reads_expectName.andBuilds fun name t => ?_
  rw [builds_currentKind_bind]
  split
  next => exact (builds_args hexpr).result fun _ hes => hes
  next hk =>
    have hindices : Builds ts loops (fun xs => xs ≠ [] ∧ ∀ x ∈ xs, x.1.WellFormed)
        (many (· == .symbol .openBracket) (index expr)) t :=
      builds_many_ne_nil (by rw [hk]; rfl) fun _ _ => builds_index hexpr
    refine hindices.result fun indices ⟨hne, hi⟩ => ⟨by simpa using hne, ?_⟩
    exact exprsWellFormed_iff.2 (List.forall_mem_map.2 hi)
  next => exact builds_pure trivial

theorem builds_construction : Builds ts loops Place.WellFormed (construction expr) s := by
  refine .next fun _ => ?_
  rw [builds_currentKind_bind]
  split
  next => exact (builds_args hexpr).result fun _ hes => hes
  next => exact builds_failExpected _

theorem builds_member : Builds ts loops Link.WellFormed (member expr) s :=
  .next fun _ => builds_link hexpr

theorem builds_place : Builds ts loops Place.WellFormed (place expr) s := by
  have members (first : Place) (t : State) :
      Builds ts loops (fun p => first.WellFormed → p.WellFormed) (do
        let members ← many (· == .symbol .dot) (member expr)
        return members.foldl addMember first) t :=
    (builds_many fun _ _ => builds_member hexpr).result fun _ hl hf =>
      wellFormed_foldl_addMember hf hl
  simp only [place, builds_currentKind_bind]
  split
  next => exact (builds_construction hexpr).bind members
  next =>
    have hlink : Builds ts loops Place.WellFormed (Place.link <$> link expr) s :=
      (builds_link hexpr).map fun _ hl => hl
    exact hlink.bind members

theorem builds_prefixed (op : PrefixOp) : Builds ts loops Expr.WellFormed (prefixed expr op) s :=
  .next fun t => (hexpr .prefixed t).result fun _ he => he

theorem builds_operand? {k : Kind} {p : Parse Expr} (h : operand? expr k = some p) :
    Builds ts loops Expr.WellFormed p s := by
  simp only [operand?] at h
  split at h
  all_goals try cases Option.some.inj h
  case h_7 => exact builds_input hexpr
  case h_8 => exact builds_format hexpr
  case h_9 => exact builds_array hexpr
  case h_10 => exact builds_grouping hexpr
  case h_11 | h_12 => exact (builds_place hexpr).map fun _ hp => hp
  case h_13 =>
    obtain ⟨op, -, rfl⟩ := Option.map_eq_some_iff.mp h
    exact builds_prefixed hexpr op
  all_goals exact builds_literal

theorem builds_operand : Builds ts loops Expr.WellFormed (operand expr) s := by
  rw [operand, builds_currentKind_bind]
  split
  next p h => exact builds_operand? hexpr h
  next => exact builds_failUnexpected _

theorem builds_operators (power : Power) (n : Nat) (left : Expr) :
    Builds ts loops (fun e => left.WellFormed → e.WellFormed) (operators expr power n left) s := by
  induction n generalizing s left with
  | zero => exact builds_pure id
  | succ n ih =>
    simp only [operators, builds_current_bind]
    split
    next => exact builds_pure id
    next =>
      split
      next =>
        refine .next fun t => (hexpr _ t).bind fun right _ => (ih _).mono fun e he hr hl => ?_
        exact he ⟨hl, hr⟩
      next =>
        refine .next fun t => ?_
        split
        next => exact ih _
        next => exact builds_throw _
      next => exact builds_failHere _

end Expressions

theorem builds_exprWithin (n : Nat) (power : Power) :
    Builds ts loops Expr.WellFormed (exprWithin n power) s := by
  induction n generalizing s power with
  | zero => exact builds_failUnexpected _
  | succ n ih =>
    have hexpr (power : Power) (t : State) :
        Builds ts loops Expr.WellFormed (exprWithin n power) t := ih power
    refine (builds_operand hexpr).bind fun left t => ?_
    rw [builds_bound_bind]
    exact builds_operators hexpr power _ left

theorem builds_expression (power : Power) (t : State) :
    Builds ts loops Expr.WellFormed (expression power) t :=
  builds_bound_bind.2 (builds_exprWithin _ power)

/-! ### Types -/

section Types

variable {names : Names}

theorem typeOf?_classId {t : Token} {id : Nat} (hk : t.kind = .classId id)
    (ht : t.kind.Fits names t.lexeme) : typeOf? names t = some ⟨.cls id t.lexeme, 0⟩ := by
  rw [hk] at ht
  have hname : names.classes.name? id = some t.lexeme := NameTable.name?_of_id? ht.1
  simp [typeOf?, hk, hname]

/-- A class is known by the number and the name of its token. -/
theorem eq_of_typeOf? {t : Token} {type : DataType} (h : typeOf? names t = some type)
    (ht : t.kind.Fits names t.lexeme) {id : Nat} {name : String}
    (hbase : type.base = .cls id name) : t.kind = .classId id ∧ t.lexeme = name := by
  cases hk : t.kind with
  | classId n =>
    rw [typeOf?_classId hk ht] at h
    cases h
    cases hbase
    exact ⟨rfl, rfl⟩
  | keyword k =>
    rw [typeOf?, hk] at h
    cases k <;> first | (cases h; cases hbase) | cases h
  | _ => rw [typeOf?, hk] at h; cases h

theorem kind_ne_endOfFile_of_typeOf? {t : Token} {type : DataType}
    (h : typeOf? names t = some type) : t.kind ≠ .endOfFile := by
  have ht : t.kind.isType := by rw [← isSome_typeOf? names, h]; rfl
  rintro he
  rw [he] at ht
  cases ht

theorem builds_unitType :
    Builds ts loops (fun type => typeOf? names s.stream.current = some type) (unitType names) s := by
  rw [unitType, builds_current_bind]
  split
  next type h => exact .next fun _ => builds_pure h
  next => exact builds_failExpected _

theorem builds_dimension : Builds ts loops (fun _ => True) dimension s :=
  .next fun _ => (builds_expectSymbol _).result fun _ _ => trivial

theorem builds_dataType :
    Builds ts loops (fun type => ∃ unit, typeOf? names s.stream.current = some unit ∧
      type.base = unit.base) (dataType names) s := by
  refine builds_unitType.bind fun unit _ => ?_
  exact (builds_many fun _ _ => builds_dimension).result fun _ _ hunit => ⟨unit, hunit, rfl⟩

/-- A parser of a name takes the token of the name. -/
def TakesName (p : Parse Name) : Prop :=
  ∀ s, Outcome p s (fun name t => s.kind ≠ .endOfFile ∧ name.span = s.stream.current.span ∧
    t = s.next) fun t => t = s

theorem takesName_expectName : TakesName expectName := by
  intro s
  rw [expectName, outcome_bind, outcome_currentKind]
  split
  next hk =>
    refine ⟨fun he => ?_, rfl, rfl⟩
    rw [he] at hk
    cases hk
  next => rfl

theorem takesName_functionName : TakesName functionName := by
  intro s
  rw [functionName, outcome_bind, outcome_currentKind]
  split
  next hk => exact ⟨by simp [hk], rfl, rfl⟩
  next => exact takesName_expectName s

variable (hfits : ∀ t ∈ ts, t.kind.Fits names t.lexeme)
include hfits

/-- A type stands behind a name and a dash. -/
theorem TakesName.builds {α : Type} {Q : α → Prop} {p : Parse Name}
    {f : Name → DataType → Parse α} (hp : TakesName p)
    (hf : ∀ name type t, Builds ts loops (fun b => type.WrittenAt ts name.span → Q b)
      (f name type) t) :
    Builds ts loops Q (p >>= fun name => expectSymbol .dash >>= fun _ =>
      dataType names >>= f name) s := by
  intro hs
  rw [outcome_bind]
  refine (hp s).mono ?_ fun t ht => ht ▸ hs
  rintro name _ ⟨hend, hname, rfl⟩
  rw [outcome_bind, outcome_expectSymbol]
  split
  next hdash =>
    have hsite : Builds ts loops (fun type => type.WrittenAt ts name.span) (dataType names)
        s.next.next := by
      intro hu
      refine (builds_dataType hu).mono (fun type v hv => ⟨hv.1, fun hc => ?_⟩) fun _ hv => hv
      obtain ⟨hc, unit, hunit, hbase⟩ := hv.2 hc
      have hthree : s.stream.tokens =
          [s.stream.current, s.next.stream.current, s.next.next.stream.current] ++
            s.next.next.next.stream.tokens := by
        rw [State.tokens_eq_cons hend, State.tokens_eq_cons (s := s.next) (by simp [hdash]),
          State.tokens_eq_cons (kind_ne_endOfFile_of_typeOf? hunit)]
        rfl
      have hplace : [s.stream.current, s.next.stream.current, s.next.next.stream.current] <:+:
          ts := List.IsInfix.trans ⟨[], _, hthree.symm⟩ hs.tokens
      have hfit := hfits s.next.next.stream.current (hplace.subset (by simp))
      refine ⟨hc, fun id n htype => ?_⟩
      obtain ⟨hkind, hlexeme⟩ := eq_of_typeOf? hunit hfit (hbase ▸ htype)
      exact ⟨_, _, _, hplace, hname.symm, hdash, hkind, hlexeme⟩
    exact hsite.bind (fun type t => hf name type t) hs.next.next
  next => exact hs.next

end Types

/-! ### Statements -/

theorem builds_assignmentTo (target : Place) (op : AssignOp) :
    Builds ts loops (fun a => target.WellFormed → a.WellFormed) (assignmentTo target op) s := by
  unfold assignmentTo
  split
  next ha =>
    refine .next fun t => (builds_expression _ t).result fun value hv ht => ?_
    exact ⟨ha, ht, hv⟩
  next => exact builds_current_bind.2 (builds_throw _)

theorem builds_placeStmt : Builds ts loops (Stmt.WellFormed ts loops) placeStmt s := by
  refine (builds_place builds_expression).bind fun target t => ?_
  simp only [builds_currentKind_bind]
  split
  next =>
    refine (builds_assignmentTo _ _).bind fun a _ => (reads_expectSymbol rfl).andBuilds
      fun _ _ => builds_pure fun ha ht => ?_
    exact ⟨(ha ht).assignable, (ha ht).target, (ha ht).value⟩
  next => exact .next fun _ => (reads_expectSymbol rfl).andBuilds fun _ _ => builds_pure id
  next =>
    split
    next => exact builds_failUnexpected _
    next => exact (reads_expectSymbol rfl).andBuilds fun _ _ => builds_pure id

theorem builds_printStmt : Builds ts loops (Stmt.WellFormed ts loops) printStmt s := by
  refine .next fun _ => (builds_args builds_expression).bind fun _ _ => ?_
  exact (reads_expectSymbol rfl).andBuilds fun _ _ => builds_pure id

theorem builds_leaveStmt : Builds ts loops (Stmt.WellFormed ts loops) leaveStmt s := by
  have rest (value : Option Expr) (start : Span) (t : State) :
      Builds ts loops (fun st : Stmt => ValueWellFormed value → st.WellFormed ts loops) (do
        let stop ← expectSymbol .terminator
        return .leave value (start.through stop)) t :=
    (reads_expectSymbol rfl).andBuilds fun _ _ => builds_pure id
  refine .next fun t => ?_
  simp only [builds_currentKind_bind]
  split
  next => exact (builds_pure valueWellFormed_none).bind fun value => rest value _
  next => exact ((builds_expression _ t).map valueWellFormed_some).bind fun value => rest value _

/-- Outside of loops a mistake is recorded. -/
theorem builds_stopStmt : Builds ts loops (Stmt.WellFormed ts loops) stopStmt s := by
  refine .next fun _ => (reads_expectSymbol rfl).andBuilds fun _ _ => .looping ?_
  split
  next => exact .record fun _ => builds_pure trivial
  next h =>
    have hloops : 0 < loops := by simpa [Nat.pos_iff_ne_zero] using h
    exact builds_pure hloops

theorem builds_failNoStmt : Builds ts loops (Stmt.WellFormed ts loops) failNoStmt s :=
  builds_current_bind.2 (builds_failHere _)

theorem builds_condition : Builds ts loops Expr.WellFormed condition s :=
  (reads_expectSymbol rfl).andBuilds fun _ t => (builds_expression _ t).bind fun _ _ =>
    (reads_expectSymbol rfl).andBuilds fun _ _ => builds_pure id

theorem builds_loopUpdate : Builds ts loops LoopUpdate.WellFormed loopUpdate s := by
  refine (builds_place builds_expression).bind fun target t => ?_
  simp only [builds_currentKind_bind]
  split
  next => exact (builds_assignmentTo _ _).result fun _ ha ht => ha ht
  next => exact .next fun _ => builds_pure id
  next => exact builds_failExpected _

/-! ### Statements with blocks -/

section Blocks

variable {names : Names} (hfits : ∀ t ∈ ts, t.kind.Fits names t.lexeme)
include hfits

/-- A constant without a value is a mistake that is recorded. -/
theorem builds_declaration :
    Builds ts loops (Declaration.WellFormed ts) (declaration names) s := by
  refine takesName_expectName.builds hfits fun name type _ => ?_
  refine reads_constMark.andBuilds fun isConst t => ?_
  have rest (value : Option Expr) (t : State) :
      Builds ts loops (fun d : Declaration => ValueWellFormed value →
        type.WrittenAt ts name.span → d.WellFormed ts) (do
        let stop ← expectSymbol .terminator
        if isConst && value.isNone then record ⟨.constantWithoutValue name.value, name.span⟩
        return (⟨name, type, isConst, value, name.span.through stop⟩ : Declaration)) t := by
    refine (reads_expectSymbol rfl).andBuilds fun _ _ => ?_
    split
    next => exact .record fun _ => builds_pure trivial
    next hconst =>
      refine builds_pure fun hvalue htype => ⟨htype, fun hc => ?_, hvalue⟩
      cases (hc : isConst = true)
      simpa [Option.isSome_iff_ne_none] using hconst
  simp only [builds_currentKind_bind]
  split
  next =>
    refine .next fun t => ?_
    exact ((builds_expression _ t).map valueWellFormed_some).bind rest
  next => exact (builds_pure valueWellFormed_none).bind rest

theorem builds_loopStart : Builds ts loops (LoopStart.WellFormed ts) (loopStart names) s := by
  simp only [loopStart, builds_declarationAhead_bind]
  split
  next => exact (builds_declaration hfits).result fun _ hd => hd
  next =>
    refine (builds_place builds_expression).bind fun target t => ?_
    rw [builds_currentKind_bind]
    split
    next =>
      exact (builds_assignmentTo _ _).bind fun _ _ => (reads_expectSymbol rfl).andBuilds
        fun _ _ => builds_pure id
    next => exact builds_failExpected _

variable {block : Parse Block}

section

omit hfits
variable (hblock : ∀ t, Builds ts loops (Block.WellFormed ts loops) block t)
include hblock

theorem builds_elseIf : Builds ts loops
    (fun e : ElseIf => e.condition.WellFormed ∧ e.body.WellFormed ts loops) (elseIf block) s :=
  .next fun _ => builds_condition.bind fun _ t => (hblock t).result fun _ hb he => ⟨he, hb⟩

theorem builds_elseBlock :
    Builds ts loops (fun b => ∀ x ∈ b, Block.WellFormed ts loops x) (elseBlock block) s := by
  rw [elseBlock, builds_currentKind_bind]
  split
  next =>
    refine .next fun t => (hblock t).map fun b hb => ?_
    rintro x ⟨⟩
    exact hb
  next =>
    refine builds_pure ?_
    rintro x ⟨⟩

theorem builds_branchStmt : Builds ts loops (Stmt.WellFormed ts loops) (branchStmt block) s := by
  refine .next fun _ => builds_condition.bind fun e t => (hblock t).bind fun body _ => ?_
  refine (builds_many fun _ _ => builds_elseIf hblock).bind fun elseIfs _ => ?_
  refine (builds_elseBlock hblock).result fun elseBody hl hes hb he => ?_
  have hes := elseIfsWellFormed_iff.2 hes
  cases elseBody with
  | none => exact ⟨he, hb, hes⟩
  | some b => exact ⟨he, hb, hes, hl b rfl⟩

end

variable (hblock : ∀ t, Builds ts (loops + 1) (Block.WellFormed ts (loops + 1)) block t)
include hblock

omit hfits in
theorem builds_repeatStmt : Builds ts loops (Stmt.WellFormed ts loops) (repeatStmt block) s :=
  .next fun _ => builds_condition.bind fun _ _ => (Builds.insideLoop hblock).result
    fun _ hb he => ⟨he, hb⟩

theorem builds_countStmt : Builds ts loops (Stmt.WellFormed ts loops) (countStmt names block) s := by
  refine .next fun _ => (reads_expectSymbol rfl).andBuilds fun _ _ => ?_
  refine (builds_loopStart hfits).bind fun start t => ?_
  refine (builds_expression _ t).bind fun e _ => (reads_expectSymbol rfl).andBuilds fun _ _ => ?_
  refine builds_loopUpdate.bind fun update _ => (reads_expectSymbol rfl).andBuilds fun _ _ => ?_
  exact (Builds.insideLoop hblock).result fun _ hb hu he hs => ⟨hs, he, hu, hb⟩

end Blocks

section Statements

variable {names : Names} (hfits : ∀ t ∈ ts, t.kind.Fits names t.lexeme) {block : Parse Block}
  (hblock : ∀ loops t, Builds ts loops (Block.WellFormed ts loops) block t)
include hfits hblock

theorem builds_keywordStmt (k : Keyword) :
    Builds ts loops (Stmt.WellFormed ts loops) ((keywordStmt? names block k).getD failNoStmt) s := by
  unfold keywordStmt?
  split
  next => exact builds_branchStmt (hblock loops)
  next => exact builds_repeatStmt (hblock (loops + 1))
  next => exact builds_repeatStmt (hblock (loops + 1))
  next => exact builds_countStmt hfits (hblock (loops + 1))
  next => exact builds_leaveStmt
  next => exact builds_stopStmt
  next => exact builds_printStmt
  next => exact builds_failNoStmt

theorem builds_stmt : Builds ts loops (Stmt.WellFormed ts loops) (stmt names block) s := by
  simp only [stmt, builds_currentKind_bind]
  split
  next k hk => exact builds_keywordStmt hfits hblock k
  next =>
    rw [builds_declarationAhead_bind]
    split
    next => exact (builds_declaration hfits).result fun _ hd => hd
    next => exact builds_placeStmt
  next => exact builds_placeStmt
  next => exact builds_failNoStmt

end Statements

/-- What is broken in a block is recorded, and is no part of it. -/
theorem builds_rounds {α : Type} {P : α → Prop} {p : Parse α} (h : ∀ t, Builds ts loops P p t) :
    Builds ts loops (fun as => ∀ a ∈ as.filterMap id, P a)
      (many insideBlock (recovering p skipStatement)) s := by
  refine (builds_many fun t _ => builds_recovering skipStatement_suffix (fun _ _ => rfl)
    (fun _ _ => rfl) (h t)).mono fun as has a ha => ?_
  obtain ⟨x, hx, hid⟩ := List.mem_filterMap.1 ha
  exact has x hx a hid

theorem builds_blockOf {stmt : Parse Stmt}
    (h : ∀ t, Builds ts loops (Stmt.WellFormed ts loops) stmt t) :
    Builds ts loops (Block.WellFormed ts loops) (blockOf stmt) s := by
  refine (builds_expectSymbol _).bind fun _ _ => (builds_rounds h).bind fun body _ => ?_
  exact (builds_expectSymbol _).result fun _ _ hbody _ => stmtsWellFormed_iff.2 hbody

section Items

variable {names : Names} (hfits : ∀ t ∈ ts, t.kind.Fits names t.lexeme)
include hfits

theorem builds_stmtWithin (n : Nat) :
    Builds ts loops (Stmt.WellFormed ts loops) (stmtWithin names n) s := by
  induction n generalizing loops s with
  | zero => exact builds_failNoStmt
  | succ n ih => exact builds_stmt hfits fun _ _ => builds_blockOf fun _ => ih

theorem builds_codeBlock :
    Builds ts loops (Block.WellFormed ts loops) (codeBlock names) s :=
  builds_blockOf fun _ => builds_bound_bind.2 (builds_stmtWithin hfits _)

/-! ### Functions and classes -/

theorem builds_param : Builds ts loops (Param.WellFormed ts) (param names) s :=
  takesName_expectName.builds hfits fun _ _ _ => builds_spanBefore_bind.2 (builds_pure id)

theorem builds_params :
    Builds ts loops (fun ps => ∀ p ∈ ps, p.WellFormed ts) (params names) s :=
  (reads_expectSymbol rfl).andBuilds fun _ _ =>
    (builds_listTo fun _ => builds_param hfits).result fun _ hps => hps

theorem builds_function : Builds ts 0 (Function.WellFormed ts) (function names) s := by
  refine ((reads_expect rfl).result _).andBuilds fun _ _ => ?_
  refine takesName_functionName.builds hfits fun name type _ => ?_
  refine (builds_params hfits).bind fun ps _ => (builds_codeBlock hfits).result ?_
  exact fun body hbody hps htype => ⟨htype, hps, hbody⟩

def Member.WellFormed (ts : List Token) : Member → Prop
  | property d => d.WellFormed ts
  | method f => f.WellFormed ts

theorem builds_classMember : Builds ts 0 (Member.WellFormed ts) (classMember names) s := by
  rw [classMember, builds_currentKind_bind]
  split
  next => exact (builds_function hfits).result fun _ hf => hf
  next =>
    rw [builds_declarationAhead_bind]
    split
    next => exact (builds_declaration hfits).result fun _ hd => hd
    next => exact builds_failUnexpected _

/-- A class is named by the token of its type. -/
theorem builds_className : Builds ts loops (fun x => ∃ t ∈ ts, ∃ id, t.kind = .classId id ∧
    x.1 = ⟨t.lexeme, t.span⟩ ∧ x.2 = ⟨.cls id t.lexeme, 0⟩) (className names) s := by
  rw [className, builds_current_bind]
  split
  next id hk =>
    intro hs
    have hmem := hs.current (by simp [hk])
    refine (builds_unitType.result fun type htype => ⟨_, hmem, id, hk, rfl, ?_⟩) hs
    rw [typeOf?_classId hk (hfits _ hmem)] at htype
    exact (Option.some.inj htype).symm
  next => exact builds_failExpected _

theorem builds_classItem : Builds ts 0 (Class.WellFormed ts) (classItem names) s := by
  refine ((reads_expect rfl).result _).andBuilds fun _ _ => ?_
  refine (builds_className hfits).bind fun ⟨name, type⟩ _ => ?_
  refine (builds_params hfits).bind fun ps _ => (builds_expectSymbol _).bind fun _ _ => ?_
  refine (builds_rounds fun _ => builds_classMember hfits).bind fun members _ => ?_
  refine (builds_expectSymbol _).result fun _ _ hmembers _ hps hname =>
    ⟨hname, hps, fun d hd => ?_, fun f hf => ?_⟩
  · obtain ⟨m, hm, hd⟩ := List.mem_filterMap.1 hd
    cases m with
    | property d' =>
      cases hd
      exact hmembers _ hm
    | method f => cases hd
  · obtain ⟨m, hm, hf⟩ := List.mem_filterMap.1 hf
    cases m with
    | property d => cases hf
    | method f' =>
      cases hf
      exact hmembers _ hm

/-! ### Programs -/

def Item.WellFormed (ts : List Token) : Item → Prop
  | global d => d.WellFormed ts
  | function f | entry f => f.WellFormed ts
  | cls c => c.WellFormed ts

theorem builds_item : Builds ts 0 (Item.WellFormed ts) (item names) s := by
  rw [item, builds_currentKind_bind]
  split
  next =>
    have hglobal : Builds ts 0 (Declaration.WellFormed ts) (global names) s :=
      ((reads_expect rfl).result _).andBuilds fun _ _ =>
        (builds_declaration hfits).result fun _ hd => ⟨hd.type, hd.const, hd.value⟩
    exact hglobal.result fun _ hd => hd
  next => exact (builds_classItem hfits).result fun _ hc => hc
  next =>
    rw [builds_nextKind_bind]
    refine (builds_function hfits).result fun f hf => ?_
    split <;> exact hf
  next => exact builds_current_bind.2 (builds_failHere _)

/-- Every item that is kept is read with no mistake recorded. -/
theorem Rounds.wellFormed {b : Bool} {is : List Item} {u : State} (h : Rounds names b s is u)
    (hs : s.Within ts 0) : ∀ i ∈ is, i.WellFormed ts := by
  have round {s t : State} {i : Item} (hi : item names s = .ok i t) (hclean : t.recorded = [])
      (hs : s.Within ts 0) : i.WellFormed ts ∧ t.Within ts 0 := by
    obtain ⟨ht, hgood⟩ := (builds_item hfits hs).of_ok hi
    exact ⟨(hgood hclean).2, ht⟩
  induction h with
  | stop => exact List.forall_mem_nil _
  | entry hi hclean _ ih | other hi _ hclean _ ih =>
    obtain ⟨hgood, ht⟩ := round hi hclean hs
    exact List.forall_mem_cons.2 ⟨hgood, ih ht⟩

end Items

end

end Grammar

open Grammar

/-- An accepted program is well-formed. -/
theorem Program.wellFormed_ofTokens (lines : List String) (names : Names) {p : Program}
    (h : Program.ofTokens (Lexed.ofLines lines names).tokens (Lexed.ofLines lines names).names =
      .ok p) :
    p.WellFormed ((Lexed.ofLines lines names).tokens.filter fun t => !t.kind.isTrivia) := by
  obtain ⟨-, ts, hts, htokens⟩ := Lexed.sound_ofLines lines names
  have hwithin : (State.ofTokens (Lexed.ofLines lines names).tokens).Within
      ((Lexed.ofLines lines names).tokens.filter fun t => !t.kind.isTrivia) 0 := by
    refine ⟨?_, rfl⟩
    rw [htokens, hts, List.filter_append]
    exact (List.prefix_append _ _).isInfix
  have hfits : ∀ t ∈ (Lexed.ofLines lines names).tokens.filter fun t => !t.kind.isTrivia,
      t.kind.Fits (Lexed.ofLines lines names).names t.lexeme :=
    fun t ht => Lexed.fits_ofLines lines names (List.mem_of_mem_filter ht)
  obtain ⟨is, u, hrounds, hperm⟩ := Program.items_ofTokens h
  have hitems := fun i hi => hrounds.wellFormed hfits hwithin i (hperm.subset hi)
  simp only [List.forall_mem_append, List.forall_mem_map, List.forall_mem_singleton] at hitems
  obtain ⟨hglobals, hfunctions, hclasses, hentry⟩ := hitems
  exact ⟨hglobals, List.forall_mem_append.2 ⟨hfunctions, List.forall_mem_singleton.2 hentry⟩,
    hclasses⟩

/-- A class whose method makes another object of it, the largest number, a loop in a loop that is
left in a branch, and a string with two expressions between its texts. -/
def nineLives : String :=
  "cwass Cat(age-chan) [[\nlives-chan-dono = 9~\nfwunc older-Cat(by-chan) [[\n" ++
    "wetuwn Cat(age + by)~\n]]\n]]\ngwobaw most-chan-dono = 9223372036854775807~\n" ++
    "fwunc mainuwu-san() [[\ntom-Cat = Cat(1)~\nxs-chan[] = \x7b1, 2\x7d~\n" ++
    "fow (i-chan = 0~ i < 2~ i++) [[\nwhiwe (fax) [[\niwf (i == 1) [[\nbweak~\n]]\n]]\n" ++
    "xs[i] += tom.older(i).lives~\npwint(\"a |xs[i]||i| b\")~\n]]\n]]\n"

theorem nineLives_wellFormed : ∃ p, (compile nineLives .empty).outcome = .ok p ∧
    (p.globals.length = 1 ∧ p.classes.length = 1) ∧
    p.WellFormed ((Lexed.ofLines (splitLines nineLives) .empty).tokens.filter
      fun t => !t.kind.isTrivia) := by
  have hs : nineLives.toList = _ := toList_append_of_eq (toList_append_of_eq (toList_append_of_eq
    (toList_append_of_eq (toList_of_eq rfl) (toList_of_eq rfl)) (toList_of_eq rfl))
    (toList_of_eq rfl)) (toList_of_eq rfl)
  obtain ⟨p, hp, ht⟩ := exists_compiled nineLives .empty
    (fun p => p.globals.length == 1 && p.classes.length == 1) hs (by decide +kernel)
  rw [Bool.and_eq_true, beq_iff_eq, beq_iff_eq] at ht
  exact ⟨p, hp, ht, Program.wellFormed_ofTokens _ _ (compile_eq_ok.1 hp).2.1⟩

end Uwu
