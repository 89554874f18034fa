import Uwu.Proofs.Grammar.Recovery
import Uwu.Proofs.Grammar.Yields
import Uwu.Proofs.Lexeme.Numbering
import Uwu.Proofs.Scope.Roots

/-! The first name of an access path is an identifier, and so it is not the name of a class, while
every declared class, and every class of which an object is made, has a name that is known as one. -/

namespace Uwu

/-- A path that begins with a name does not begin with the name of a class, unless it makes an object
of that class. -/
def Root.Plain (names : Names) : Root → Prop
  | link l => names.isClass l.head.value = false
  | construct cls _ => names.isClass cls.value ∧ Keyword.ofWord? cls.value = none

def PlainRoots (names : Names) (rs : List Root) : Prop :=
  ∀ r ∈ rs, r.Plain names

def PlainExpr (names : Names) (e : Expr) : Prop :=
  PlainRoots names e.roots

def PlainPlace (names : Names) (p : Place) : Prop :=
  PlainRoots names p.roots

/-- A value, if there is one. -/
def PlainValue (names : Names) (value : Option Expr) : Prop :=
  ∀ e ∈ value, PlainExpr names e

section Roots

variable {names : Names} {rs qs : List Root}

theorem plainRoots_nil : PlainRoots names [] :=
  List.forall_mem_nil _

theorem plainRoots_cons {r : Root} :
    PlainRoots names (r :: rs) ↔ r.Plain names ∧ PlainRoots names rs :=
  List.forall_mem_cons

theorem plainRoots_append :
    PlainRoots names (rs ++ qs) ↔ PlainRoots names rs ∧ PlainRoots names qs :=
  List.forall_mem_append

theorem plainValue_none : PlainValue names none := by
  rintro e ⟨⟩

theorem plainValue_some (e : Expr) (h : PlainExpr names e) : PlainValue names (some e) := by
  rintro x ⟨⟩
  exact h

end Roots

namespace Grammar

/-! ### Expressions -/

section Expressions

variable {names : Names} {s : State}

theorem yields_literal : Yields names (PlainExpr names) literal s := by
  refine .next fun _ _ => ?_
  split
  next => exact yields_pure plainRoots_nil
  next => exact yields_throw _

theorem plainRoots_exprRoots {es : List Expr} :
    PlainRoots names (exprRoots es) ↔ ∀ e ∈ es, PlainExpr names e := by
  induction es with
  | nil => exact iff_of_true plainRoots_nil (List.forall_mem_nil _)
  | cons e es ih => rw [exprRoots, plainRoots_append, ih, List.forall_mem_cons, PlainExpr]

theorem plainRoots_segmentRoots_append {ss rest : List Segment} :
    PlainRoots names (segmentRoots (ss ++ rest)) ↔
      PlainRoots names (segmentRoots ss) ∧ PlainRoots names (segmentRoots rest) := by
  induction ss with
  | nil => exact (and_iff_right plainRoots_nil).symm
  | cons segment ss ih =>
    cases segment with
    | text t => exact ih
    | expr e =>
      rw [List.cons_append, segmentRoots, segmentRoots, plainRoots_append, plainRoots_append, ih,
        and_assoc]

/-- Texts have no roots. -/
theorem plainRoots_textSegment (first last : Char) (t : Token) :
    PlainRoots names (segmentRoots (textSegment first last t)) := by
  rw [textSegment]
  split <;> exact plainRoots_nil

theorem plainPlace_foldl_addMember {links : List Link} {first : Place}
    (hf : PlainPlace names first) (hl : ∀ l ∈ links, PlainRoots names l.operandRoots) :
    PlainPlace names (links.foldl addMember first) := by
  induction links generalizing first with
  | nil => exact hf
  | cons l links ih =>
    obtain ⟨hhead, htail⟩ := List.forall_mem_cons.1 hl
    exact ih (plainRoots_append.2 ⟨hf, hhead⟩) htail

variable {expr : Power → Parse Expr}
  (hexpr : ∀ power t, Yields names (PlainExpr names) (expr power) t)
include hexpr

theorem yields_segments (n : Nat) :
    Yields names (fun x => PlainRoots names (segmentRoots x.1)) (segments expr n) s := by
  induction n generalizing s with
  | zero => exact yields_failExpected _
  | succ n ih =>
    refine (hexpr .lowest s).bind fun e t he => ?_
    rw [yields_currentKind_bind]
    split
    next =>
      refine .next fun _ _ => ih.bind fun ⟨rest, stop⟩ _ hrest => yields_pure ?_
      rw [segmentRoots, plainRoots_append, plainRoots_segmentRoots_append]
      exact ⟨he, plainRoots_textSegment _ _ _, hrest⟩
    next =>
      refine .next fun _ _ => yields_pure ?_
      rw [segmentRoots, plainRoots_append]
      exact ⟨he, plainRoots_textSegment _ _ _⟩
    next => exact yields_failExpected _

theorem yields_format : Yields names (PlainExpr names) (format expr) s := by
  refine .next fun _ _ => yields_bound_bind.2 ?_
  refine (yields_segments hexpr _).bind fun ⟨rest, stop⟩ _ hrest => yields_pure ?_
  exact plainRoots_segmentRoots_append.2 ⟨plainRoots_textSegment _ _ _, hrest⟩

theorem yields_input : Yields names (PlainExpr names) (input expr) s := by
  have rest (prompt : Option Expr) (start : Span) (t : State)
      (hp : PlainValue names prompt) :
      Yields names (PlainExpr names) (do
        let stop ← expectSymbol .closeParen
        return .input prompt (start.through stop)) t := by
    refine (reads_expectSymbol rfl).andYields fun _ _ => yields_pure ?_
    cases prompt with
    | none => exact plainRoots_nil
    | some e => exact hp e rfl
  refine .next fun _ _ => (reads_expectSymbol rfl).andYields fun _ t => ?_
  simp only [yields_currentKind_bind]
  split
  next => exact (yields_pure plainValue_none).bind fun prompt => rest prompt _
  next => exact ((hexpr .lowest t).map plainValue_some).bind fun prompt => rest prompt _

theorem yields_listExpr {close : Symbol} (hc : isPlain (.symbol close)) :
    Yields names (fun x => PlainRoots names (exprRoots x.1)) (listTo close (expr .lowest)) s :=
  (yields_listTo (hexpr .lowest) hc).mono fun _ h => plainRoots_exprRoots.2 h

theorem yields_array : Yields names (PlainExpr names) (array expr) s :=
  .next fun _ _ => (yields_listExpr hexpr rfl).bind fun _ _ hes => yields_pure hes

theorem yields_grouping : Yields names (PlainExpr names) (grouping expr) s :=
  .next fun _ t => (hexpr .lowest t).bind fun _ _ he =>
    (reads_expectSymbol rfl).andYields fun _ _ => yields_pure he

theorem yields_args : Yields names (fun x => PlainRoots names (exprRoots x.1)) (args expr) s :=
  (reads_expectSymbol rfl).andYields fun _ _ => yields_listExpr hexpr rfl

theorem yields_index : Yields names (fun x => PlainRoots names x.1.roots) (index expr) s :=
  .next fun _ t => (hexpr .lowest t).bind fun _ _ he =>
    (reads_expectSymbol rfl).andYields fun _ _ => yields_pure he

/-- A link as the first of a path. -/
theorem yields_link : Yields names (fun l => PlainPlace names (.link l)) (link expr) s := by
  refine yields_expectName.bind fun name t hname => ?_
  rw [yields_currentKind_bind]
  split
  next => exact (yields_args hexpr).bind fun _ _ hes => yields_pure (plainRoots_cons.2 ⟨hname, hes⟩)
  next =>
    refine (yields_many fun t _ => yields_index hexpr).bind fun indices _ hi => yields_pure ?_
    refine plainRoots_cons.2 ⟨hname, plainRoots_exprRoots.2 (List.forall_mem_map.2 hi)⟩
  next => exact yields_pure (plainRoots_cons.2 ⟨hname, plainRoots_nil⟩)

theorem yields_construction {id : Nat} (hk : s.kind = .classId id) :
    Yields names (PlainPlace names) (construction expr) s := by
  refine .next fun ht _ => ?_
  have hname : s.stream.current.kind.isName := by
    rw [show s.stream.current.kind = .classId id from hk]
    rfl
  obtain ⟨hword, hclass⟩ := ht hname
  have hroot := And.intro (hclass.2 ⟨id, hk⟩) hword
  rw [yields_currentKind_bind]
  split
  next => exact (yields_args hexpr).bind fun _ _ hes => yields_pure (plainRoots_cons.2 ⟨hroot, hes⟩)
  next => exact yields_failExpected _

/-- The name of a member is no root. -/
theorem yields_member : Yields names (fun l => PlainRoots names l.operandRoots) (member expr) s :=
  .next fun _ _ => (yields_link hexpr).mono fun _ h => (plainRoots_cons.1 h).2

theorem yields_place : Yields names (PlainPlace names) (place expr) s := by
  have members (first : Place) (t : State) (hf : PlainPlace names first) :
      Yields names (PlainPlace names) (do
        let members ← many (· == .symbol .dot) (member expr)
        return members.foldl addMember first) t :=
    (yields_many fun t _ => yields_member hexpr).result fun _ => plainPlace_foldl_addMember hf
  simp only [place, yields_currentKind_bind]
  split
  next id hk => exact (yields_construction hexpr hk).bind members
  next => exact ((yields_link hexpr).map fun _ hl => hl).bind members

theorem yields_prefixed (op : PrefixOp) :
    Yields names (PlainExpr names) (prefixed expr op) s :=
  .next fun _ t => (hexpr .prefixed t).result fun _ he => he

theorem yields_operand? {k : Kind} {p : Parse Expr} (h : operand? expr k = some p) :
    Yields names (PlainExpr names) p s := by
  simp only [operand?] at h
  split at h
  all_goals try cases Option.some.inj h
  case h_7 => exact yields_input hexpr
  case h_8 => exact yields_format hexpr
  case h_9 => exact yields_array hexpr
  case h_10 => exact yields_grouping hexpr
  case h_11 | h_12 => exact (yields_place hexpr).map fun _ hp => hp
  case h_13 =>
    obtain ⟨op, -, rfl⟩ := Option.map_eq_some_iff.mp h
    exact yields_prefixed hexpr op
  all_goals exact yields_literal

theorem yields_operand : Yields names (PlainExpr names) (operand expr) s := by
  rw [operand, yields_currentKind_bind]
  split
  next p h => exact yields_operand? hexpr h
  next => exact yields_failUnexpected _

theorem yields_operators (power : Power) (n : Nat) {left : Expr}
    (hl : PlainExpr names left) :
    Yields names (PlainExpr names) (operators expr power n left) s := by
  induction n generalizing s left with
  | zero => exact yields_pure hl
  | succ n ih =>
    simp only [operators, yields_current_bind]
    split
    next => exact yields_pure hl
    next =>
      split
      next =>
        refine .next fun _ t => (hexpr _ t).bind fun right _ hr => ih ?_
        exact plainRoots_append.2 ⟨hl, hr⟩
      next =>
        refine .next fun _ t => ?_
        split
        next => exact ih hl
        next => exact yields_throw _
      next => exact yields_failHere _

end Expressions

section

variable {names : Names} {s : State}

theorem yields_exprWithin (n : Nat) (power : Power) :
    Yields names (PlainExpr names) (exprWithin n power) s := by
  induction n generalizing s power with
  | zero => exact yields_failUnexpected _
  | succ n ih =>
    have hexpr (power : Power) (t : State) :
        Yields names (PlainExpr names) (exprWithin n power) t := ih power
    refine (yields_operand hexpr).bind fun left t hl => ?_
    rw [yields_bound_bind]
    exact yields_operators hexpr power _ hl

theorem yields_expression (power : Power) :
    Yields names (PlainExpr names) (expression power) s :=
  yields_bound_bind.2 (yields_exprWithin _ power)

/-! ### Statements -/

theorem plainDeclaration {d : Declaration} (h : PlainValue names d.value) :
    PlainRoots names d.roots := by
  rw [Declaration.roots]
  cases hv : d.value with
  | none => exact plainRoots_nil
  | some e => exact h e hv

theorem yields_declaration (known : Names) :
    Yields names (fun d => PlainRoots names d.roots) (declaration known) s := by
  refine reads_expectName.andYields fun name _ => (reads_expectSymbol rfl).andYields fun _ _ => ?_
  refine (reads_dataType known).andYields fun type _ =>
    reads_constMark.andYields fun isConst t => ?_
  have rest (value : Option Expr) (t : State) (hv : PlainValue names value) :
      Yields names (fun d => PlainRoots names d.roots) (do
        let stop ← expectSymbol .terminator
        if isConst && value.isNone then record ⟨.constantWithoutValue name.value, name.span⟩
        return (⟨name, type, isConst, value, name.span.through stop⟩ : Declaration)) t := by
    refine (reads_expectSymbol rfl).andYields fun _ _ => ?_
    split
    next => exact (reads_record _).andYields fun _ _ => yields_pure (plainDeclaration hv)
    next => exact yields_pure (plainDeclaration hv)
  simp only [yields_currentKind_bind]
  split
  next =>
    refine .next fun _ t => ?_
    exact ((yields_expression .lowest).map plainValue_some).bind rest
  next => exact (yields_pure plainValue_none).bind rest

theorem yields_assignmentTo {target : Place} (op : AssignOp) (ht : PlainPlace names target) :
    Yields names (fun a => PlainRoots names a.roots) (assignmentTo target op) s := by
  rw [assignmentTo]
  split
  next =>
    refine .next fun _ _ => (yields_expression _).bind fun _ _ hv => yields_pure ?_
    exact plainRoots_append.2 ⟨ht, hv⟩
  next => exact yields_current_bind.2 (yields_throw _)

/-- The roots anywhere in a statement are plain. -/
def PlainStmt (names : Names) (st : Stmt) : Prop :=
  ∀ pt ∈ st.points, PlainRoots names pt.clause.roots

def PlainBlock (names : Names) (b : Block) : Prop :=
  ∀ pt ∈ b.points, PlainRoots names pt.clause.roots

theorem plainStmt_here {st : Stmt} {c : Clause} (h : st.points = [.here c])
    (hc : PlainRoots names c.roots) : PlainStmt names st := by
  rw [PlainStmt, h]
  exact List.forall_mem_singleton.2 hc

theorem plainBlock_mk {sts : List Stmt} {span : Span} (h : ∀ st ∈ sts, PlainStmt names st) :
    PlainBlock names ⟨sts, span⟩ := by
  rw [PlainBlock, Block.points]
  induction sts with
  | nil => exact List.forall_mem_singleton.2 plainRoots_nil
  | cons st sts ih =>
    obtain ⟨hst, hsts⟩ := List.forall_mem_cons.1 h
    rw [stmtsPoints]
    exact List.forall_mem_append.2 ⟨hst, List.forall_mem_map.2 (ih hsts)⟩

theorem yields_placeStmt : Yields names (PlainStmt names) placeStmt s := by
  refine (yields_place fun power _ => yields_expression power).bind fun target t ht => ?_
  simp only [yields_currentKind_bind]
  split
  next =>
    refine (yields_assignmentTo _ ht).bind fun _ _ ha => (reads_expectSymbol rfl).andYields
      fun _ _ => yields_pure ?_
    exact plainStmt_here rfl ha
  next =>
    refine .next fun _ _ => (reads_expectSymbol rfl).andYields fun _ _ => yields_pure ?_
    exact plainStmt_here rfl ht
  next =>
    split
    next => exact yields_failUnexpected _
    next =>
      refine (reads_expectSymbol rfl).andYields fun _ _ => yields_pure ?_
      exact plainStmt_here rfl ht

theorem yields_printStmt : Yields names (PlainStmt names) printStmt s := by
  refine .next fun _ _ =>
    (yields_args fun power _ => yields_expression power).bind fun _ _ hes => ?_
  exact (reads_expectSymbol rfl).andYields fun _ _ => yields_pure (plainStmt_here rfl hes)

theorem yields_leaveStmt : Yields names (PlainStmt names) leaveStmt s := by
  have rest (value : Option Expr) (start : Span) (t : State) (hv : PlainValue names value) :
      Yields names (PlainStmt names) (do
        let stop ← expectSymbol .terminator
        return .leave value (start.through stop)) t := by
    refine (reads_expectSymbol rfl).andYields fun _ _ => yields_pure (plainStmt_here rfl ?_)
    cases value with
    | none => exact plainRoots_nil
    | some e => exact hv e rfl
  refine .next fun _ t => ?_
  simp only [yields_currentKind_bind]
  split
  next => exact (yields_pure plainValue_none).bind fun value => rest value _
  next => exact ((yields_expression .lowest).map plainValue_some).bind fun value => rest value _

theorem yields_stopStmt : Yields names (PlainStmt names) stopStmt s := by
  refine .next fun _ _ => (reads_expectSymbol rfl).andYields fun _ t => ?_
  simp only [yields_isLooping_bind]
  split
  next =>
    exact (reads_record _).andYields fun _ _ => yields_pure (plainStmt_here rfl plainRoots_nil)
  next => exact yields_pure (plainStmt_here rfl plainRoots_nil)

theorem yields_failNoStmt : Yields names (PlainStmt names) failNoStmt s :=
  yields_current_bind.2 (yields_failHere _)

theorem yields_condition : Yields names (PlainExpr names) condition s :=
  (reads_expectSymbol rfl).andYields fun _ _ => (yields_expression _).bind fun _ _ he =>
    (reads_expectSymbol rfl).andYields fun _ _ => yields_pure he

theorem yields_loopStart (known : Names) :
    Yields names (fun start => PlainRoots names start.roots) (loopStart known) s := by
  simp only [loopStart, yields_declarationAhead_bind]
  split
  next => exact (yields_declaration known).result fun _ hd => hd
  next =>
    refine (yields_place fun power _ => yields_expression power).bind fun target t ht => ?_
    rw [yields_currentKind_bind]
    split
    next =>
      exact (yields_assignmentTo _ ht).bind fun _ _ ha =>
        (reads_expectSymbol rfl).andYields fun _ _ => yields_pure ha
    next => exact yields_failExpected _

theorem yields_loopUpdate :
    Yields names (fun update => PlainRoots names update.roots) loopUpdate s := by
  refine (yields_place fun power _ => yields_expression power).bind fun target t ht => ?_
  rw [yields_currentKind_bind]
  split
  next => exact (yields_assignmentTo _ ht).result fun _ ha => ha
  next => exact .next fun _ _ => yields_pure ht
  next => exact yields_failExpected _

/-! ### Statements with blocks -/

section Blocks

variable (known : Names) {block : Parse Block}
  (hblock : ∀ t, Yields names (PlainBlock names) block t)
include hblock

theorem yields_elseIf : Yields names
    (fun e : ElseIf => PlainExpr names e.condition ∧ PlainBlock names e.body) (elseIf block) s :=
  .next fun _ _ => yields_condition.bind fun _ t he => (hblock t).result fun _ hb => ⟨he, hb⟩

theorem yields_elseBlock :
    Yields names (fun b => ∀ x ∈ b, PlainBlock names x) (elseBlock block) s := by
  rw [elseBlock, yields_currentKind_bind]
  split
  next =>
    refine .next fun _ t => (hblock t).map fun b hb => ?_
    rintro x ⟨⟩
    exact hb
  next =>
    refine yields_pure ?_
    rintro x ⟨⟩

omit hblock in
theorem plain_elseIfPoints {es : List ElseIf}
    (h : ∀ e ∈ es, PlainExpr names e.condition ∧ PlainBlock names e.body) :
    ∀ pt ∈ elseIfPoints es, PlainRoots names pt.clause.roots := by
  induction es with
  | nil => exact List.forall_mem_nil _
  | cons e es ih =>
    obtain ⟨⟨he, hb⟩, hes⟩ := List.forall_mem_cons.1 h
    obtain ⟨condition, body, span⟩ := e
    rw [elseIfPoints]
    exact List.forall_mem_cons.2 ⟨he, List.forall_mem_append.2 ⟨hb, ih hes⟩⟩

theorem yields_branchStmt : Yields names (PlainStmt names) (branchStmt block) s := by
  refine .next fun _ _ => yields_condition.bind fun e t he => (hblock t).bind fun body _ hb => ?_
  refine (yields_many fun t _ => yields_elseIf hblock).bind fun elseIfs _ hes => ?_
  refine (yields_elseBlock hblock).result fun elseBody hl => ?_
  have hbodies := List.forall_mem_append.2 ⟨hb, plain_elseIfPoints hes⟩
  rw [PlainStmt]
  cases elseBody with
  | none =>
    simp only [Stmt.points, List.append_nil]
    exact List.forall_mem_cons.2 ⟨he, hbodies⟩
  | some b =>
    simp only [Stmt.points]
    exact List.forall_mem_cons.2 ⟨he, List.forall_mem_append.2 ⟨hbodies, hl b rfl⟩⟩

theorem yields_repeatStmt : Yields names (PlainStmt names) (repeatStmt block) s := by
  refine .next fun _ _ => yields_condition.bind fun e _ he => ?_
  refine (Yields.insideLoop hblock).result fun body hb => ?_
  rw [PlainStmt, Stmt.points]
  exact List.forall_mem_cons.2 ⟨he, hb⟩

theorem yields_countStmt : Yields names (PlainStmt names) (countStmt known block) s := by
  refine .next fun _ _ => (reads_expectSymbol rfl).andYields fun _ _ => ?_
  refine (yields_loopStart known).bind fun start _ hs => ?_
  refine (yields_expression .lowest).bind fun e _ he => (reads_expectSymbol rfl).andYields
    fun _ _ => ?_
  refine yields_loopUpdate.bind fun update _ hu => (reads_expectSymbol rfl).andYields fun _ _ => ?_
  refine (Yields.insideLoop hblock).result fun body hb => ?_
  rw [PlainStmt, Stmt.points]
  refine List.forall_mem_cons.2 ⟨hs, List.forall_mem_map.2 ?_⟩
  exact List.forall_mem_cons.2 ⟨he, List.forall_mem_cons.2 ⟨hu, hb⟩⟩

theorem yields_keywordStmt (k : Keyword) :
    Yields names (PlainStmt names) ((keywordStmt? known block k).getD failNoStmt) s := by
  unfold keywordStmt?
  split
  next => exact yields_branchStmt hblock
  next => exact yields_repeatStmt hblock
  next => exact yields_repeatStmt hblock
  next => exact yields_countStmt known hblock
  next => exact yields_leaveStmt
  next => exact yields_stopStmt
  next => exact yields_printStmt
  next => exact yields_failNoStmt

theorem yields_stmt : Yields names (PlainStmt names) (stmt known block) s := by
  simp only [stmt, yields_currentKind_bind]
  split
  next k hk => exact yields_keywordStmt known hblock k
  next =>
    rw [yields_declarationAhead_bind]
    split
    next => exact (yields_declaration known).result fun _ hd => plainStmt_here rfl hd
    next => exact yields_placeStmt
  next => exact yields_placeStmt
  next => exact yields_failNoStmt

end Blocks

theorem yields_blockOf {stmt : Parse Stmt} (h : ∀ t, Yields names (PlainStmt names) stmt t) :
    Yields names (PlainBlock names) (blockOf stmt) s := by
  refine (yields_expectSymbol _).bind fun _ _ _ => ?_
  refine (yields_many fun t _ => yields_recovering (h t) skipStatement_suffix).bind
    fun body _ hbody => ?_
  refine (yields_expectSymbol _).result fun _ _ => plainBlock_mk fun st hst => ?_
  obtain ⟨x, hx, hid⟩ := List.mem_filterMap.1 hst
  exact hbody x hx st hid

theorem yields_stmtWithin (known : Names) (n : Nat) :
    Yields names (PlainStmt names) (stmtWithin known n) s := by
  induction n generalizing s with
  | zero => exact yields_failNoStmt
  | succ n ih => exact yields_stmt known fun _ => yields_blockOf fun _ => ih

theorem yields_codeBlock (known : Names) : Yields names (PlainBlock names) (codeBlock known) s :=
  yields_blockOf fun _ => yields_bound_bind.2 (yields_stmtWithin known _)

/-! ### Functions and classes -/

theorem yields_function (known : Names) :
    Yields names (fun f : Function => PlainBlock names f.body) (function known) s := by
  refine ((reads_expect rfl).result _).andYields fun _ _ => ?_
  refine reads_functionName.andYields fun _ _ => (reads_expectSymbol rfl).andYields fun _ _ => ?_
  refine (reads_dataType known).andYields fun _ _ => (reads_params known).andYields fun _ t => ?_
  exact (yields_codeBlock known).result fun _ hb => hb

/-- The roots anywhere in a member are plain. -/
def PlainMember (names : Names) : Member → Prop
  | .property d => PlainRoots names d.roots
  | .method f => PlainBlock names f.body

theorem yields_classMember (known : Names) :
    Yields names (PlainMember names) (classMember known) s := by
  rw [classMember, yields_currentKind_bind]
  split
  next => exact (yields_function known).result fun _ hf => hf
  next =>
    rw [yields_declarationAhead_bind]
    split
    next => exact (yields_declaration known).result fun _ hd => hd
    next => exact yields_failUnexpected _

theorem yields_unitType (known : Names) : Yields names (fun _ => True) (unitType known) s := by
  rw [unitType, yields_current_bind]
  split
  next => exact .next fun _ _ => yields_pure trivial
  next => exact yields_failExpected _

theorem yields_className (known : Names) :
    Yields names (fun x => names.isClass x.1.value) (className known) s := by
  rw [className, yields_current_bind]
  split
  next id hk =>
    intro hs
    have hn : s.stream.current.kind.isName := by rw [hk]; rfl
    have hc := (hs.current hn).2.2 ⟨id, hk⟩
    exact (yields_unitType known).result (fun _ _ => hc) hs
  next => exact yields_failExpected _

/-- The roots anywhere in a class are plain, and its name is known as one of a class. -/
structure PlainClass (names : Names) (c : Class) : Prop where
  name : names.isClass c.name.value
  properties : ∀ d ∈ c.properties, PlainRoots names d.roots
  methods : ∀ f ∈ c.methods, PlainBlock names f.body

theorem yields_classItem (known : Names) : Yields names (PlainClass names) (classItem known) s := by
  refine ((reads_expect rfl).result _).andYields fun _ _ => ?_
  refine (yields_className known).bind fun ⟨name, type⟩ _ hname => ?_
  refine (reads_params known).andYields fun _ _ => (yields_expectSymbol _).bind fun _ _ _ => ?_
  refine (yields_many fun t _ => yields_recovering (yields_classMember known)
    skipStatement_suffix).bind fun members _ hm => ?_
  have hmember : ∀ m ∈ members.filterMap id, PlainMember names m := by
    intro m hmem
    obtain ⟨x, hx, hid⟩ := List.mem_filterMap.1 hmem
    exact hm x hx m hid
  refine (yields_expectSymbol _).result fun _ _ => ⟨hname, fun d hd => ?_, fun f hf => ?_⟩
  · obtain ⟨m, hmem, hd⟩ := List.mem_filterMap.1 hd
    cases m with
    | property d' =>
      cases hd
      exact hmember _ hmem
    | method f => cases hd
  · obtain ⟨m, hmem, hf⟩ := List.mem_filterMap.1 hf
    cases m with
    | property d => cases hf
    | method f' =>
      cases hf
      exact hmember _ hmem

/-! ### Programs -/

/-- The roots anywhere in an item are plain. -/
def PlainItem (names : Names) : Item → Prop
  | .global d => PlainRoots names d.roots
  | .function f | .entry f => PlainBlock names f.body
  | .cls c => PlainClass names c

theorem PlainItem.parts {i : Item} (h : PlainItem names i) :
    (∀ d, i.global? = some d → PlainRoots names d.roots) ∧
      (∀ f, i.function? = some f → PlainBlock names f.body) ∧
      (∀ f, i.entry? = some f → PlainBlock names f.body) ∧
      ∀ c, i.class? = some c → PlainClass names c := by
  cases i <;> refine ⟨?_, ?_, ?_, ?_⟩ <;> rintro x ⟨⟩ <;> exact h

theorem yields_item (known : Names) : Yields names (PlainItem names) (item known) s := by
  rw [item, yields_currentKind_bind]
  split
  next =>
    have hg : Yields names (fun d => PlainRoots names d.roots) (global known) s :=
      ((reads_expect rfl).result _).andYields fun _ _ =>
        (yields_declaration known).result fun _ hd => hd
    exact hg.result fun _ hd => hd
  next => exact (yields_classItem known).result fun _ hc => hc
  next =>
    rw [yields_nextKind_bind]
    refine (yields_function known).result fun f hf => ?_
    split <;> exact hf
  next => exact yields_current_bind.2 (yields_failHere _)

theorem yields_itemsUpTo (known : Names) (n : Nat) (hasEntry : Bool) :
    Yields names (fun is => ∀ i ∈ is, PlainItem names i) (itemsUpTo known n hasEntry) s := by
  induction n generalizing s hasEntry with
  | zero => exact yields_pure (List.forall_mem_nil _)
  | succ n ih =>
    rw [itemsUpTo, yields_currentKind_bind]
    split
    next => exact yields_pure (List.forall_mem_nil _)
    next =>
      refine (yields_recovering (yields_item known) skipItem_suffix).bind fun found t hfound => ?_
      have more (i : Item) (b : Bool) (t : State) (hi : PlainItem names i) :
          Yields names (fun is => ∀ i ∈ is, PlainItem names i)
            (itemsUpTo known n b >>= fun is => pure (i :: is)) t :=
        (ih b).result fun is his => List.forall_mem_cons.2 ⟨hi, his⟩
      split
      next => exact ih hasEntry
      next f =>
        have hf := hfound _ rfl
        split
        next => exact (reads_record _).andYields fun _ t => more _ _ t hf
        next => exact more _ _ t hf
      next i _ => exact more _ _ t (hfound i rfl)

/-- The roots anywhere in a program are plain, and its classes have names of classes. -/
structure PlainProgram (names : Names) (p : Program) : Prop where
  globals : ∀ d ∈ p.globals, PlainRoots names d.roots
  functions : ∀ f ∈ p.functionsAndEntry, PlainBlock names f.body
  classes : ∀ c ∈ p.classes, PlainClass names c

theorem yields_items (known : Names) :
    Yields names (fun is => ∀ i ∈ is, PlainItem names i) (items known) s := by
  refine yields_bound_bind.2 ((yields_itemsUpTo known _ false).bind fun is t his => ?_)
  split
  next => exact yields_current_bind.2 ((reads_record _).andYields fun _ _ => yields_pure his)
  next => exact yields_pure his

theorem tokens_ofTokens_subset (tokens : List Token) :
    (Stream.ofTokens tokens).tokens ⊆ tokens := by
  have hfilter : tokens.filter (fun t => !t.kind.isTrivia) ⊆ tokens := List.filter_sublist.subset
  simp only [Stream.ofTokens]
  generalize tokens.filter (fun t => !t.kind.isTrivia) = ts at hfilter
  cases ts.getLast? with
  | none => exact List.nil_subset _
  | some t =>
    dsimp only
    split
    next => exact fun u hu => hfilter ((List.dropLast_subset ts) hu)
    next => exact hfilter

/-- A program that is read from tokens whose names are told apart is plain. -/
theorem plain_ofTokens {tokens : List Token} {known : Names} {p : Program}
    (h : ∀ t ∈ tokens, t.Told names) (hp : Program.ofTokens tokens known = .ok p) :
    PlainProgram names p := by
  have hs : (State.ofTokens tokens).Told names := fun t ht => h t (tokens_ofTokens_subset tokens ht)
  have hitems : Yields names _ (items known) (.ofTokens tokens) := yields_items known
  have hy := hitems hs
  unfold Outcome at hy
  unfold Program.ofTokens at hp
  split at hp
  next => cases hp
  next is t hi =>
    rw [hi] at hy
    split at hp
    next entry rest _ hentry =>
      cases hp
      have hentry : entry ∈ is.filterMap Item.entry? := by
        rw [hentry]
        exact List.mem_cons_self
      refine ⟨fun d hd => ?_, List.forall_mem_append.2 ⟨fun f hf => ?_, ?_⟩, fun c hc => ?_⟩
      · obtain ⟨i, hi, he⟩ := List.mem_filterMap.1 hd
        exact (hy.1 i hi).parts.1 d he
      · obtain ⟨i, hi, he⟩ := List.mem_filterMap.1 hf
        exact (hy.1 i hi).parts.2.1 f he
      · obtain ⟨i, hi, he⟩ := List.mem_filterMap.1 hentry
        exact List.forall_mem_singleton.2 ((hy.1 i hi).parts.2.2.1 entry he)
      · obtain ⟨i, hi, he⟩ := List.mem_filterMap.1 hc
        exact (hy.1 i hi).parts.2.2.2 c he
    next => cases hp

end

end Grammar

/-- The names of a text are told apart. -/
theorem Lexed.told_ofLines (lines : List String) (names : Names) :
    ∀ t ∈ (ofLines lines names).tokens, t.Told (ofLines lines names).names := by
  intro t ht hn
  have hfits := fits_ofLines lines names ht
  cases hk : t.kind with
  | classId id =>
    rw [hk] at hfits
    refine ⟨hfits.2, iff_of_true ?_ ⟨id, rfl⟩⟩
    rw [Names.isClass, hfits.1]
    rfl
  | identifier id =>
    rw [hk] at hfits
    refine ⟨hfits.2, iff_of_false ?_ ?_⟩
    · rw [not_isClass_ofLines lines names ht hk]
      exact Bool.false_ne_true
    · rintro ⟨id, ⟨⟩⟩
  | _ =>
    rw [hk] at hn
    cases hn

end Uwu
