import Mathlib.Data.List.Flatten
import Mathlib.Data.List.Perm.Subperm
import Uwu.Proofs.Grammar.SourceOrder
import Uwu.Proofs.Typing.Setters

/-! Where the names that a program declares begin, and the values that it gives to them. A parser
takes a token at each of these places, so in the text of an accepted program no two of them are the
same. Parentheses around a value are no part of its span, and belong to no other value. -/

namespace Uwu

/-! ### Onsets -/

/-- Where the declared name begins, and where the value does. -/
def Setter.onsets (x : Setter) : List Position :=
  (x.site?.map Span.start).toList ++ (x.value?.map fun e => e.span.start).toList

def Param.onset (q : Param) : Position :=
  q.name.span.start

def Stmt.onsets (st : Stmt) : List Position :=
  st.setters.flatMap Setter.onsets

def Block.onsets (b : Block) : List Position :=
  b.setters.flatMap Setter.onsets

def Function.onsets (f : Function) : List Position :=
  f.params.map Param.onset ++ f.body.onsets

def propertyOnsets (ds : List Declaration) : List Position :=
  ds.flatMap fun d => (Setter.declare d).onsets

def Class.onsets (c : Class) : List Position :=
  c.params.map Param.onset ++ (propertyOnsets c.properties ++ c.methods.flatMap Function.onsets)

namespace Grammar

def Member.onsets : Member → List Position
  | property d => (Setter.declare d).onsets
  | method f => f.onsets

def Item.onsets : Item → List Position
  | global d => (Setter.declare d).onsets
  | function f | entry f => f.onsets
  | cls c => c.onsets

/-! ### Parsers and onsets -/

/-- `P` holds of what `p` makes, with places where tokens start that `p` takes. -/
def Begins {α : Type} (P : α → List Position → Prop) (p : Parse α) (s : State) : Prop :=
  Outcome p s (fun a t => ∃ ps, P a ps ∧ (ps ++ t.starts).Subperm s.starts)
    fun t => t.starts.Subperm s.starts

section Rules

variable {α β : Type} {P : α → List Position → Prop} {Q : β → List Position → Prop}
  {onsets : α → List Position} {p : Parse α} {s : State}

theorem Begins.mono {P' : α → List Position → Prop} (h : Begins P p s)
    (hP : ∀ a ps, P a ps → ∃ qs, qs.Perm ps ∧ P' a qs) : Begins P' p s := by
  refine Outcome.mono h (fun a t ⟨ps, ha, ht⟩ => ?_) fun _ ht => ht
  obtain ⟨qs, hperm, hq⟩ := hP a ps ha
  exact ⟨qs, hq, ((hperm.append_right _).subperm_right).2 ht⟩

theorem begins_pure {a : α} (h : P a []) : Begins P (pure a) s :=
  ⟨[], h, .refl _⟩

/-- Tokens that are taken may be the onset of nothing. -/
theorem Reads.begins {n : Nat} (h : Reads Shrinks n p s) : Begins (fun _ ps => ps = []) p s :=
  Outcome.mono h (fun _ _ ht => ⟨[], rfl, ht.1.starts.subperm⟩) fun _ ht => ht.starts.subperm

theorem StartsHere.begins {start : α → Position} (h : StartsHere start p s) :
    Begins (fun a ps => ps = [start a]) p s :=
  Outcome.mono h (fun a _ ht => ⟨[start a], rfl, ht.subperm⟩) fun _ ht => ht.subperm

theorem Begins.bind {f : α → Parse β} (hp : Begins P p s)
    (hf : ∀ a t ps, P a ps → Begins (fun b qs => Q b (ps ++ qs)) (f a) t) :
    Begins Q (p >>= f) s := by
  rw [Begins, outcome_bind]
  refine Outcome.mono hp (fun a t ⟨ps, ha, ht⟩ => ?_) fun _ ht => ht
  refine Outcome.mono (hf a t ps ha) (fun b u ⟨qs, hb, hu⟩ => ?_) fun u hu => ?_
  · refine ⟨ps ++ qs, hb, .trans ?_ ht⟩
    rw [List.append_assoc]
    exact (List.subperm_append_left ps).2 hu
  · exact hu.trans ((List.sublist_append_right ps _).subperm.trans ht)

theorem Begins.result {g : α → β} (hp : Begins P p s) (hg : ∀ a ps, P a ps → Q (g a) ps) :
    Begins Q (p >>= fun a => pure (g a)) s :=
  hp.bind fun a _ ps ha => begins_pure (by rw [List.append_nil]; exact hg a ps ha)

theorem Begins.map {g : α → β} (hp : Begins P p s) (hg : ∀ a ps, P a ps → Q (g a) ps) :
    Begins Q (g <$> p) s := by
  rw [Begins, outcome_map]
  exact Outcome.mono hp (fun a _ ⟨ps, ha, ht⟩ => ⟨ps, hg a ps ha, ht⟩) fun _ ht => ht

/-- A parser before another one, with no onset in what it takes. -/
theorem Reads.andBegins {n : Nat} {f : α → Parse β} (hp : Reads Shrinks n p s)
    (hf : ∀ a t, Begins Q (f a) t) : Begins Q (p >>= f) s := by
  refine hp.begins.bind fun a t ps hps => ?_
  obtain rfl := hps
  exact hf a t

@[simp]
theorem begins_current_bind {f : Token → Parse β} :
    Begins Q (current >>= f) s ↔ Begins Q (f s.stream.current) s := Iff.rfl

@[simp]
theorem begins_currentKind_bind {f : Kind → Parse β} :
    Begins Q (currentKind >>= f) s ↔ Begins Q (f s.kind) s := Iff.rfl

@[simp]
theorem begins_nextKind_bind {f : Kind → Parse β} :
    Begins Q (nextKind >>= f) s ↔ Begins Q (f s.stream.peek.kind) s := Iff.rfl

@[simp]
theorem begins_spanBefore_bind {f : Span → Parse β} :
    Begins Q (spanBefore >>= f) s ↔ Begins Q (f s.stream.previous) s := Iff.rfl

@[simp]
theorem begins_bound_bind {f : Nat → Parse β} :
    Begins Q (bound >>= f) s ↔ Begins Q (f (s.stream.tokens.length + 1)) s := Iff.rfl

@[simp]
theorem begins_declarationAhead_bind {f : Bool → Parse β} :
    Begins Q (declarationAhead >>= f) s ↔
      Begins Q (f (isIdentifier s.kind && s.stream.peek.kind == .symbol .dash)) s := Iff.rfl

theorem begins_throw (d : Diagnostic) : Begins P (throw d : Parse α) s :=
  List.Subperm.refl _

theorem begins_failExpected (what : String) : Begins P (failExpected what : Parse α) s :=
  List.Subperm.refl _

theorem begins_failUnexpected (reason : String) : Begins P (failUnexpected reason : Parse α) s :=
  List.Subperm.refl _

theorem begins_failHere (cause : Cause) : Begins P (failHere cause : Parse α) s :=
  List.Subperm.refl _

theorem Begins.insideLoop (h : ∀ t, Begins P p t) : Begins P (insideLoop p) s := by
  rw [Begins, outcome_insideLoop]
  exact h _

/-- What is broken has no onset. -/
theorem begins_recovering {skip : State → State → State}
    (h : Begins (fun a ps => ps = onsets a) p s)
    (hskip : ∀ t u : State, (skip t u).stream.tokens <:+ u.stream.tokens) :
    Begins (fun a ps => ps = (a.map onsets).getD []) (recovering p skip) s := by
  refine outcome_recovering (Outcome.mono h (fun a t ht => ht) fun t ht d => ⟨[], rfl, ?_⟩)
  exact ((hskip s { t with recorded := t.recorded ++ [d] }).sublist.map _).subperm.trans ht

theorem begins_upTo {more : Kind → Bool}
    (h : ∀ t : State, more t.kind → Begins (fun a ps => ps = onsets a) p t) (n : Nat) :
    Begins (fun as ps => ps = as.flatMap onsets) (upTo more p n) s := by
  induction n generalizing s with
  | zero => exact begins_pure rfl
  | succ n ih =>
    rw [upTo, begins_currentKind_bind]
    split
    next hm =>
      refine (h s hm).bind fun a t ps hps => ih.result fun as qs hqs => ?_
      rw [hps, hqs, List.flatMap_cons]
    next => exact begins_pure rfl

theorem begins_many {more : Kind → Bool}
    (h : ∀ t : State, more t.kind → Begins (fun a ps => ps = onsets a) p t) :
    Begins (fun as ps => ps = as.flatMap onsets) (many more p) s :=
  begins_bound_bind.2 (begins_upTo h _)

theorem begins_listUpTo {close : Symbol} (h : ∀ t, Begins (fun a ps => ps = onsets a) p t)
    (n : Nat) : Begins (fun as ps => ps = as.flatMap onsets) (listUpTo close p n) s := by
  induction n generalizing s with
  | zero => exact begins_pure rfl
  | succ n ih =>
    rw [listUpTo, begins_currentKind_bind]
    split
    next => exact begins_pure rfl
    next =>
      refine (h s).bind fun a t ps hps => ?_
      rw [begins_currentKind_bind]
      split
      next hc =>
        have hread : Reads Shrinks 1 advance t := reads_advance (by rw [hc]; rfl)
        refine hread.andBegins fun _ _ => ih.result fun as qs hqs => ?_
        rw [hps, hqs, List.flatMap_cons]
      next => exact begins_pure (by rw [hps, List.flatMap_singleton, List.append_nil])

theorem begins_listTo {close : Symbol} (h : ∀ t, Begins (fun a ps => ps = onsets a) p t) :
    Begins (fun x ps => ps = x.1.flatMap onsets) (listTo close p) s :=
  begins_bound_bind.2 ((begins_listUpTo h _).bind fun _ _ _ has =>
    (shrinks_expectSymbol _).begins.result fun _ _ hqs => by rw [has, hqs, List.append_nil])

end Rules

/-! ### Expressions -/

section Expressions

variable {expr : Power → Parse Expr} {s : State}

theorem outcome_literal :
    Outcome literal s (fun e _ => e.span.start = s.stream.current.span.start) fun _ => True := by
  rw [literal, outcome_bind, outcome_advance]
  split
  next => rfl
  next => trivial

theorem outcome_input :
    Outcome (input expr) s (fun e _ => e.span.start = s.stream.current.span.start)
      fun _ => True := by
  rw [input, outcome_bind, outcome_advance]
  refine outcome_then fun _ _ => ?_
  rw [outcome_bind, outcome_currentKind]
  split
  next => exact outcome_then fun _ _ => outcome_then fun _ _ => rfl
  next => exact outcome_then fun _ _ => outcome_then fun _ _ => rfl

theorem outcome_format :
    Outcome (format expr) s (fun e _ => e.span.start = s.stream.current.span.start)
      fun _ => True := by
  rw [format, outcome_bind, outcome_advance]
  exact outcome_then fun _ _ => outcome_then fun _ _ => rfl

theorem outcome_array :
    Outcome (array expr) s (fun e _ => e.span.start = s.stream.current.span.start)
      fun _ => True := by
  rw [array, outcome_bind, outcome_advance]
  exact outcome_then fun _ _ => rfl

theorem outcome_prefixed (op : PrefixOp) :
    Outcome (prefixed expr op) s (fun e _ => e.span.start = s.stream.current.span.start)
      fun _ => True := by
  rw [prefixed, outcome_bind, outcome_advance]
  exact outcome_then fun _ _ => rfl

theorem outcome_link :
    Outcome (link expr) s (fun l _ => l.span.start = s.stream.current.span.start)
      fun _ => True := by
  rw [link, outcome_bind]
  refine Outcome.mono outcome_expectName (fun name t hname => ?_) fun _ => id
  rw [outcome_bind, outcome_currentKind]
  split
  next => exact outcome_then fun _ _ => hname
  next => exact outcome_then fun _ _ => hname
  next => exact hname

theorem start_foldl_addMember (links : List Link) (first : Place) :
    (links.foldl addMember first).span.start = first.span.start := by
  induction links generalizing first with
  | nil => rfl
  | cons l links ih => exact ih (addMember first l)

theorem outcome_construction :
    Outcome (construction expr) s (fun p _ => p.span.start = s.stream.current.span.start)
      fun _ => True := by
  rw [construction, outcome_bind, outcome_advance, outcome_bind, outcome_currentKind]
  split
  next => exact outcome_then fun _ _ => rfl
  next => trivial

theorem outcome_place :
    Outcome (place expr) s (fun p _ => p.span.start = s.stream.current.span.start)
      fun _ => True := by
  have members (first : Place) (hfirst : first.span.start = s.stream.current.span.start)
      (t : State) : Outcome (do
        let members ← many (· == .symbol .dot) (member expr)
        return members.foldl addMember first) t
        (fun p _ => p.span.start = s.stream.current.span.start) fun _ => True :=
    outcome_then fun links _ => (start_foldl_addMember links first).trans hfirst
  rw [place, outcome_bind, outcome_currentKind]
  dsimp only
  split
  next =>
    rw [outcome_bind]
    exact outcome_construction.mono (fun first t hfirst => members first hfirst t) fun _ => id
  next =>
    rw [outcome_bind, outcome_map]
    exact outcome_link.mono (fun l t hl => members (.link l) hl t) fun _ => id

/-- The expressions inside take tokens, and begin at one of them. -/
structure Inner (expr : Power → Parse Expr) : Prop where
  reads : ∀ power t, Reads Shrinks 1 (expr power) t
  begins : ∀ power t, Begins (fun e ps => ps = [e.span.start]) (expr power) t

variable (h : Inner expr)
include h

theorem begins_grouping (hs : isPlain s.kind) :
    Begins (fun e ps => ps = [e.span.start]) (grouping expr) s := by
  have hread : Reads Shrinks 1 advance s := reads_advance hs
  refine hread.andBegins fun _ t => (h.begins .lowest t).bind fun e t ps hps => ?_
  refine (shrinks_expectSymbol _).begins.result fun _ qs hqs => ?_
  rw [hps, hqs, List.append_nil]

theorem begins_operand? {p : Parse Expr} (hp : operand? expr s.kind = some p) :
    Begins (fun e ps => ps = [e.span.start]) p s := by
  have hs := isPlain_of_operand? hp
  have hread : Reads Shrinks 1 p s := reads_operand? h.reads hp
  have here {q : Parse Expr} (hq : Reads Shrinks 1 q s)
      (hstart : Outcome q s (fun e _ => e.span.start = s.stream.current.span.start)
        fun _ => True) : Begins (fun e ps => ps = [e.span.start]) q s := by
    have hhere : StartsHere (fun e : Expr => e.span.start) q s := hq.startsHere hstart
    exact hhere.begins
  simp only [operand?] at hp
  split at hp
  all_goals try cases Option.some.inj hp
  case h_7 => exact here hread outcome_input
  case h_8 => exact here hread outcome_format
  case h_9 => exact here hread outcome_array
  case h_10 => exact begins_grouping h hs
  case h_11 | h_12 => exact here hread ((outcome_map _ _).2 outcome_place)
  case h_13 =>
    obtain ⟨op, -, rfl⟩ := Option.map_eq_some_iff.mp hp
    exact here hread (outcome_prefixed op)
  all_goals exact here hread outcome_literal

theorem begins_operand : Begins (fun e ps => ps = [e.span.start]) (operand expr) s := by
  rw [operand, begins_currentKind_bind]
  split
  next p hp => exact begins_operand? h hp
  next => exact begins_failUnexpected _

omit h in
/-- Operators go on after their left operand. -/
theorem outcome_operators (power : Power) (n : Nat) (left : Expr) :
    Outcome (operators expr power n left) s (fun e _ => e.span.start = left.span.start)
      fun _ => True := by
  induction n generalizing s left with
  | zero => rfl
  | succ n ih =>
    rw [operators]
    change Outcome (if _ then _ else _) s _ _
    split
    next => rfl
    next =>
      split
      next =>
        rw [outcome_bind, outcome_advance, outcome_bind]
        exact outcome_always (fun _ _ => ih _) fun _ => trivial
      next =>
        rw [outcome_bind, outcome_advance]
        split
        next p => exact ih _
        next => trivial
      next => trivial

theorem begins_operators (power : Power) (n : Nat) (left : Expr) :
    Begins (fun e ps => e.span.start = left.span.start ∧ ps = []) (operators expr power n left) s :=
  Outcome.mono ((reads_operators h.reads power n left).begins.and (outcome_operators power n left))
    (fun _ _ ⟨⟨ps, hps, ht⟩, he⟩ => ⟨ps, ⟨he, hps⟩, ht⟩) fun _ ht => ht.1

end Expressions

theorem inner_exprWithin (n : Nat) : Inner (exprWithin n) := by
  refine ⟨fun power t => reads_exprWithin n power, ?_⟩
  induction n with
  | zero => exact fun _ _ => begins_failUnexpected _
  | succ n ih =>
    have hinner : Inner (exprWithin n) := ⟨fun power t => reads_exprWithin n power, ih⟩
    refine fun power t => (begins_operand hinner).bind fun left t ps hps => ?_
    rw [begins_bound_bind]
    refine (begins_operators hinner power _ left).mono fun e qs ⟨he, hqs⟩ => ⟨qs, .refl _, ?_⟩
    rw [hps, hqs, List.append_nil, he]

theorem begins_expression (power : Power) {s : State} :
    Begins (fun e ps => ps = [e.span.start]) (expression power) s :=
  begins_bound_bind.2 ((inner_exprWithin _).begins power s)

/-! ### Declarations and assignments -/

section Statements

variable {names : Names} {s : State}

theorem begins_expectName : Begins (fun n ps => ps = [n.span.start]) expectName s :=
  (reads_expectName.startsHere outcome_expectName).begins

theorem begins_declaration :
    Begins (fun d ps => ps = (Setter.declare d).onsets) (declaration names) s := by
  refine begins_expectName.bind fun name t ps hps => ?_
  obtain rfl := hps
  refine (shrinks_expectSymbol _).andBegins fun _ t => ?_
  have htype (t : State) : Reads Shrinks 1 (dataType names) t := reads_dataType names
  have hmark (t : State) : Reads Shrinks 0 constMark t := reads_constMark
  refine (htype t).andBegins fun type t => (hmark t).andBegins fun isConst t => ?_
  have rest (value : Option Expr) (t : State) : Begins (fun d qs =>
      [name.span.start] ++ ((value.map fun e => e.span.start).toList ++ qs) =
        (Setter.declare d).onsets) (do
      let stop ← expectSymbol .terminator
      if isConst && value.isNone then record ⟨.constantWithoutValue name.value, name.span⟩
      return (⟨name, type, isConst, value, name.span.through stop⟩ : Declaration)) t := by
    refine (shrinks_expectSymbol _).andBegins fun _ t => ?_
    have hdone : [name.span.start] ++ ((value.map fun e => e.span.start).toList ++ []) =
        [name.span.start] ++ (value.map fun e => e.span.start).toList := by
      rw [List.append_nil]
    split
    next =>
      have hrecord (d : Diagnostic) : Reads Shrinks 0 (record d) t := reads_record d
      exact (hrecord _).andBegins fun _ _ => begins_pure hdone
    next => exact begins_pure hdone
  rw [begins_currentKind_bind]
  split
  next hk =>
    have hread : Reads Shrinks 1 advance t := reads_advance (by rw [hk]; rfl)
    refine hread.andBegins fun _ t => ?_
    refine ((begins_expression .lowest).map (g := some) (Q := fun value ps =>
      ps = (value.map fun e : Expr => e.span.start).toList) fun e ps hps => hps).bind ?_
    rintro value t ps rfl
    exact rest value t
  next => exact rest none t

theorem begins_assignmentTo (target : Place) (op : AssignOp) (hs : isPlain s.kind) :
    Begins (fun a ps => ps = (Setter.assign a).onsets) (assignmentTo target op) s := by
  rw [assignmentTo]
  split
  next =>
    have hread : Reads Shrinks 1 advance s := reads_advance hs
    exact hread.andBegins fun _ t => (begins_expression .lowest).result fun e ps hps => hps
  next => exact begins_current_bind.2 (begins_throw _)

theorem begins_loopStart : Begins (fun x ps => ps = x.setter.onsets) (loopStart names) s := by
  rw [loopStart, begins_declarationAhead_bind]
  split
  next => exact begins_declaration.result fun d ps hps => hps
  next =>
    have hplace : Reads Shrinks 1 (place expression) s := reads_place fun power _ =>
      reads_expression power
    refine hplace.andBegins fun target t => ?_
    rw [begins_currentKind_bind]
    split
    next hk =>
      refine (begins_assignmentTo target _ (isPlain_of_assignOp hk)).bind fun a t ps hps => ?_
      refine (shrinks_expectSymbol _).begins.result fun _ qs hqs => ?_
      rw [hps, hqs, List.append_nil]
      rfl
    next => exact begins_failExpected _

theorem begins_loopUpdate :
    Begins (fun x ps => ps = x.setter?.toList.flatMap Setter.onsets) loopUpdate s := by
  have hplace : Reads Shrinks 1 (place expression) s := reads_place fun power _ =>
    reads_expression power
  refine hplace.andBegins fun target t => ?_
  simp only [begins_currentKind_bind]
  split
  next hk =>
    refine (begins_assignmentTo target _ (isPlain_of_assignOp hk)).result fun a ps hps => ?_
    rw [hps]
    exact (List.append_nil _).symm
  next hk =>
    have hread : Reads Shrinks 1 advance t := reads_advance (isPlain_of_postfixOp hk)
    exact hread.andBegins fun _ _ => begins_pure rfl
  next => exact begins_failExpected _

theorem begins_placeStmt :
    Begins (fun st ps => ps = st.onsets) placeStmt s := by
  have hplace : Reads Shrinks 1 (place expression) s := reads_place fun power _ =>
    reads_expression power
  refine hplace.andBegins fun target t => ?_
  simp only [begins_currentKind_bind]
  split
  next hk =>
    refine (begins_assignmentTo target _ (isPlain_of_assignOp hk)).bind fun a t ps hps => ?_
    refine (shrinks_expectSymbol _).begins.result fun _ qs hqs => ?_
    rw [hps, hqs, List.append_nil]
    exact (List.append_nil _).symm
  next hk =>
    have hread : Reads Shrinks 1 advance t := reads_advance (isPlain_of_postfixOp hk)
    exact hread.andBegins fun _ _ => (shrinks_expectSymbol _).andBegins fun _ _ => begins_pure rfl
  next =>
    split
    next => exact begins_failUnexpected _
    next => exact (shrinks_expectSymbol _).andBegins fun _ _ => begins_pure rfl

/-! ### Blocks -/

section Blocks

variable {block : Parse Block} (hblock : ∀ t, Begins (fun b ps => ps = b.onsets) block t)
include hblock

theorem begins_elseIf (hs : isPlain s.kind) :
    Begins (fun x ps => ps = x.body.onsets) (elseIf block) s := by
  have hread : Reads Shrinks 1 advance s := reads_advance hs
  have hcondition (t : State) : Reads Shrinks 1 condition t := reads_condition
  exact hread.andBegins fun _ t => (hcondition t).andBegins fun _ t =>
    (hblock t).result fun _ _ hps => hps

theorem begins_elseBlock :
    Begins (fun b ps => ps = b.toList.flatMap Block.onsets) (elseBlock block) s := by
  rw [elseBlock, begins_currentKind_bind]
  split
  next hk =>
    have hread : Reads Shrinks 1 advance s := reads_advance (by rw [hk]; rfl)
    exact hread.andBegins fun _ t => (hblock t).map fun b ps hps =>
      hps.trans (List.append_nil _).symm
  next => exact begins_pure rfl

omit hblock in
theorem onsets_elseIfSetters (es : List ElseIf) :
    (elseIfSetters es).flatMap Setter.onsets = es.flatMap fun x => x.body.onsets := by
  induction es with
  | nil => rw [elseIfSetters]; rfl
  | cons x es ih =>
    obtain ⟨condition, body, span⟩ := x
    rw [elseIfSetters, List.flatMap_append, ih]
    rfl

theorem begins_branchStmt (hs : isPlain s.kind) :
    Begins (fun st ps => ps = st.onsets) (branchStmt block) s := by
  have hread : Reads Shrinks 1 advance s := reads_advance hs
  have hcondition (t : State) : Reads Shrinks 1 condition t := reads_condition
  refine hread.andBegins fun _ t => (hcondition t).andBegins fun e t => ?_
  refine (hblock t).bind fun body t ps hps => ?_
  refine (begins_many fun t ht =>
    begins_elseIf hblock (by rw [beq_iff_eq.1 ht]; rfl)).bind fun elseIfs t qs hqs => ?_
  refine (begins_elseBlock hblock).result fun elseBody rs hrs => ?_
  rw [hps, hqs, hrs]
  cases elseBody with
  | none =>
    rw [Stmt.onsets, Stmt.setters, List.append_nil, List.flatMap_append, onsets_elseIfSetters,
      Option.toList_none, List.flatMap_nil, List.append_nil]
    rfl
  | some b =>
    rw [Stmt.onsets, Stmt.setters, List.flatMap_append, List.flatMap_append, onsets_elseIfSetters,
      Option.toList_some, List.flatMap_singleton, List.append_assoc]
    rfl

theorem begins_repeatStmt (hs : isPlain s.kind) :
    Begins (fun st ps => ps = st.onsets) (repeatStmt block) s := by
  have hread : Reads Shrinks 1 advance s := reads_advance hs
  have hcondition (t : State) : Reads Shrinks 1 condition t := reads_condition
  refine hread.andBegins fun _ t => (hcondition t).andBegins fun e t => ?_
  refine (Begins.insideLoop hblock).result fun body ps hps => ?_
  rw [hps, Stmt.onsets, Stmt.setters, Block.onsets]

theorem begins_countStmt (hs : isPlain s.kind) :
    Begins (fun st ps => ps = st.onsets) (countStmt names block) s := by
  have hread : Reads Shrinks 1 advance s := reads_advance hs
  refine hread.andBegins fun _ t => (shrinks_expectSymbol _).andBegins fun _ t => ?_
  refine begins_loopStart.bind fun start t ps hps => ?_
  have hexpression (t : State) : Reads Shrinks 1 (expression .lowest) t := reads_expression .lowest
  refine (hexpression t).andBegins fun e t => (shrinks_expectSymbol _).andBegins fun _ t => ?_
  refine begins_loopUpdate.bind fun update t qs hqs => ?_
  refine (shrinks_expectSymbol _).andBegins fun _ t => ?_
  refine (Begins.insideLoop hblock).result fun body rs hrs => ?_
  rw [hps, hqs, hrs, Stmt.onsets, Stmt.setters, List.flatMap_cons, List.flatMap_append]
  rfl

omit hblock in
/-- A statement without a setter. -/
theorem begins_plainStmt {p : Parse Stmt} (hp : Reads Shrinks 1 p s)
    (hnone : Outcome p s (fun st _ => st.setters = []) fun _ => True) :
    Begins (fun st ps => ps = st.onsets) p s := by
  refine Outcome.mono (hp.begins.and hnone) (fun st t ⟨⟨ps, hps, ht⟩, hst⟩ => ?_) fun _ ht => ht.1
  have honsets : st.onsets = [] := by rw [Stmt.onsets, hst, List.flatMap_nil]
  exact ⟨ps, hps.trans honsets.symm, ht⟩

theorem begins_stmt : Begins (fun st ps => ps = st.onsets) (stmt names block) s := by
  rw [stmt, begins_currentKind_bind]
  split
  next k hk =>
    have hs : isPlain s.kind := by rw [hk]; rfl
    unfold keywordStmt?
    split
    next => exact begins_branchStmt hblock hs
    next => exact begins_repeatStmt hblock hs
    next => exact begins_repeatStmt hblock hs
    next => exact begins_countStmt hblock hs
    next =>
      refine begins_plainStmt (reads_leaveStmt hs) (outcome_then fun _ _ => ?_)
      rw [outcome_bind, outcome_currentKind]
      split
      next => exact outcome_then fun _ _ => outcome_then fun _ _ => rfl
      next => exact outcome_then fun _ _ => outcome_then fun _ _ => rfl
    next =>
      refine begins_plainStmt (reads_stopStmt hs) (outcome_then fun _ _ => outcome_then fun _ _ =>
        outcome_then fun _ _ => ?_)
      split
      next => exact outcome_then fun _ _ => rfl
      next => rfl
    next =>
      exact begins_plainStmt (reads_printStmt hs) (outcome_then fun _ _ => outcome_then fun _ _ =>
        outcome_then fun _ _ => rfl)
    next => exact begins_current_bind.2 (begins_failHere _)
  next =>
    rw [begins_declarationAhead_bind]
    split
    next => exact begins_declaration.result fun d ps hps => hps.trans (List.append_nil _).symm
    next => exact begins_placeStmt
  next => exact begins_placeStmt
  next => exact begins_current_bind.2 (begins_failHere _)

end Blocks

theorem onsets_stmtsSetters (sts : List Stmt) :
    (stmtsSetters sts).flatMap Setter.onsets = sts.flatMap Stmt.onsets := by
  induction sts with
  | nil => rw [stmtsSetters]; rfl
  | cons st sts ih =>
    rw [stmtsSetters, List.flatMap_append, ih]
    rfl

theorem begins_blockOf {stmt : Parse Stmt}
    (hstmt : ∀ t, Begins (fun st ps => ps = st.onsets) stmt t) :
    Begins (fun b ps => ps = b.onsets) (blockOf stmt) s := by
  refine (shrinks_expectSymbol _).andBegins fun start t => ?_
  refine Begins.bind (begins_many fun t _ =>
    begins_recovering (hstmt t) skipStatement_suffix) fun body t ps hps => ?_
  refine (shrinks_expectSymbol _).begins.result fun stop qs hqs => ?_
  rw [hps, hqs, List.append_nil, flatMap_filterMap_id, Block.onsets, Block.setters,
    onsets_stmtsSetters]

theorem begins_stmtWithin (n : Nat) :
    Begins (fun st ps => ps = st.onsets) (stmtWithin names n) s := by
  induction n generalizing s with
  | zero => exact begins_current_bind.2 (begins_failHere _)
  | succ n ih => exact begins_stmt fun _ => begins_blockOf fun _ => ih

theorem begins_codeBlock : Begins (fun b ps => ps = b.onsets) (codeBlock names) s :=
  begins_blockOf fun _ => begins_bound_bind.2 (begins_stmtWithin _)

/-! ### Items -/

theorem begins_param : Begins (fun q ps => ps = [q.onset]) (param names) s := by
  refine begins_expectName.bind fun name t ps hps => ?_
  refine (shrinks_expectSymbol _).andBegins fun _ t => ?_
  have htype : Reads Shrinks 1 (dataType names) t := reads_dataType names
  refine htype.andBegins fun type t => begins_spanBefore_bind.2 (begins_pure ?_)
  rw [hps]
  rfl

theorem begins_params : Begins (fun qs ps => ps = qs.map Param.onset) (params names) s := by
  refine (shrinks_expectSymbol _).andBegins fun _ t => ?_
  refine (begins_listTo fun _ => begins_param).result fun x ps hps => ?_
  rw [hps, List.map_eq_flatMap]

theorem begins_function : Begins (fun f ps => ps = f.onsets) (function names) s := by
  have hstart : Reads Shrinks 1 (expectKeyword .fwunc) s := (reads_expect rfl).result _
  refine hstart.andBegins fun start t => ?_
  have hname : Reads Shrinks 1 functionName t := reads_functionName
  refine hname.andBegins fun name t => (shrinks_expectSymbol _).andBegins fun _ t => ?_
  have htype : Reads Shrinks 1 (dataType names) t := reads_dataType names
  refine htype.andBegins fun type t => begins_params.bind fun qs t ps hps => ?_
  refine begins_codeBlock.result fun body rs hrs => ?_
  rw [hps, hrs]
  rfl

theorem begins_global : Begins (fun d ps => ps = (Setter.declare d).onsets) (global names) s := by
  have hstart : Reads Shrinks 1 (expectKeyword .gwobaw) s := (reads_expect rfl).result _
  exact hstart.andBegins fun start t => begins_declaration.result fun d ps hps => hps

theorem begins_classMember : Begins (fun m ps => ps = m.onsets) (classMember names) s := by
  rw [classMember, begins_currentKind_bind]
  split
  next => exact begins_function.result fun f ps hps => hps
  next =>
    rw [begins_declarationAhead_bind]
    split
    next => exact begins_declaration.result fun d ps hps => hps
    next => exact begins_failUnexpected _

/-- A class keeps its properties and its methods apart. -/
theorem onsets_members (ms : List Member) :
    (propertyOnsets (ms.filterMap Member.property?) ++
      (ms.filterMap Member.method?).flatMap Function.onsets).Perm (ms.flatMap Member.onsets) := by
  have hsorts := (members_perm ms).flatMap_right Member.onsets
  rw [List.flatMap_append, List.flatMap_map, List.flatMap_map] at hsorts
  exact hsorts

theorem begins_classItem : Begins (fun c ps => ps = c.onsets) (classItem names) s := by
  have hsorted : Begins (fun c ps => ps.Perm c.onsets) (classItem names) s := by
    have hstart : Reads Shrinks 1 (expectKeyword .cwass) s := (reads_expect rfl).result _
    refine hstart.andBegins fun start t => shrinks_className.andBegins fun ⟨name, type⟩ t => ?_
    refine begins_params.bind fun qs t ps hps => (shrinks_expectSymbol _).andBegins fun _ t => ?_
    refine Begins.bind (begins_many fun t _ =>
      begins_recovering begins_classMember skipStatement_suffix) fun members t rs hrs => ?_
    refine (shrinks_expectSymbol _).begins.result fun stop us hus => ?_
    rw [hps, hrs, hus, List.append_nil, flatMap_filterMap_id]
    exact (onsets_members _).symm.append_left _
  exact hsorted.mono fun c ps hps => ⟨c.onsets, hps.symm, rfl⟩

theorem begins_item : Begins (fun i ps => ps = i.onsets) (item names) s := by
  rw [item, begins_currentKind_bind]
  split
  next => exact begins_global.result fun d ps hps => hps
  next => exact begins_classItem.result fun c ps hps => hps
  next =>
    rw [begins_nextKind_bind]
    refine begins_function.result fun f ps hps => ?_
    split <;> exact hps
  next => exact begins_current_bind.2 (begins_failHere _)

theorem Rounds.onsets {b : Bool} {u : State} {is : List Item} (h : Rounds names b s is u) :
    (is.flatMap Item.onsets ++ u.starts).Subperm s.starts := by
  have hcons {i : Item} {is : List Item} {s t u : State} (hi : item names s = .ok i t)
      (ih : (is.flatMap Item.onsets ++ u.starts).Subperm t.starts) :
      ((i :: is).flatMap Item.onsets ++ u.starts).Subperm s.starts := by
    obtain ⟨ps, rfl, ht⟩ := Outcome.of_ok begins_item hi
    rw [List.flatMap_cons, List.append_assoc]
    exact ((List.subperm_append_left _).2 ih).trans ht
  induction h with
  | stop => exact .refl _
  | entry hi _ _ ih => exact hcons hi ih
  | other hi _ _ _ ih => exact hcons hi ih

end Statements

end Grammar

/-! ### Programs -/

open Grammar

namespace Program

variable (p : Program)

def onsets : List Position :=
  propertyOnsets p.globals ++
    (p.functionsAndEntry.flatMap Function.onsets ++ p.classes.flatMap Class.onsets)

variable {p}

theorem onsets_ofTokens {tokens : List Token} {names : Names}
    (h : Program.ofTokens tokens names = .ok p) :
    p.onsets.Subperm (State.ofTokens tokens).starts := by
  obtain ⟨is, u, hrounds, hperm⟩ := Program.items_ofTokens h
  have hperm := hperm.flatMap_right Item.onsets
  simp only [List.flatMap_append, List.flatMap_map, List.flatMap_singleton] at hperm
  have hsorts : p.onsets.Perm (is.flatMap Item.onsets) := by
    refine .trans (.append_left _ ?_) hperm
    rw [functionsAndEntry, List.flatMap_append, List.flatMap_singleton, List.append_assoc]
    exact List.perm_append_comm.append_left _
  exact (List.sublist_append_left _ u.starts).subperm.trans
    (((hsorts.append_right _).subperm_right).2 hrounds.onsets)

/-- In a text that is parsed no two of these places are the same. -/
theorem nodup_onsets {lines : List String} {names known : Names}
    (h : Program.ofTokens (Lexed.ofLines lines names).tokens known = .ok p) : p.onsets.Nodup := by
  have hstarts : (State.ofTokens (Lexed.ofLines lines names).tokens).starts.Nodup :=
    (Lexed.sound_ofLines lines names).1.starts.imp fun {q r} hlt heq => by
      rw [heq, Position.lt_def] at hlt
      omega
  obtain ⟨ps, hperm, hsub⟩ := onsets_ofTokens h
  exact hperm.nodup_iff.1 (hsub.nodup hstarts)

/-! ### Values and variables -/

theorem sublist_setters (p : Program) : (p.setters.flatMap Setter.onsets).Sublist p.onsets := by
  have hfunction (f : Function) : (f.body.setters.flatMap Setter.onsets).Sublist f.onsets :=
    List.sublist_append_right _ _
  have hclass (c : Class) : (c.setters.flatMap Setter.onsets).Sublist c.onsets := by
    rw [Class.setters, List.flatMap_append, List.flatMap_map, List.flatMap_assoc]
    exact ((List.Sublist.refl _).append (List.Sublist.flatMap_right _ fun f _ => hfunction f)).trans
      (List.sublist_append_right _ _)
  rw [setters, List.flatMap_append, List.flatMap_append, List.flatMap_map, List.flatMap_assoc,
    List.flatMap_assoc]
  exact (List.Sublist.refl _).append ((List.Sublist.flatMap_right _ fun f _ => hfunction f).append
    (List.Sublist.flatMap_right _ fun c _ => hclass c))

theorem sublist_values (p : Program) :
    (p.values.map fun e => e.span.start).Sublist p.onsets := by
  rw [values, List.filterMap_eq_flatMap_toList, List.map_flatMap]
  refine .trans (List.Sublist.flatMap_right _ fun x _ => ?_) (sublist_setters p)
  rw [Setter.onsets, ← Option.toList_map]
  exact List.sublist_append_right _ _

theorem sublist_variableSites (p : Program) :
    (p.variableSites.map Span.start).Sublist p.onsets := by
  have hproperties (ds : List Declaration) :
      ((ds.map fun d => d.name.span).map Span.start).Sublist (propertyOnsets ds) := by
    rw [List.map_map, List.map_eq_flatMap]
    exact List.Sublist.flatMap_right _ fun d _ => List.sublist_append_left _ _
  have hparams (qs : List Param) :
      ((qs.map fun q => q.name.span).map Span.start) = qs.map Param.onset := List.map_map
  have hfunction (f : Function) : (f.variableSites.map Span.start).Sublist f.onsets := by
    rw [Function.variableSites, List.map_append, hparams, List.filterMap_eq_flatMap_toList,
      List.map_flatMap]
    refine (List.Sublist.refl _).append (List.Sublist.flatMap_right _ fun x _ => ?_)
    rw [Setter.onsets, Option.toList_map]
    exact List.sublist_append_left _ _
  have hclass (c : Class) : (c.variableSites.map Span.start).Sublist c.onsets := by
    rw [Class.variableSites, List.map_append, List.map_append, hparams, List.map_flatMap]
    exact (List.Sublist.refl _).append ((hproperties _).append
      (List.Sublist.flatMap_right _ fun f _ => hfunction f))
  rw [variableSites, List.map_append, List.map_append, List.map_flatMap, List.map_flatMap]
  exact (hproperties _).append ((List.Sublist.flatMap_right _ fun f _ => hfunction f).append
    (List.Sublist.flatMap_right _ fun c _ => hclass c))

section Nodup

variable {lines : List String} {names known : Names}
  (h : Program.ofTokens (Lexed.ofLines lines names).tokens known = .ok p)
include h

/-- No two values of a program have one span. -/
theorem nodup_values : (p.values.map Expr.span).Nodup := by
  refine List.Nodup.of_map Span.start ?_
  rw [List.map_map]
  exact (sublist_values p).nodup (nodup_onsets h)

/-- No two variables of a program have one site. -/
theorem nodup_variableSites : p.variableSites.Nodup :=
  List.Nodup.of_map Span.start ((sublist_variableSites p).nodup (nodup_onsets h))

end Nodup

end Program

end Uwu
