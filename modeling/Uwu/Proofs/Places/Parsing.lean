import Uwu.Proofs.Places.Stretches

/-! Every parser locates: the tree that it makes lies on the tokens that it reads. -/

namespace Uwu.Grammar

variable {o : Stream} {k l m : Nat}

/-! ### Expressions -/

theorem locates_literal : Locates o Expr.spans literal := by
  refine fun k => .advance ?_
  cases literalOf? (o.token k) with
  | some value => exact .pure (stretches_cons.2 ⟨stretch_token o k, stretches_nil⟩)
  | none => exact .throw ((stretch_token o k).along rfl)

theorem segmentSpans_textSegment (first last : Char) (t : Token) :
    segmentSpans (textSegment first last t) = [] := by
  unfold textSegment
  split <;> rfl

section Expressions

variable {expr : Power → Parse Expr} (hexpr : ∀ power, Locates o Expr.spans (expr power))
include hexpr

theorem locates_segments (n : Nat) :
    Locates o (fun r => r.2 :: segmentSpans r.1) (segments expr n) := by
  induction n with
  | zero => exact fun k => .failExpected
  | succ n ih =>
    refine fun k => (hexpr .lowest k).bind fun e l hl he => .currentKind ?_
    split
    next =>
      refine .advance ((ih (l + 1)).bind fun r m hm hr => .pure ?_)
      obtain ⟨hstop, hrest⟩ := stretches_cons.1 hr
      simp only [segmentSpans, segmentSpans_append, segmentSpans_textSegment, List.nil_append,
        stretches_cons, stretches_append]
      exact ⟨hstop.down (by omega), he.up (by omega), hrest.down (by omega)⟩
    next =>
      refine .advance (.pure ?_)
      simp only [segmentSpans, segmentSpans_textSegment, List.append_nil, stretches_cons]
      exact ⟨(stretch_token o l).down hl, he.up l.le_succ⟩
    next => exact .failExpected

theorem locates_format : Locates o Expr.spans (format expr) := by
  refine fun k => .advance (.bound fun n => (locates_segments hexpr n (k + 1)).bind
    fun r l hl hr => .pure ?_)
  obtain ⟨hstop, hrest⟩ := stretches_cons.1 hr
  simp only [Expr.spans, segmentSpans_append, segmentSpans_textSegment, List.nil_append,
    stretches_cons]
  exact ⟨(stretch_token o k).through hstop, hrest.down k.le_succ⟩

theorem locates_input : Locates o Expr.spans (input expr) := by
  refine fun k => .advance (goes_expectSymbol.bind fun _ l hl _ => ?_)
  have hclose {prompt : Option Expr} {m : Nat} (hm : l ≤ m)
      (h : Stretches o l m ((prompt.map Expr.spans).getD [])) :
      Goes o m (do
        let stop ← expectSymbol .closeParen
        return Expr.input prompt ((o.token k).span.through stop))
        fun e n => Stretches o k n e.spans := by
    refine goes_expectSymbol.result fun stop n hn hstop => ?_
    have hspan := (stretch_token o k).through (hstop.down (Nat.le_trans hl hm))
    cases prompt with
    | none => exact stretches_cons.2 ⟨hspan, stretches_nil⟩
    | some e => exact stretches_cons.2 ⟨hspan, h.mono (by omega) hn⟩
  refine .currentKind ?_
  split
  next => exact hclose (Nat.le_refl l) stretches_nil
  next => exact ((hexpr .lowest).some l).bind fun prompt m hm h => hclose hm h

theorem locates_exprs (close : Symbol) :
    Locates o (fun r => r.2 :: exprSpans r.1) (listTo close (expr .lowest)) := by
  simpa only [exprSpans_eq] using locates_listTo (hexpr .lowest)

theorem locates_array : Locates o Expr.spans (array expr) := by
  refine fun k => .advance ((locates_exprs hexpr .closeBrace (k + 1)).result fun r l hl hr => ?_)
  obtain ⟨hstop, hes⟩ := stretches_cons.1 hr
  exact stretches_cons.2 ⟨(stretch_token o k).through hstop, hes.down k.le_succ⟩

theorem locates_grouping : Locates o Expr.spans (grouping expr) := by
  refine fun k => .advance ((hexpr .lowest (k + 1)).bind fun e l hl he => ?_)
  exact goes_expectSymbol.result fun _ m hm _ => he.mono k.le_succ hm

theorem locates_args : Locates o (fun r => r.2 :: exprSpans r.1) (args expr) := by
  refine fun k => goes_expectSymbol.bind fun _ l hl _ => ?_
  exact (locates_exprs hexpr .closeParen l).mono fun r m hm hr => hr.down hl

theorem locates_index : Locates o (fun r => r.2 :: r.1.spans) (index expr) := by
  refine fun k => .advance ((hexpr .lowest (k + 1)).bind fun e l hl he => ?_)
  refine goes_expectSymbol.result fun stop m hm hstop => stretches_cons.2 ?_
  exact ⟨hstop.down (by omega), he.mono k.le_succ hm⟩

/-! ### Access paths -/

theorem locates_link : Locates o Link.spans (link expr) := by
  refine fun k => goes_expectName.bind fun name l hl hname => .currentKind ?_
  split
  next =>
    refine (locates_args hexpr l).result fun r m hm hr => ?_
    obtain ⟨hstop, hes⟩ := stretches_cons.1 hr
    simp only [Link.spans, stretches_cons]
    exact ⟨hname.up hm, hname.through hstop, hes.down hl⟩
  next =>
    refine (locates_many (locates_index hexpr) l).result fun indices m hm hr => ?_
    rw [stretches_flatMap] at hr
    have hspan : Stretch o k m
        (name.span.through ((indices.getLast?.map Prod.snd).getD name.span)) := by
      cases hlast : indices.getLast? with
      | none => exact hname.up hm
      | some r => exact hname.through (stretches_cons.1 (hr r (List.mem_of_getLast? hlast))).1
    simp only [Link.spans, stretches_cons, exprSpans_eq, stretches_flatMap, List.forall_mem_map]
    exact ⟨hname.up hm, hspan, fun r h => (stretches_cons.1 (hr r h)).2.down hl⟩
  next => exact .pure (stretches_cons.2 ⟨hname, stretches_nil⟩)

theorem locates_construction : Locates o Place.spans (construction expr) := by
  refine fun k => .advance (.currentKind ?_)
  split
  next =>
    refine (locates_args hexpr (k + 1)).result fun r l hl hr => ?_
    obtain ⟨hstop, hes⟩ := stretches_cons.1 hr
    have ht := stretch_token o k
    simp only [Place.spans, stretches_cons]
    exact ⟨ht.up hl, ht.through hstop, hes.down k.le_succ⟩
  next => exact .failExpected

theorem locates_member : Locates o Link.spans (member expr) :=
  fun k => .advance ((locates_link hexpr (k + 1)).mono fun _ _ _ h => h.down k.le_succ)

omit hexpr in
/-- However many members a path gets, it starts where it did, and so before each of them. -/
theorem stretches_addMember {x : Span} (hx : Stretch o k l x) {members : List Link}
    (hm : Stretches o l m (members.flatMap Link.spans)) (hl : k ≤ l) {p : Place}
    (hstart : p.span.start = x.start) (hp : Stretches o k m p.spans) :
    Stretches o k m (members.foldl addMember p).spans := by
  induction members generalizing p with
  | nil => exact hp
  | cons link members ih =>
    obtain ⟨hlink, hmembers⟩ := stretches_append.1 hm
    have hspan : Stretch o k m (p.span.through link.span) := by
      have hthrough := hx.through (hlink _ link.span_mem_spans)
      rwa [Span.through, ← hstart] at hthrough
    refine ih hmembers hstart ?_
    simp only [addMember, Place.spans, stretches_cons, stretches_append]
    exact ⟨hspan, hp, hlink.down hl⟩

theorem locates_place : Locates o Place.spans (place expr) := by
  intro k
  have hmembers (first : Place) (l : Nat) (hl : k ≤ l) (hfirst : Stretches o k l first.spans) :
      Goes o l (do
        let members ← many (· == .symbol .dot) (member expr)
        return members.foldl addMember first) fun p m => Stretches o k m p.spans := by
    refine (locates_many (locates_member hexpr) l).result fun members m hm h => ?_
    exact stretches_addMember (hfirst _ first.span_mem_spans) h hl rfl (hfirst.up hm)
  refine .currentKind ?_
  split
  next => exact (locates_construction hexpr k).bind hmembers
  next => exact (Goes.map (locates_link hexpr k)).bind hmembers

/-! ### Operators -/

theorem locates_prefixed (op : PrefixOp) : Locates o Expr.spans (prefixed expr op) := by
  refine fun k => .advance ((hexpr .prefixed (k + 1)).result fun e l hl he => ?_)
  have ht := stretch_token o k
  simp only [Expr.spans, stretches_cons]
  exact ⟨ht.up hl, ht.through (he _ e.span_mem_spans), he.down k.le_succ⟩

theorem locates_operand? {kind : Kind} {p : Parse Expr} (h : operand? expr kind = some p) :
    Locates o Expr.spans p := by
  unfold operand? at h
  split at h
  case h_7 => cases h; exact locates_input hexpr
  case h_8 => cases h; exact locates_format hexpr
  case h_9 => cases h; exact locates_array hexpr
  case h_10 => cases h; exact locates_grouping hexpr
  case h_11 | h_12 => cases h; exact fun k => .map (locates_place hexpr k)
  case h_13 =>
    obtain ⟨op, -, rfl⟩ := Option.map_eq_some_iff.1 h
    exact locates_prefixed hexpr op
  all_goals cases h; exact locates_literal

theorem locates_operand : Locates o Expr.spans (operand expr) := by
  refine fun k => .currentKind ?_
  split
  next p h => exact locates_operand? hexpr h k
  next => exact .failUnexpected

/-- The operand to the left was read from `k` on. -/
theorem goes_operators (power : Power) (n : Nat) {left : Expr} (hk : k ≤ l)
    (hleft : Stretches o k l left.spans) :
    Goes o l (operators expr power n left) fun e m => Stretches o k m e.spans := by
  induction n generalizing l left with
  | zero => exact .pure hleft
  | succ n ih =>
    have ht := stretch_token o l
    have hspan := hleft _ left.span_mem_spans
    refine .current ?_
    split
    next => exact .pure hleft
    next =>
      split
      next op _ =>
        refine .advance ((hexpr op.power (l + 1)).bind fun right m hm hright => ih (by omega) ?_)
        simp only [Expr.spans, stretches_cons, stretches_append]
        exact ⟨ht.mono hk hm, hspan.through ((hright _ right.span_mem_spans).down l.le_succ),
          hleft.up (by omega), hright.down (by omega)⟩
      next =>
        refine .advance ?_
        split
        next p =>
          refine ih (by omega) ?_
          simp only [Expr.spans, stretches_cons]
          exact ⟨ht.down hk, hspan.through ht, hleft.up l.le_succ⟩
        next => exact .throw (ht.along rfl)
      next => exact .failHere rfl

end Expressions

theorem locates_exprWithin (n : Nat) (power : Power) :
    Locates o Expr.spans (exprWithin n power) := by
  induction n generalizing power with
  | zero => exact fun k => .failUnexpected
  | succ n ih =>
    refine fun k => (locates_operand ih k).bind fun left l hl hleft => .bound fun n => ?_
    exact goes_operators ih power n hl hleft

theorem locates_expression (power : Power) : Locates o Expr.spans (expression power) :=
  fun k => .bound fun n => locates_exprWithin n power k

/-! ### Types and declarations -/

variable (names : Names)

/-- A type has no spans. -/
theorem goes_dataType {k : Nat} : Goes o k (dataType names) fun _ _ => True := by
  have hunit : Goes o k (unitType names) fun _ _ => True := by
    refine .current ?_
    split
    next => exact .advance (.pure trivial)
    next => exact .failExpected
  have hdimension : Locates o (fun _ => []) dimension := by
    refine fun l => .advance (goes_expectSymbol.result fun _ _ _ _ => ?_)
    exact stretches_nil
  exact hunit.bind fun _ l _ _ => (locates_many hdimension l).result fun _ _ _ _ => trivial

theorem goes_constMark : Goes o k constMark fun _ _ => True := by
  refine .currentKind (.nextKind fun kind => ?_)
  split
  next => exact .advance (.advance (.pure trivial))
  next => exact .pure trivial

theorem locates_declaration : Locates o Declaration.spans (declaration names) := by
  intro k
  refine goes_expectName.bind fun name l hl hname => ?_
  refine goes_expectSymbol.bind fun _ l₁ h₁ _ => (goes_dataType names).bind fun type l₂ h₂ _ => ?_
  refine goes_constMark.bind fun isConst l₃ h₃ _ => ?_
  have hrest (value : Option Expr) {m : Nat} (hm : l₃ ≤ m)
      (h : Stretches o k m ((value.map Expr.spans).getD [])) :
      Goes o m (do
        let stop ← expectSymbol .terminator
        if isConst && value.isNone then record ⟨.constantWithoutValue name.value, name.span⟩
        return (⟨name, type, isConst, value, name.span.through stop⟩ : Declaration))
        fun d n => Stretches o k n d.spans := by
    refine goes_expectSymbol.bind fun stop n hn hstop => ?_
    have hspans : Stretches o k n
        (⟨name, type, isConst, value, name.span.through stop⟩ : Declaration).spans := by
      simp only [Declaration.spans, stretches_cons]
      exact ⟨hname.up (by omega), hname.through (hstop.down (by omega)), h.up hn⟩
    split
    next => exact .record (hname.along rfl) (.pure hspans)
    next => exact .pure hspans
  refine .currentKind ?_
  split
  next =>
    refine .advance (((locates_expression .lowest).some (l₃ + 1)).bind fun value m hm h => ?_)
    exact hrest value (by omega) (h.down (by omega))
  next => exact hrest none (Nat.le_refl l₃) stretches_nil

/-! ### Simple statements -/

/-- The target was read from `k` on. -/
theorem goes_assignmentTo {target : Place} {op : AssignOp} (hk : k ≤ l)
    (h : Stretches o k l target.spans) :
    Goes o l (assignmentTo target op) fun a m => Stretches o k m a.spans := by
  have hspan := h _ target.span_mem_spans
  unfold assignmentTo
  split
  next =>
    refine .advance ((locates_expression .lowest (l + 1)).result fun value m hm hvalue => ?_)
    simp only [Assignment.spans, stretches_cons, stretches_append]
    exact ⟨(stretch_token o l).mono hk hm,
      hspan.through ((hvalue _ value.span_mem_spans).down l.le_succ),
      h.up (by omega), hvalue.down (by omega)⟩
  next => exact .current (.throw (hspan.along rfl))

theorem locates_placeStmt : Locates o Stmt.spans placeStmt := by
  refine fun k => (locates_place locates_expression k).bind fun target l hl htarget => ?_
  have hspan := htarget _ target.span_mem_spans
  refine .currentKind ?_
  split
  next =>
    refine (goes_assignmentTo hl htarget).bind fun a m hm ha => ?_
    refine goes_expectSymbol.result fun stop n hn hstop => ?_
    simp only [Assignment.spans, stretches_cons, stretches_append] at ha
    obtain ⟨hop, haspan, hat, hav⟩ := ha
    simp only [Stmt.spans, Assignment.spans, stretches_cons, stretches_append]
    exact ⟨hop.up hn, haspan.through hstop, hat.up hn, hav.up hn⟩
  next =>
    have ht := stretch_token o l
    refine .advance (goes_expectSymbol.result fun stop n hn hstop => ?_)
    simp only [Stmt.spans, Expr.spans, stretches_cons]
    exact ⟨(hspan.through ht).through hstop, ht.mono hl hn, (hspan.through ht).up hn,
      htarget.up (by omega)⟩
  next =>
    split
    next => exact .failUnexpected
    next =>
      refine goes_expectSymbol.result fun stop n hn hstop => ?_
      simp only [Stmt.spans, Expr.spans, stretches_cons]
      exact ⟨hspan.through hstop, htarget.up hn⟩

theorem locates_printStmt : Locates o Stmt.spans printStmt := by
  refine fun k => .advance ((locates_args locates_expression (k + 1)).bind fun r l hl hr => ?_)
  refine goes_expectSymbol.result fun stop m hm hstop => stretches_cons.2 ?_
  exact ⟨(stretch_token o k).through (hstop.down hl),
    (stretches_cons.1 hr).2.mono k.le_succ hm⟩

theorem locates_leaveStmt : Locates o Stmt.spans leaveStmt := by
  refine fun k => .advance ?_
  have hrest (value : Option Expr) {l : Nat} (hl : k + 1 ≤ l)
      (h : Stretches o k l ((value.map Expr.spans).getD [])) :
      Goes o l (do
        let stop ← expectSymbol .terminator
        return Stmt.leave value ((o.token k).span.through stop))
        fun st m => Stretches o k m st.spans := by
    refine goes_expectSymbol.result fun stop m hm hstop => stretches_cons.2 ?_
    exact ⟨(stretch_token o k).through (hstop.down hl), h.up hm⟩
  refine .currentKind ?_
  split
  next => exact hrest none (Nat.le_refl _) stretches_nil
  next =>
    refine ((locates_expression .lowest).some (k + 1)).bind fun value l hl h => ?_
    exact hrest value hl (h.down k.le_succ)

theorem locates_stopStmt : Locates o Stmt.spans stopStmt := by
  refine fun k => .advance (goes_expectSymbol.bind fun stop l hl hstop => .isLooping fun b => ?_)
  have ht := stretch_token o k
  have hspans : Stretches o k l (Stmt.stop ((o.token k).span.through stop)).spans :=
    stretches_cons.2 ⟨ht.through hstop, stretches_nil⟩
  split
  next => exact .record (ht.along rfl) (.pure hspans)
  next => exact .pure hspans

/-! ### Statements with blocks -/

theorem locates_condition : Locates o Expr.spans condition := by
  refine fun k => goes_expectSymbol.bind fun _ l hl _ => ?_
  refine (locates_expression .lowest l).bind fun e m hm he => ?_
  exact goes_expectSymbol.result fun _ n hn _ => he.mono hl hn

theorem locates_loopStart : Locates o LoopStart.spans (loopStart names) := by
  refine fun k => .declarationAhead fun b => ?_
  split
  next => exact (locates_declaration names k).result fun _ _ _ h => h
  next =>
    refine (locates_place locates_expression k).bind fun target l hl htarget => .currentKind ?_
    split
    next =>
      refine (goes_assignmentTo hl htarget).bind fun a m hm ha => ?_
      exact goes_expectSymbol.result fun _ n hn _ => ha.up hn
    next => exact .failExpected

theorem locates_loopUpdate : Locates o LoopUpdate.spans loopUpdate := by
  refine fun k => (locates_place locates_expression k).bind fun target l hl htarget => ?_
  refine .currentKind ?_
  split
  next => exact (goes_assignmentTo hl htarget).result fun _ _ _ h => h
  next =>
    have ht := stretch_token o l
    refine .advance (.pure ?_)
    simp only [LoopUpdate.spans, stretches_cons]
    exact ⟨ht.down hl, (htarget _ target.span_mem_spans).through ht, htarget.up l.le_succ⟩
  next => exact .failExpected

theorem goes_failNoStmt {Q : Stmt → Nat → Prop} : Goes o k failNoStmt Q :=
  .current (.failHere rfl)

section Blocks

variable {block : Parse Block} (hblock : Locates o Block.spans block)
include hblock

theorem locates_elseIf : Locates o ElseIf.spans (elseIf block) := by
  refine fun k => .advance ((locates_condition (k + 1)).bind fun e l hl he => ?_)
  refine (hblock l).result fun body m hm hbody => ?_
  have hspan := (hbody _ body.span_mem_spans).down hl
  simp only [ElseIf.spans, stretches_cons, stretches_append]
  exact ⟨(stretch_token o k).through hspan, he.mono k.le_succ hm, hbody.down (by omega)⟩

theorem locates_elseBlock :
    Locates o (fun b => (b.map Block.spans).getD []) (elseBlock block) := by
  refine fun k => .currentKind ?_
  split
  next => exact .advance ((hblock.some (k + 1)).mono fun _ _ _ h => h.down k.le_succ)
  next => exact .pure stretches_nil

theorem locates_branchStmt : Locates o Stmt.spans (branchStmt block) := by
  refine fun k => .advance ((locates_condition (k + 1)).bind fun e l₁ h₁ he => ?_)
  refine (hblock l₁).bind fun body l₂ h₂ hbody => ?_
  refine (locates_many (locates_elseIf hblock) l₂).bind fun elseIfs l₃ h₃ helseIfs => ?_
  refine (locates_elseBlock hblock l₃).result fun elseBody m hm helse => ?_
  have hstop : Stretch o (k + 1) m
      ((elseBody.map Block.span).getD ((elseIfs.getLast?.map ElseIf.span).getD body.span)) := by
    cases elseBody with
    | some b => exact (helse _ b.span_mem_spans).down (by omega)
    | none =>
      cases hlast : elseIfs.getLast? with
      | some e =>
        have hlastSpans := stretches_flatMap.1 helseIfs e (List.mem_of_getLast? hlast)
        exact (stretches_cons.1 hlastSpans).1.mono (by omega) hm
      | none => exact (hbody _ body.span_mem_spans).mono h₁ (by omega)
  have hspan := (stretch_token o k).through hstop
  rw [Stmt.spans_branch]
  simp only [stretches_cons, stretches_append]
  exact ⟨hspan, ⟨⟨he.mono k.le_succ (by omega), hbody.mono (by omega) (by omega)⟩,
    helseIfs.mono (by omega) hm⟩, helse.down (by omega)⟩

theorem locates_repeatStmt : Locates o Stmt.spans (repeatStmt block) := by
  refine fun k => .advance ((locates_condition (k + 1)).bind fun e l hl he => ?_)
  refine (hblock l).insideLoop.result fun body m hm hbody => ?_
  have hspan := (hbody _ body.span_mem_spans).down hl
  simp only [Stmt.spans, stretches_cons, stretches_append]
  exact ⟨(stretch_token o k).through hspan, he.mono k.le_succ hm, hbody.down (by omega)⟩

theorem locates_countStmt : Locates o Stmt.spans (countStmt names block) := by
  refine fun k => .advance (goes_expectSymbol.bind fun _ l₀ h₀ _ => ?_)
  refine (locates_loopStart names l₀).bind fun start l₁ h₁ hstart => ?_
  refine (locates_expression .lowest l₁).bind fun e l₂ h₂ he => ?_
  refine goes_expectSymbol.bind fun _ l₃ h₃ _ => ?_
  refine (locates_loopUpdate l₃).bind fun update l₄ h₄ hupdate => ?_
  refine goes_expectSymbol.bind fun _ l₅ h₅ _ => ?_
  refine (hblock l₅).insideLoop.result fun body m hm hbody => ?_
  have hspan : Stretch o (k + 1) m body.span := (hbody _ body.span_mem_spans).down (by omega)
  simp only [Stmt.spans, stretches_cons, stretches_append]
  exact ⟨(stretch_token o k).through hspan,
    ⟨⟨hstart.mono (by omega) (by omega), he.mono (by omega) (by omega)⟩,
      hupdate.mono (by omega) (by omega)⟩, hbody.down (by omega)⟩

theorem locates_keywordStmt (keyword : Keyword) :
    Locates o Stmt.spans ((keywordStmt? names block keyword).getD failNoStmt) := by
  unfold keywordStmt?
  split
  next => exact locates_branchStmt hblock
  next => exact locates_repeatStmt hblock
  next => exact locates_repeatStmt hblock
  next => exact locates_countStmt names hblock
  next => exact locates_leaveStmt
  next => exact locates_stopStmt
  next => exact locates_printStmt
  next => exact fun k => goes_failNoStmt

theorem locates_stmt : Locates o Stmt.spans (stmt names block) := by
  refine fun k => .currentKind ?_
  split
  next keyword => exact locates_keywordStmt names hblock _ k
  next =>
    refine .declarationAhead fun b => ?_
    split
    next => exact (locates_declaration names k).result fun _ _ _ h => h
    next => exact locates_placeStmt k
  next => exact locates_placeStmt k
  next => exact goes_failNoStmt

end Blocks

theorem locates_blockOf {stmt : Parse Stmt} (h : Locates o Stmt.spans stmt) :
    Locates o Block.spans (blockOf stmt) := by
  refine fun k => goes_expectSymbol.bind fun start l hl hstart => ?_
  refine (locates_many (locates_recovering h skips_skipStatement) l).bind fun body m hm hbody => ?_
  refine goes_expectSymbol.result fun stop n hn hstop => ?_
  simp only [Block.spans, stretches_cons, stmtSpans_eq, ← flatMap_filterMap_id]
  exact ⟨hstart.through (hstop.down hm), hbody.mono hl hn⟩

theorem locates_stmtWithin (n : Nat) : Locates o Stmt.spans (stmtWithin names n) := by
  induction n with
  | zero => exact fun k => goes_failNoStmt
  | succ n ih => exact locates_stmt names (locates_blockOf ih)

theorem locates_codeBlock : Locates o Block.spans (codeBlock names) :=
  locates_blockOf fun k => .bound fun n => locates_stmtWithin names n k

/-! ### Functions and classes -/

theorem locates_param : Locates o Param.spans (param names) := by
  refine fun k => goes_name.bind fun name l _ ⟨hname, hl, hkind⟩ => ?_
  refine goes_expectSymbol.bind fun _ l₁ h₁ _ => (goes_dataType names).bind fun type m hm _ => ?_
  have hprevious : Stretch o k m (Stream.advance^[m] o).previous :=
    Stream.previous_advance hkind (by omega)
  refine .spanBefore (.pure ?_)
  simp only [Param.spans, hname, stretches_cons]
  exact ⟨(stretch_token o k).up (by omega), hprevious.through_token, stretches_nil⟩

theorem locates_params : Locates o (fun ps => ps.flatMap Param.spans) (params names) := by
  refine fun k => goes_expectSymbol.bind fun _ l hl _ => ?_
  refine (locates_listTo (locates_param names) l).result fun r m hm hr => ?_
  exact (stretches_cons.1 hr).2.down hl

theorem goes_functionName : Goes o k functionName fun n l => Stretch o k l n.span := by
  refine .currentKind ?_
  split
  next => exact .advance (.pure (stretch_token o k))
  next => exact goes_expectName

theorem locates_function : Locates o Function.spans (function names) := by
  refine fun k => goes_expectKeyword.bind fun start l₀ h₀ hstart => ?_
  refine goes_functionName.bind fun name l₁ h₁ hname => goes_expectSymbol.bind fun _ l₂ h₂ _ => ?_
  refine (goes_dataType names).bind fun type l₃ h₃ _ => ?_
  refine (locates_params names l₃).bind fun ps l₄ h₄ hps => ?_
  refine (locates_codeBlock names l₄).result fun body m hm hbody => ?_
  have hspan := (hbody _ body.span_mem_spans).down (show l₀ ≤ l₄ by omega)
  simp only [Function.spans, stretches_cons, stretches_append]
  exact ⟨hname.mono h₀ (by omega), hstart.through hspan,
    hps.mono (by omega) hm, hbody.down (by omega)⟩

theorem locates_global : Locates o Declaration.spans (global names) := by
  refine fun k => goes_expectKeyword.bind fun start l hl hstart => ?_
  refine (locates_declaration names l).result fun d m hm hd => ?_
  simp only [Declaration.spans, stretches_cons] at hd ⊢
  exact ⟨hd.1.down hl, hstart.through hd.2.1, hd.2.2.down hl⟩

def Member.spans : Member → List Span
  | property d => d.spans
  | method f => f.spans

theorem locates_classMember : Locates o Member.spans (classMember names) := by
  refine fun k => .currentKind ?_
  split
  next => exact (locates_function names k).result fun _ _ _ h => h
  next =>
    refine .declarationAhead fun b => ?_
    split
    next => exact (locates_declaration names k).result fun _ _ _ h => h
    next => exact .failUnexpected

/-- What is kept of a list lies where the list does. -/
theorem stretches_filterMap {α β : Type} {spans : α → List Span} {spans' : β → List Span}
    {keep : α → Option β} (hkeep : ∀ a b, keep a = some b → spans' b = spans a) {as : List α}
    (h : Stretches o k l (as.flatMap spans)) :
    Stretches o k l ((as.filterMap keep).flatMap spans') := by
  rw [stretches_flatMap] at h ⊢
  intro b hb
  obtain ⟨a, ha, hab⟩ := List.mem_filterMap.1 hb
  rw [hkeep a b hab]
  exact h a ha

theorem Member.spans_property {m : Member} {d : Declaration} (h : m.property? = some d) :
    d.spans = m.spans := by
  cases m <;> cases h
  rfl

theorem Member.spans_method {m : Member} {f : Function} (h : m.method? = some f) :
    f.spans = m.spans := by
  cases m <;> cases h
  rfl

theorem goes_className : Goes o k (className names) fun c l => Stretch o k l c.1.span := by
  refine .current ?_
  split
  next =>
    have htype : Goes o k (unitType names) fun _ l => k < l := by
      refine .current ?_
      split
      next => exact .advance (.pure k.lt_succ_self)
      next => exact .failExpected
    exact htype.result fun type l _ hl => (stretch_token o k).up hl
  next => exact .failExpected

theorem locates_classItem : Locates o Class.spans (classItem names) := by
  refine fun k => goes_expectKeyword.bind fun start l₀ h₀ hstart => ?_
  refine (goes_className names).bind fun c l₁ h₁ hname => ?_
  refine (locates_params names l₁).bind fun ps l₂ h₂ hps => ?_
  refine goes_expectSymbol.bind fun _ l₃ h₃ _ => ?_
  refine (locates_many (locates_recovering (locates_classMember names) skips_skipStatement)
    l₃).bind fun members l₄ h₄ hmembers => ?_
  refine goes_expectSymbol.result fun stop m hm hstop => ?_
  simp only [flatMap_filterMap_id] at hmembers
  have hmembers := hmembers.mono (show k ≤ l₃ by omega) hm
  simp only [Class.spans, stretches_cons, stretches_append]
  exact ⟨hname.mono h₀ (by omega), hstart.through (hstop.down (by omega)),
    ⟨hps.mono (by omega) (by omega),
      stretches_filterMap (fun _ _ => Member.spans_property) hmembers⟩,
    stretches_filterMap (fun _ _ => Member.spans_method) hmembers⟩

/-! ### Programs -/

def Item.spans : Item → List Span
  | global d => d.spans
  | function f | entry f => f.spans
  | cls c => c.spans

theorem locates_item : Locates o Item.spans (item names) := by
  refine fun k => .currentKind ?_
  split
  next => exact (locates_global names k).result fun _ _ _ h => h
  next => exact (locates_classItem names k).result fun _ _ _ h => h
  next =>
    refine .nextKind fun kind => (locates_function names k).result fun f l _ hf => ?_
    split <;> exact hf
  next => exact .current (.failHere rfl)

theorem locates_itemsUpTo (n : Nat) (hasEntry : Bool) :
    Locates o (fun is => is.flatMap Item.spans) (itemsUpTo names n hasEntry) := by
  induction n generalizing hasEntry with
  | zero => exact fun k => .pure stretches_nil
  | succ n ih =>
    intro k
    have hrest (i : Item) (b : Bool) {l : Nat} (hl : k ≤ l) (hi : Stretches o k l i.spans) :
        Goes o l (do return i :: (← itemsUpTo names n b))
          fun is m => Stretches o k m (is.flatMap Item.spans) := by
      refine (ih b l).result fun is m hm his => stretches_append.2 ?_
      exact ⟨hi.up hm, his.down hl⟩
    refine .currentKind ?_
    split
    next => exact .pure stretches_nil
    next =>
      refine (locates_recovering (locates_item names) skips_skipItem k).bind fun i? l hl hi => ?_
      split
      next => exact (ih hasEntry l).mono fun is m hm his => his.down hl
      next f =>
        have hf : Stretches o k l f.spans := hi
        have hname := (stretches_cons.1 hf).1
        split
        next => exact .record (hname.along rfl) (hrest (.entry f) true hl hf)
        next => exact hrest (.entry f) true hl hf
      next i => exact hrest _ hasEntry hl hi

theorem locates_items : Locates o (fun is => is.flatMap Item.spans) (items names) := by
  refine fun k => .bound fun n => (locates_itemsUpTo names n false k).bind fun is l hl his => ?_
  split
  next => exact .current (.record ((stretch_token o l).along rfl) (.pure his))
  next => exact .pure his

/-- What a parser starts with is recorded nowhere yet. -/
theorem past_ofTokens (tokens : List Token) :
    (State.ofTokens tokens).Past (.ofTokens tokens) 0 :=
  ⟨rfl, List.forall_mem_nil _⟩

theorem Item.spans_global {i : Item} {d : Declaration} (h : i.global? = some d) :
    d.spans = i.spans := by
  cases i <;> cases h
  rfl

theorem Item.spans_function {i : Item} {f : Function} (h : i.function? = some f) :
    f.spans = i.spans := by
  cases i <;> cases h
  rfl

theorem Item.spans_class {i : Item} {c : Class} (h : i.class? = some c) : c.spans = i.spans := by
  cases i <;> cases h
  rfl

theorem Item.spans_entry {i : Item} {f : Function} (h : i.entry? = some f) :
    f.spans = i.spans := by
  cases i <;> cases h
  rfl

end Uwu.Grammar

namespace Uwu.Program

open Grammar

variable {tokens : List Token} {names : Names}

/-- The mistakes in the grammar point to tokens. -/
theorem along_ofTokens {ds : List Diagnostic} (h : ofTokens tokens names = .error ds) :
    ∀ d ∈ ds, Along (.ofTokens tokens) d := by
  have hrun := locates_items names 0 (.ofTokens tokens) (past_ofTokens tokens)
  unfold ofTokens at h
  cases hi : Grammar.items names (.ofTokens tokens) with
  | error d s =>
    rw [hi] at h hrun
    cases h
    obtain ⟨hd, l, -, hs⟩ := hrun
    exact (hs.record hd).recorded
  | ok is s =>
    rw [hi] at h hrun
    obtain ⟨l, -, hs, -⟩ := hrun
    dsimp only at h
    split at h
    next => cases h
    next =>
      cases h
      exact hs.recorded

/-- A program lies on the tokens that write it. -/
theorem stretches_ofTokens {p : Program} (h : ofTokens tokens names = .ok p) :
    ∃ l, Stretches (.ofTokens tokens) 0 l p.spans := by
  have hrun := locates_items names 0 (.ofTokens tokens) (past_ofTokens tokens)
  unfold ofTokens at h
  cases hi : Grammar.items names (.ofTokens tokens) with
  | error d s =>
    rw [hi] at h
    cases h
  | ok is s =>
    rw [hi] at h hrun
    obtain ⟨l, -, -, his⟩ := hrun
    dsimp only at h
    split at h
    next entry entries _ hentry =>
      cases h
      have hentries := stretches_filterMap (fun _ _ => Item.spans_entry) his
      rw [hentry] at hentries
      simp only [Program.spans, functionsAndEntry, List.flatMap_append, stretches_append]
      exact ⟨l, ⟨stretches_filterMap (fun _ _ => Item.spans_global) his,
        stretches_filterMap (fun _ _ => Item.spans_function) his,
        stretches_append.2 ⟨(stretches_append.1 hentries).1, stretches_nil⟩⟩,
        stretches_filterMap (fun _ _ => Item.spans_class) his⟩
    next => cases h

end Uwu.Program
