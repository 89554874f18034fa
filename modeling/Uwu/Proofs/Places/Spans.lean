import Uwu.Proofs.Scope.Roots

/-! The places that a syntax tree and a diagnostic carry. -/

namespace Uwu

/-! ### Expressions -/

mutual

/-- Every span in an expression. -/
def Expr.spans : Expr → List Span
  | .literal _ s => [s]
  | .format segments s => s :: segmentSpans segments
  | .input none s => [s]
  | .input (some prompt) s => s :: prompt.spans
  | .array elements s => s :: exprSpans elements
  | .prefixed op operand s => op.span :: s :: operand.spans
  | .infixed left op right s => op.span :: s :: (left.spans ++ right.spans)
  | .postfixed target op s => op.span :: s :: target.spans
  | .place p => p.spans

def exprSpans : List Expr → List Span
  | [] => []
  | e :: es => e.spans ++ exprSpans es

def segmentSpans : List Segment → List Span
  | [] => []
  | .text _ :: ss => segmentSpans ss
  | .expr e :: ss => e.spans ++ segmentSpans ss

def Link.spans : Link → List Span
  | .name n => [n.span]
  | .indexed n es s | .call n es s => n.span :: s :: exprSpans es

def Place.spans : Place → List Span
  | .link l => l.spans
  | .construct cls args s => cls.span :: s :: exprSpans args
  | .member object l s => s :: (object.spans ++ l.spans)

end

theorem exprSpans_eq (es : List Expr) : exprSpans es = es.flatMap Expr.spans := by
  induction es with
  | nil => rfl
  | cons e es ih => rw [exprSpans, ih, List.flatMap_cons]

theorem segmentSpans_append (ss ss' : List Segment) :
    segmentSpans (ss ++ ss') = segmentSpans ss ++ segmentSpans ss' := by
  induction ss with
  | nil => rfl
  | cons s ss ih => cases s <;> simp [segmentSpans, ih]

theorem Link.head_mem_spans (l : Link) : l.head.span ∈ l.spans := by
  cases l <;> simp [head, spans]

theorem Link.span_mem_spans (l : Link) : l.span ∈ l.spans := by
  cases l <;> simp [span, spans]

theorem Place.span_mem_spans (p : Place) : p.span ∈ p.spans := by
  cases p with
  | link l => exact l.span_mem_spans
  | construct | member => simp [span, spans]

theorem Expr.span_mem_spans (e : Expr) : e.span ∈ e.spans := by
  cases e with
  | place p => exact p.span_mem_spans
  | input prompt _ => cases prompt <;> simp [span, spans]
  | _ => simp [span, spans]

/-- Where the name of a root stands. -/
def Root.site (r : Root) : Span :=
  r.reference.name.span

theorem Root.site_link (l : Link) : (link l).site = l.head.span := by
  cases l <;> rfl

mutual

theorem Expr.roots_sublist : ∀ e : Expr, (e.roots.map Root.site).Sublist e.spans
  | .literal _ _ => List.nil_sublist _
  | .format segments _ => (segmentRoots_sublist segments).cons _
  | .input none _ => List.nil_sublist _
  | .input (some prompt) _ => prompt.roots_sublist.cons _
  | .array elements _ => (exprRoots_sublist elements).cons _
  | .prefixed _ operand _ => (operand.roots_sublist.cons _).cons _
  | .infixed left _ right _ => by
    rw [Expr.roots, List.map_append]
    exact ((left.roots_sublist.append right.roots_sublist).cons _).cons _
  | .postfixed target _ _ => (target.roots_sublist.cons _).cons _
  | .place p => p.roots_sublist

theorem exprRoots_sublist :
    ∀ es : List Expr, ((exprRoots es).map Root.site).Sublist (exprSpans es)
  | [] => List.nil_sublist _
  | e :: es => by
    rw [exprRoots, List.map_append]
    exact e.roots_sublist.append (exprRoots_sublist es)

theorem segmentRoots_sublist :
    ∀ ss : List Segment, ((segmentRoots ss).map Root.site).Sublist (segmentSpans ss)
  | [] => List.nil_sublist _
  | .text _ :: ss => segmentRoots_sublist ss
  | .expr e :: ss => by
    rw [segmentRoots, List.map_append]
    exact e.roots_sublist.append (segmentRoots_sublist ss)

theorem Link.operandRoots_sublist :
    ∀ l : Link, (l.head.span :: l.operandRoots.map Root.site).Sublist l.spans
  | .name _ => List.Sublist.refl _
  | .indexed _ es _ | .call _ es _ => ((exprRoots_sublist es).cons _).cons_cons _

theorem Place.roots_sublist : ∀ p : Place, (p.roots.map Root.site).Sublist p.spans
  | .link l => by
    rw [Place.roots, List.map_cons, Root.site_link]
    exact l.operandRoots_sublist
  | .construct _ args _ => ((exprRoots_sublist args).cons _).cons_cons _
  | .member object l _ => by
    rw [Place.roots, List.map_append]
    exact (object.roots_sublist.append (List.sublist_of_cons_sublist l.operandRoots_sublist)).cons _

end

/-! ### Statements -/

def Declaration.spans (d : Declaration) : List Span :=
  d.name.span :: d.span :: (d.value.map Expr.spans).getD []

def Assignment.spans (a : Assignment) : List Span :=
  a.op.span :: a.span :: (a.target.spans ++ a.value.spans)

def LoopStart.spans : LoopStart → List Span
  | declare d => d.spans
  | assign a => a.spans

def LoopUpdate.spans : LoopUpdate → List Span
  | assign a => a.spans
  | postfixed target op s => op.span :: s :: target.spans

mutual

/-- Every span in a statement. -/
def Stmt.spans : Stmt → List Span
  | .declare d => d.spans
  | .assign a => a.spans
  | .evaluate e s => s :: e.spans
  | .print args s => s :: exprSpans args
  | .branch condition body elseIfs elseBody s =>
    s :: (condition.spans ++ body.spans ++ elseIfSpans elseIfs ++
      match elseBody with
      | none => []
      | some b => b.spans)
  | .repeatWhile _ condition body s => s :: (condition.spans ++ body.spans)
  | .count start condition update body s =>
    s :: (start.spans ++ condition.spans ++ update.spans ++ body.spans)
  | .leave value s => s :: (value.map Expr.spans).getD []
  | .stop s => [s]

def Block.spans : Block → List Span
  | ⟨body, s⟩ => s :: stmtSpans body

def stmtSpans : List Stmt → List Span
  | [] => []
  | st :: sts => st.spans ++ stmtSpans sts

def elseIfSpans : List ElseIf → List Span
  | [] => []
  | ⟨condition, body, s⟩ :: es => s :: (condition.spans ++ body.spans ++ elseIfSpans es)

end

def ElseIf.spans (e : ElseIf) : List Span :=
  e.span :: (e.condition.spans ++ e.body.spans)

theorem elseIfSpans_eq (es : List ElseIf) : elseIfSpans es = es.flatMap ElseIf.spans := by
  induction es with
  | nil => rfl
  | cons e es ih =>
    obtain ⟨condition, body, s⟩ := e
    rw [elseIfSpans, ih, List.flatMap_cons, ElseIf.spans, List.cons_append]

theorem stmtSpans_eq (sts : List Stmt) : stmtSpans sts = sts.flatMap Stmt.spans := by
  induction sts with
  | nil => rfl
  | cons st sts ih => rw [stmtSpans, ih, List.flatMap_cons]

theorem Block.span_mem_spans (b : Block) : b.span ∈ b.spans := by
  obtain ⟨body, s⟩ := b
  exact List.mem_cons_self

theorem Stmt.spans_branch (condition : Expr) (body : Block) (elseIfs : List ElseIf)
    (elseBody : Option Block) (s : Span) :
    (branch condition body elseIfs elseBody s).spans =
      s :: (condition.spans ++ body.spans ++ elseIfs.flatMap ElseIf.spans ++
        (elseBody.map Block.spans).getD []) := by
  cases elseBody <;> rw [spans, elseIfSpans_eq] <;> rfl

/-! ### Programs -/

def Param.spans (p : Param) : List Span :=
  [p.name.span, p.span]

def Function.spans (f : Function) : List Span :=
  f.name.span :: f.span :: (f.params.flatMap Param.spans ++ f.body.spans)

def Class.spans (c : Class) : List Span :=
  c.name.span :: c.span :: (c.params.flatMap Param.spans ++
    c.properties.flatMap Declaration.spans ++ c.methods.flatMap Function.spans)

def Program.spans (p : Program) : List Span :=
  p.globals.flatMap Declaration.spans ++ p.functionsAndEntry.flatMap Function.spans ++
    p.classes.flatMap Class.spans

/-! ### Points -/

def Clause.spans : Clause → List Span
  | declare d => d.spans
  | assign a => a.spans
  | evaluate e => e.spans
  | print args => exprSpans args
  | start s => s.spans
  | update u => u.spans
  | leave value s => s :: (value.map Expr.spans).getD []
  | stop | blockEnd => []

/-- Those of the clause, and where the declarations before it have their names. -/
def Point.spans (pt : Point) : List Span :=
  pt.before.map (fun d => d.name.span) ++ pt.clause.spans

theorem Point.spans_behind (ds : List Declaration) (pt : Point) :
    (pt.behind ds).spans = ds.map (fun d => d.name.span) ++ pt.spans := by
  simp [spans, behind]

section Points

variable {G : Span → Prop}

/-- What holds of all spans of declarations and of points holds of the points behind them. -/
theorem behind_spans {ds : List Declaration} {pts : List Point}
    (hd : ∀ d ∈ ds, G d.name.span) (h : ∀ pt ∈ pts, ∀ x ∈ pt.spans, G x) :
    ∀ pt ∈ pts.map (Point.behind ds), ∀ x ∈ pt.spans, G x := by
  rw [List.forall_mem_map]
  intro pt hpt
  rw [Point.spans_behind, List.forall_mem_append, List.forall_mem_map]
  exact ⟨hd, h pt hpt⟩

theorem Stmt.declarations_spans {st : Stmt} (h : ∀ x ∈ st.spans, G x) :
    ∀ d ∈ st.declarations, G d.name.span := by
  cases st with
  | declare d => exact List.forall_mem_singleton.2 (List.forall_mem_cons.1 h).1
  | _ => exact List.forall_mem_nil _

theorem LoopStart.declarations_spans {start : LoopStart} (h : ∀ x ∈ start.spans, G x) :
    ∀ d ∈ start.declarations, G d.name.span := by
  cases start with
  | declare d => exact List.forall_mem_singleton.2 (List.forall_mem_cons.1 h).1
  | assign a => exact List.forall_mem_nil _

mutual

/-- What holds of all spans in a statement holds of those at its points. -/
theorem Stmt.points_spans : ∀ st : Stmt, (∀ x ∈ st.spans, G x) →
    ∀ pt ∈ st.points, ∀ x ∈ pt.spans, G x
  | .declare _, h => List.forall_mem_singleton.2 h
  | .assign _, h => List.forall_mem_singleton.2 h
  | .evaluate _ _, h => List.forall_mem_singleton.2 (List.forall_mem_cons.1 h).2
  | .print _ _, h => List.forall_mem_singleton.2 (List.forall_mem_cons.1 h).2
  | .branch condition body elseIfs none _, h => by
    simp only [Stmt.spans, List.forall_mem_cons, List.forall_mem_append] at h
    obtain ⟨-, ⟨⟨hc, hb⟩, he⟩, -⟩ := h
    simp only [Stmt.points, List.forall_mem_cons, List.forall_mem_append]
    exact ⟨hc, ⟨body.points_spans hb, elseIfPoints_spans elseIfs he⟩, List.forall_mem_nil _⟩
  | .branch condition body elseIfs (some b) _, h => by
    simp only [Stmt.spans, List.forall_mem_cons, List.forall_mem_append] at h
    obtain ⟨-, ⟨⟨hc, hb⟩, he⟩, hl⟩ := h
    simp only [Stmt.points, List.forall_mem_cons, List.forall_mem_append]
    exact ⟨hc, ⟨body.points_spans hb, elseIfPoints_spans elseIfs he⟩, b.points_spans hl⟩
  | .repeatWhile _ condition body _, h => by
    simp only [Stmt.spans, List.forall_mem_cons, List.forall_mem_append] at h
    obtain ⟨-, hc, hb⟩ := h
    exact List.forall_mem_cons.2 ⟨hc, body.points_spans hb⟩
  | .count start condition update body _, h => by
    simp only [Stmt.spans, List.forall_mem_cons, List.forall_mem_append] at h
    obtain ⟨-, ⟨⟨hs, hc⟩, hu⟩, hb⟩ := h
    refine List.forall_mem_cons.2 ⟨hs, behind_spans (LoopStart.declarations_spans hs) ?_⟩
    simp only [List.forall_mem_cons]
    exact ⟨hc, hu, body.points_spans hb⟩
  | .leave _ _, h => List.forall_mem_singleton.2 h
  | .stop _, _ => List.forall_mem_singleton.2 (List.forall_mem_nil _)

theorem Block.points_spans : ∀ b : Block, (∀ x ∈ b.spans, G x) →
    ∀ pt ∈ b.points, ∀ x ∈ pt.spans, G x
  | ⟨body, _⟩, h => by
    rw [Block.points]
    exact stmtsPoints_spans body (List.forall_mem_cons.1 h).2

theorem stmtsPoints_spans : ∀ sts : List Stmt, (∀ x ∈ stmtSpans sts, G x) →
    ∀ pt ∈ stmtsPoints sts, ∀ x ∈ pt.spans, G x
  | [], _ => List.forall_mem_singleton.2 (List.forall_mem_nil _)
  | st :: sts, h => by
    rw [stmtSpans, List.forall_mem_append] at h
    rw [stmtsPoints, List.forall_mem_append]
    exact ⟨st.points_spans h.1,
      behind_spans (Stmt.declarations_spans h.1) (stmtsPoints_spans sts h.2)⟩

theorem elseIfPoints_spans : ∀ es : List ElseIf, (∀ x ∈ elseIfSpans es, G x) →
    ∀ pt ∈ elseIfPoints es, ∀ x ∈ pt.spans, G x
  | [], _ => List.forall_mem_nil _
  | ⟨condition, body, _⟩ :: es, h => by
    simp only [elseIfSpans, List.forall_mem_cons, List.forall_mem_append] at h
    obtain ⟨-, ⟨hc, hb⟩, hes⟩ := h
    simp only [elseIfPoints, List.forall_mem_cons, List.forall_mem_append]
    exact ⟨hc, body.points_spans hb, elseIfPoints_spans es hes⟩

end

end Points

/-! ### Diagnostics -/

/-- The places that a cause points to besides the one it is seen at. -/
def Cause.sites : Cause → List Span
  | duplicate _ first _ _ => [first]
  | constantReassigned _ declaration => [declaration]
  | _ => []

/-- The place of the mistake, and the places that its cause points to. -/
def Diagnostic.spans (d : Diagnostic) : List Span :=
  d.span :: d.cause.sites

end Uwu
