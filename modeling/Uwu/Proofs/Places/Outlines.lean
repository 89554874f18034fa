import Uwu.Proofs.Grammar.Signs
import Uwu.Proofs.Lexeme.Tiling

/-! The outline of a syntax tree: its spans, each with those directly inside, in source order. An
outline is nested if every span contains the ones inside of it, and these lie one behind the
other. A span that goes from the first to the last of such a row contains all of it. -/

namespace Uwu

namespace Position

variable {p q r : Position}

theorem lt_of_le_of_ne (h : p ≤ q) (hne : p ≠ q) : p < q := by
  rw [le_def] at h
  rw [lt_def]
  by_contra hlt
  exact hne (Position.le_antisymm (le_def p q |>.2 h) (le_def q p |>.2 (by omega)))

theorem lt_of_lt_of_le (hpq : p < q) (hqr : q ≤ r) : p < r := by
  rw [lt_def] at hpq ⊢
  rw [le_def] at hqr
  omega

theorem lt_of_le_of_lt (hpq : p ≤ q) (hqr : q < r) : p < r := by
  rw [lt_def] at hqr ⊢
  rw [le_def] at hpq
  omega

end Position

/-! ### Outlines -/

/-- A span and the outlines directly inside, in source order. -/
inductive Outline where
  | node (span : Span) (children : List Outline)

namespace Outline

def span : Outline → Span
  | node s _ => s

def children : Outline → List Outline
  | node _ cs => cs

/-- A span with nothing inside. -/
def leaf (s : Span) : Outline :=
  node s []

@[simp]
theorem span_leaf (s : Span) : (leaf s).span = s := rfl

/-- Each ends before the next one starts. -/
def Apart (xs : List Outline) : Prop :=
  xs.Pairwise fun x y => x.span.stop < y.span.start

/-- At every node the span starts no later than it ends, the spans inside are disjoint and in order,
and none of them reaches out. -/
inductive Nested : Outline → Prop
  | node {s : Span} {cs : List Outline} (ordered : s.start ≤ s.stop)
    (inside : ∀ c ∈ cs, s.start ≤ c.span.start ∧ c.span.stop ≤ s.stop) (apart : Apart cs)
    (nested : ∀ c ∈ cs, c.Nested) : Nested (node s cs)

theorem Nested.ordered {x : Outline} (h : x.Nested) : x.span.start ≤ x.span.stop := by
  cases h with
  | node ordered => exact ordered

theorem Nested.inside {x : Outline} (h : x.Nested) {c : Outline} (hc : c ∈ x.children) :
    x.span.start ≤ c.span.start ∧ c.span.stop ≤ x.span.stop := by
  cases h with
  | node _ inside => exact inside c hc

theorem Nested.of_children {x : Outline} (h : x.Nested) {c : Outline} (hc : c ∈ x.children) :
    c.Nested := by
  cases h with
  | node _ _ _ nested => exact nested c hc

theorem nested_leaf {s : Span} (h : s.start ≤ s.stop) : (leaf s).Nested :=
  .node h (List.forall_mem_nil _) .nil (List.forall_mem_nil _)

end Outline

open Outline

/-! ### Outlines of expressions -/

mutual

/-- An access path is no node of its own when it is used as an expression. -/
def Expr.outline : Expr → Outline
  | .literal _ s => leaf s
  | .format segments s => .node s (segmentOutlines segments)
  | .input none s => leaf s
  | .input (some prompt) s => .node s [prompt.outline]
  | .array elements s => .node s (exprOutlines elements)
  | .prefixed op operand s => .node s [leaf op.span, operand.outline]
  | .infixed left op right s => .node s [left.outline, leaf op.span, right.outline]
  | .postfixed target op s => .node s [target.outline, leaf op.span]
  | .place p => p.outline

def exprOutlines : List Expr → List Outline
  | [] => []
  | e :: es => e.outline :: exprOutlines es

def segmentOutlines : List Segment → List Outline
  | [] => []
  | .text _ :: ss => segmentOutlines ss
  | .expr e :: ss => e.outline :: segmentOutlines ss

def Link.outline : Link → Outline
  | .name n => leaf n.span
  | .indexed n es s | .call n es s => .node s (leaf n.span :: exprOutlines es)

def Place.outline : Place → Outline
  | .link l => l.outline
  | .construct cls args s => .node s (leaf cls.span :: exprOutlines args)
  | .member object l s => .node s [object.outline, l.outline]

end

theorem exprOutlines_eq (es : List Expr) : exprOutlines es = es.map Expr.outline := by
  induction es with
  | nil => rfl
  | cons e es ih => rw [exprOutlines, ih, List.map_cons]

theorem segmentOutlines_append (ss ss' : List Segment) :
    segmentOutlines (ss ++ ss') = segmentOutlines ss ++ segmentOutlines ss' := by
  induction ss with
  | nil => rfl
  | cons s ss ih => cases s <;> simp [segmentOutlines, ih]

theorem Link.span_outline (l : Link) : l.outline.span = l.span := by
  cases l <;> rfl

theorem Place.span_outline (p : Place) : p.outline.span = p.span := by
  cases p with
  | link l => exact l.span_outline
  | construct | member => rfl

theorem Expr.span_outline (e : Expr) : e.outline.span = e.span := by
  cases e with
  | place p => exact p.span_outline
  | input prompt _ => cases prompt <;> rfl
  | _ => rfl

/-! ### Outlines of statements -/

def Declaration.outline (d : Declaration) : Outline :=
  .node d.span (leaf d.name.span :: d.value.toList.map Expr.outline)

def Assignment.outline (a : Assignment) : Outline :=
  .node a.span [a.target.outline, leaf a.op.span, a.value.outline]

def LoopStart.outline : LoopStart → Outline
  | declare d => d.outline
  | assign a => a.outline

def LoopUpdate.outline : LoopUpdate → Outline
  | assign a => a.outline
  | postfixed target op s => .node s [target.outline, leaf op.span]

mutual

def Stmt.outline : Stmt → Outline
  | .declare d => d.outline
  | .assign a => a.outline
  | .evaluate e s => .node s [e.outline]
  | .print args s => .node s (exprOutlines args)
  | .branch condition body elseIfs elseBody s =>
    .node s (condition.outline :: body.outline :: (elseIfOutlines elseIfs ++
      match elseBody with
      | none => []
      | some b => [b.outline]))
  | .repeatWhile _ condition body s => .node s [condition.outline, body.outline]
  | .count start condition update body s =>
    .node s [start.outline, condition.outline, update.outline, body.outline]
  | .leave value s => .node s (value.toList.map Expr.outline)
  | .stop s => leaf s

def Block.outline : Block → Outline
  | ⟨body, s⟩ => .node s (stmtOutlines body)

def stmtOutlines : List Stmt → List Outline
  | [] => []
  | st :: sts => st.outline :: stmtOutlines sts

def elseIfOutlines : List ElseIf → List Outline
  | [] => []
  | ⟨condition, body, s⟩ :: es =>
    .node s [condition.outline, body.outline] :: elseIfOutlines es

end

def ElseIf.outline (e : ElseIf) : Outline :=
  .node e.span [e.condition.outline, e.body.outline]

@[simp]
theorem ElseIf.span_outline (e : ElseIf) : e.outline.span = e.span := rfl

theorem stmtOutlines_eq (sts : List Stmt) : stmtOutlines sts = sts.map Stmt.outline := by
  induction sts with
  | nil => rfl
  | cons st sts ih => rw [stmtOutlines, ih, List.map_cons]

theorem elseIfOutlines_eq (es : List ElseIf) : elseIfOutlines es = es.map ElseIf.outline := by
  induction es with
  | nil => rfl
  | cons e es ih =>
    obtain ⟨condition, body, s⟩ := e
    rw [elseIfOutlines, ih, List.map_cons, ElseIf.outline]

theorem Block.span_outline (b : Block) : b.outline.span = b.span := by
  obtain ⟨body, s⟩ := b
  rfl

theorem Stmt.outline_branch (condition : Expr) (body : Block) (elseIfs : List ElseIf)
    (elseBody : Option Block) (s : Span) :
    (branch condition body elseIfs elseBody s).outline =
      .node s (condition.outline :: body.outline ::
        (elseIfs.map ElseIf.outline ++ elseBody.toList.map Block.outline)) := by
  cases elseBody <;> rw [outline, elseIfOutlines_eq] <;> rfl

/-! ### Outlines of items -/

def Param.outline (q : Param) : Outline :=
  .node q.span [leaf q.name.span]

def Function.outline (f : Function) : Outline :=
  .node f.span (leaf f.name.span :: (f.params.map Param.outline ++ [f.body.outline]))

def Grammar.Member.outline : Grammar.Member → Outline
  | property d => d.outline
  | method f => f.outline

/-- Properties and methods in source order. -/
def Class.outline (c : Class) : Outline :=
  .node c.span (leaf c.name.span :: (c.params.map Param.outline ++
    (Grammar.classMembers c).map Grammar.Member.outline))

def Grammar.Item.outline : Grammar.Item → Outline
  | global d => d.outline
  | function f | entry f => f.outline
  | cls c => c.outline

/-- Globals, functions and classes in source order. -/
def Program.outlines (p : Program) : List Outline :=
  p.items.map Grammar.Item.outline

/-! ### Rows -/

/-- Nested outlines one behind the other, each from the start of one of the tokens to the end of
one. -/
structure Row (us : List Token) (xs : List Outline) : Prop where
  nested : ∀ x ∈ xs, x.Nested
  apart : Apart xs
  along : ∀ x ∈ xs, ∃ u ∈ us, ∃ v ∈ us, x.span = u.span.through v.span

/-- The tokens lie one behind the other. -/
structure Laid (us : List Token) : Prop where
  ordered : ∀ u ∈ us, u.span.start ≤ u.span.stop
  apart : us.Pairwise fun u v => u.span.stop < v.span.start

/-- From the first to the last of `xs`, with some of these inside. -/
structure Frames (o : Outline) (xs : List Outline) : Prop where
  span : ∃ x ∈ xs.head?, ∃ y ∈ xs.getLast?, o.span = x.span.through y.span
  children : o.children.Sublist xs

/-- On whatever tokens `xs` is a row, `ys` is one too. -/
def Becomes (xs ys : List Outline) : Prop :=
  ∀ us, Row us xs → Row us ys

section Rows

variable {us vs : List Token} {xs ys zs : List Outline} {o x y : Outline}

theorem Laid.suffix (h : Laid us) (hs : vs <:+ us) : Laid vs :=
  ⟨fun v hv => h.ordered v (hs.subset hv), h.apart.sublist hs.sublist⟩

theorem Laid.front (h : Laid (us ++ vs)) : Laid us :=
  ⟨fun u hu => h.ordered u (List.mem_append_left _ hu), (List.pairwise_append.1 h.apart).1⟩

theorem row_nil (us : List Token) : Row us [] :=
  ⟨List.forall_mem_nil _, .nil, List.forall_mem_nil _⟩

theorem row_leaf {u : Token} (hu : u ∈ us) (h : Laid us) : Row us [leaf u.span] :=
  ⟨List.forall_mem_singleton.2 (nested_leaf (h.ordered u hu)), List.pairwise_singleton _ _,
    List.forall_mem_singleton.2 ⟨u, hu, u, hu, rfl⟩⟩

/-- A row on the tokens in front, and one on the tokens behind. -/
theorem Row.append (h : Laid (us ++ vs)) (hx : Row us xs) (hy : Row vs ys) :
    Row (us ++ vs) (xs ++ ys) where
  nested := List.forall_mem_append.2 ⟨hx.nested, hy.nested⟩
  apart := by
    apply List.pairwise_append.2 ⟨hx.apart, hy.apart, _⟩
    intro x hxs y hys
    obtain ⟨_, _, u, hu, hxu⟩ := hx.along x hxs
    obtain ⟨v, hv, _, _, hyv⟩ := hy.along y hys
    rw [hxu, hyv]
    exact (List.pairwise_append.1 h.apart).2.2 u hu v hv
  along := by
    intro z hz
    rcases List.mem_append.1 hz with hz | hz
    · obtain ⟨u, hu, v, hv, heq⟩ := hx.along z hz
      exact ⟨u, List.mem_append_left _ hu, v, List.mem_append_left _ hv, heq⟩
    · obtain ⟨u, hu, v, hv, heq⟩ := hy.along z hz
      exact ⟨u, List.mem_append_right _ hu, v, List.mem_append_right _ hv, heq⟩

theorem Row.sublist (h : Row us ys) (hs : xs.Sublist ys) : Row us xs :=
  ⟨fun x hx => h.nested x (hs.subset hx), h.apart.sublist hs, fun x hx => h.along x (hs.subset hx)⟩

/-- None starts before the first. -/
theorem Row.start_le (h : Row us xs) (hx : x ∈ xs.head?) (hy : y ∈ xs) :
    x.span.start ≤ y.span.start := by
  obtain ⟨rest, rfl⟩ := List.head?_eq_some_iff.1 hx
  rcases List.mem_cons.1 hy with rfl | hy
  · simp [Position.le_def]
  · have hlt := (List.pairwise_cons.1 h.apart).1 y hy
    exact Position.le_trans (h.nested x List.mem_cons_self).ordered (Position.le_of_lt hlt)

/-- None ends behind the last. -/
theorem Row.le_stop (h : Row us xs) (hx : x ∈ xs.getLast?) (hy : y ∈ xs) :
    y.span.stop ≤ x.span.stop := by
  obtain ⟨front, rfl⟩ := List.getLast?_eq_some_iff.1 hx
  rcases List.mem_append.1 hy with hy | hy
  · have hlt := (List.pairwise_append.1 h.apart).2.2 y hy x (List.mem_singleton.2 rfl)
    have hx := h.nested x (List.mem_append_right _ (List.mem_singleton.2 rfl))
    exact Position.le_trans (Position.le_of_lt hlt) hx.ordered
  · rw [List.mem_singleton.1 hy]
    simp [Position.le_def]

/-- A span from the first to the last of a row contains what is taken from the row. -/
theorem Row.nested_frame (h : Row us xs) (ho : Frames o xs) : o.Nested := by
  obtain ⟨x, hx, y, hy, hspan⟩ := ho.span
  have hymem : y ∈ xs := List.mem_of_getLast? hy
  have hordered : x.span.start ≤ y.span.stop :=
    Position.le_trans (h.start_le hx hymem) (h.nested y hymem).ordered
  have hchildren : Row us o.children := h.sublist ho.children
  obtain ⟨s, cs⟩ := o
  obtain rfl : s = x.span.through y.span := hspan
  refine .node hordered ?_ hchildren.apart hchildren.nested
  intro c hc
  have hc : c ∈ xs := ho.children.subset hc
  exact ⟨h.start_le hx hc, h.le_stop hy hc⟩

/-- A row is still one when its front is put into a frame. -/
theorem Row.frame (h : Row us (xs ++ zs)) (ho : Frames o xs) : Row us (o :: zs) := by
  obtain ⟨-, hback, hacross⟩ := List.pairwise_append.1 h.apart
  have hxs : Row us xs := h.sublist (List.sublist_append_left _ _)
  have hzs : Row us zs := h.sublist (List.sublist_append_right _ _)
  obtain ⟨x, hx, y, hy, hspan⟩ := ho.span
  have hymem : y ∈ xs := List.mem_of_getLast? hy
  obtain ⟨u, hu, _, _, hxu⟩ := hxs.along x (List.mem_of_mem_head? hx)
  obtain ⟨_, _, v, hv, hyv⟩ := hxs.along y hymem
  have halong : o.span = u.span.through v.span := by
    rw [hspan, hxu, hyv]
    rfl
  have hbehind : ∀ z ∈ zs, o.span.stop < z.span.start := by
    intro z hz
    rw [hspan]
    exact hacross y hymem z hz
  exact ⟨List.forall_mem_cons.2 ⟨hxs.nested_frame ho, hzs.nested⟩,
    List.pairwise_cons.2 ⟨hbehind, hback⟩,
    List.forall_mem_cons.2 ⟨⟨u, hu, v, hv, halong⟩, hzs.along⟩⟩

/-- The frame around what comes behind `x` is made to start at `x`. -/
theorem Frames.widen {cs : List Outline} {r : Span} (h : Frames (.node r cs) xs) (x : Outline) :
    Frames (.node (x.span.through r) cs) (x :: xs) := by
  obtain ⟨y, hy, z, hz, hspan⟩ := h.span
  refine ⟨⟨x, rfl, z, ?_, ?_⟩, h.children.trans (List.sublist_cons_self x xs)⟩
  · rw [Option.mem_def] at hz ⊢
    rw [List.getLast?_cons, hz, Option.getD_some]
  · obtain rfl : r = _ := hspan
    rfl

/-- The frame around what comes before `x` is made to end at `x`. -/
theorem Frames.extend {cs : List Outline} {r : Span} (h : Frames (.node r cs) xs) (x : Outline) :
    Frames (.node (r.through x.span) cs) (xs ++ [x]) := by
  obtain ⟨y, hy, z, hz, hspan⟩ := h.span
  refine ⟨⟨y, ?_, x, List.getLast?_concat, ?_⟩, h.children.trans (List.sublist_append_left _ _)⟩
  · obtain ⟨rest, rfl⟩ := List.head?_eq_some_iff.1 hy
    rfl
  · obtain rfl : r = _ := hspan
    rfl

theorem frames_through (x y : Outline) (xs : List Outline) {cs : List Outline}
    (h : cs.Sublist (x :: (xs ++ [y]))) :
    Frames (.node (x.span.through y.span) cs) (x :: (xs ++ [y])) :=
  ⟨⟨x, rfl, y, by rw [Option.mem_def, ← List.cons_append, List.getLast?_concat], rfl⟩, h⟩

/-- From `x` to `y`, with what lies between them inside. -/
theorem frames_between (x y : Outline) (xs : List Outline) :
    Frames (.node (x.span.through y.span) xs) (x :: (xs ++ [y])) :=
  frames_through x y xs ((List.sublist_append_left xs [y]).trans (List.sublist_cons_self x _))

/-- From `x`, which is inside too, to `y`. -/
theorem frames_before (x y : Outline) (xs : List Outline) :
    Frames (.node (x.span.through y.span) (x :: xs)) (x :: (xs ++ [y])) :=
  frames_through x y xs ((List.sublist_append_left xs [y]).cons_cons x)

theorem Frames.becomes (h : Frames o xs) : Becomes (xs ++ zs) (o :: zs) :=
  fun _ hrow => hrow.frame h

theorem Frames.becomes_self (h : Frames o xs) : Becomes xs [o] := by
  intro us hrow
  rw [← List.append_nil xs] at hrow
  exact hrow.frame h

theorem Becomes.refl (xs : List Outline) : Becomes xs xs :=
  fun _ h => h

theorem Becomes.trans (h : Becomes xs ys) (h' : Becomes ys zs) : Becomes xs zs :=
  fun us hrow => h' us (h us hrow)

theorem becomes_sublist (h : ys.Sublist xs) : Becomes xs ys :=
  fun _ hrow => hrow.sublist h

/-- What lies in a row starts in its order. -/
theorem Row.increasing (h : Row us xs) : (xs.map fun x => x.span.start).Pairwise (· < ·) :=
  List.pairwise_map.2 (h.apart.imp_of_mem fun {x _} hx _ hlt =>
    Position.lt_of_le_of_lt (h.nested x hx).ordered hlt)

end Rows

end Uwu
