import Mathlib.Algebra.Ring.Nat
import Uwu.Proofs.Stages
import Uwu.Proofs.Typing.Absorption
import Uwu.Proofs.Typing.Beside

/-! One mistake does not bring about others. Where the value of a local variable is replaced by one
with a mistake, that mistake is reported, and no other but for calls with an argument of which
nothing is known any more. -/

namespace Uwu

open Typing

/-! ### Lists that differ at one place -/

/-- The lists differ by `S` at one place, with elements of weight `i` before it, and by `R` at the
others. -/
inductive Apart {α β : Type} (weight : α → Nat) (R S : α → β → Prop) :
    Nat → List α → List β → Prop
  | here {x y xs ys} : S x y → List.Forall₂ R xs ys → Apart weight R S 0 (x :: xs) (y :: ys)
  | later {x y i xs ys} : R x y → Apart weight R S i xs ys →
      Apart weight R S (weight x + i) (x :: xs) (y :: ys)

namespace Apart

variable {α β γ δ : Type} {weight : α → Nat} {R S : α → β → Prop} {i : Nat} {xs us : List α}
  {ys vs : List β}

theorem append (h : Apart weight R S i xs ys) (hs : List.Forall₂ R us vs) :
    Apart weight R S i (xs ++ us) (ys ++ vs) := by
  induction h with
  | here hx hxs => exact .here hx (List.rel_append hxs hs)
  | later hx _ ih => exact .later hx ih

theorem after (hs : List.Forall₂ R us vs) (h : Apart weight R S i xs ys) :
    Apart weight R S ((us.map weight).sum + i) (us ++ xs) (vs ++ ys) := by
  induction hs with
  | nil => exact (Nat.zero_add i).symm ▸ h
  | @cons u v us vs hu _ ih =>
    rw [List.map_cons, List.sum_cons, Nat.add_assoc]
    exact .later hu ih

theorem map {weight' : γ → Nat} {R' S' : γ → δ → Prop} {f : α → γ} {g : β → δ}
    (h : Apart weight R S i xs ys) (hw : ∀ x, weight' (f x) = weight x)
    (hr : ∀ x y, R x y → R' (f x) (g y)) (hs : ∀ x y, S x y → S' (f x) (g y)) :
    Apart weight' R' S' i (xs.map f) (ys.map g) := by
  induction h with
  | here hx hxs =>
    refine .here (hs _ _ hx) ?_
    rw [List.forall₂_map_left_iff, List.forall₂_map_right_iff]
    exact hxs.imp hr
  | later hx _ ih =>
    rw [← hw]
    exact .later (hr _ _ hx) ih

end Apart

/-! ### Replacing a value -/

/-- The declaration with another value. -/
def Declaration.revalued (d : Declaration) (e : Expr) : Declaration :=
  { d with value := some e }

mutual

/-- `e` is the value of a local variable that has another one before, and is declared at point `i` of
the statement. -/
inductive Stmt.Revalued (e : Expr) : Nat → Stmt → Stmt → Prop
  | declare {d} (h : d.value.isSome) :
      Stmt.Revalued e 0 (.declare d) (.declare (d.revalued e))
  | body {i condition body body' elseIfs elseBody span} (h : Block.Revalued e i body body') :
      Stmt.Revalued e (1 + i) (.branch condition body elseIfs elseBody span)
        (.branch condition body' elseIfs elseBody span)
  | elseIfs {i condition body elseIfs elseIfs' elseBody span}
      (h : ElseIfsRevalued e i elseIfs elseIfs') :
      Stmt.Revalued e (1 + (body.points.length + i)) (.branch condition body elseIfs elseBody span)
        (.branch condition body elseIfs' elseBody span)
  | elseBody {i condition body elseIfs b b' span} (h : Block.Revalued e i b b') :
      Stmt.Revalued e (1 + (body.points.length + ((elseIfPoints elseIfs).length + i)))
        (.branch condition body elseIfs (some b) span)
        (.branch condition body elseIfs (some b') span)
  | repeated {i bodyFirst condition body body' span} (h : Block.Revalued e i body body') :
      Stmt.Revalued e (1 + i) (.repeatWhile bodyFirst condition body span)
        (.repeatWhile bodyFirst condition body' span)
  | start {d condition update body span} (h : d.value.isSome) :
      Stmt.Revalued e 0 (.count (.declare d) condition update body span)
        (.count (.declare (d.revalued e)) condition update body span)
  | counted {i start condition update body body' span} (h : Block.Revalued e i body body') :
      Stmt.Revalued e (1 + (1 + (1 + i))) (.count start condition update body span)
        (.count start condition update body' span)

inductive Block.Revalued (e : Expr) : Nat → Block → Block → Prop
  | body {i body body' span} (h : StmtsRevalued e i body body') :
      Block.Revalued e i ⟨body, span⟩ ⟨body', span⟩

inductive StmtsRevalued (e : Expr) : Nat → List Stmt → List Stmt → Prop
  | here {i st st' sts} (h : Stmt.Revalued e i st st') :
      StmtsRevalued e i (st :: sts) (st' :: sts)
  | later {i st sts sts'} (h : StmtsRevalued e i sts sts') :
      StmtsRevalued e (st.points.length + i) (st :: sts) (st :: sts')

inductive ElseIfsRevalued (e : Expr) : Nat → List ElseIf → List ElseIf → Prop
  | here {i condition body body' span es} (h : Block.Revalued e i body body') :
      ElseIfsRevalued e (1 + i) (⟨condition, body, span⟩ :: es) (⟨condition, body', span⟩ :: es)
  | later {i condition body span es es'} (h : ElseIfsRevalued e i es es') :
      ElseIfsRevalued e (1 + (body.points.length + i)) (⟨condition, body, span⟩ :: es)
        (⟨condition, body, span⟩ :: es')

end

/-- The clause declares a variable, and then with `e` as its value. -/
inductive Clause.Revalued (e : Expr) : Clause → Clause → Prop
  | declare {d} (h : d.value.isSome) : Clause.Revalued e (.declare d) (.declare (d.revalued e))
  | start {d} (h : d.value.isSome) :
      Clause.Revalued e (.start (.declare d)) (.start (.declare (d.revalued e)))

/-- Both points are checked in the same way. -/
structure Point.Like (pt pt' : Point) : Prop where
  vars : ∀ vars, pt'.vars vars = pt.vars vars
  clause : pt'.clause = pt.clause

structure Point.Revalued (e : Expr) (pt pt' : Point) : Prop where
  vars : ∀ vars, pt'.vars vars = pt.vars vars
  clause : pt.clause.Revalued e pt'.clause

abbrev PointsApart (e : Expr) : Nat → List Point → List Point → Prop :=
  Apart (fun _ => 1) Point.Like (Point.Revalued e)

section Points

variable {e : Expr} {i : Nat}

theorem Point.likes (pts : List Point) : List.Forall₂ Point.Like pts pts :=
  List.forall₂_same.2 fun _ _ => ⟨fun _ => rfl, rfl⟩

theorem PointsApart.after (pts : List Point) {qts rts : List Point} (h : PointsApart e i qts rts) :
    PointsApart e (pts.length + i) (pts ++ qts) (pts ++ rts) := by
  have ha := Apart.after (Point.likes pts) h
  rwa [List.map_const', List.sum_replicate_nat, Nat.mul_one] at ha

/-- Declarations that are checked in the same way before the points. -/
theorem PointsApart.behind {ds ds' : List Declaration}
    (hd : ∀ vars : Variables, ds'.foldl Variables.declare vars = ds.foldl Variables.declare vars)
    {pts pts' : List Point} (h : PointsApart e i pts pts') :
    PointsApart e i (pts.map (Point.behind ds)) (pts'.map (Point.behind ds')) :=
  h.map (fun _ => rfl)
    (fun _ _ hp => ⟨fun vars => by rw [Point.vars_behind, Point.vars_behind, hd, hp.vars],
      hp.clause⟩)
    (fun _ _ hp => ⟨fun vars => by rw [Point.vars_behind, Point.vars_behind, hd, hp.vars],
      hp.clause⟩)

theorem Point.like_behind {ds ds' : List Declaration}
    (hd : ∀ vars : Variables, ds'.foldl Variables.declare vars = ds.foldl Variables.declare vars)
    (pts : List Point) :
    List.Forall₂ Point.Like (pts.map (Point.behind ds)) (pts.map (Point.behind ds')) := by
  rw [List.forall₂_map_left_iff, List.forall₂_map_right_iff]
  exact List.forall₂_same.2 fun pt _ =>
    ⟨fun vars => by rw [Point.vars_behind, Point.vars_behind, hd], rfl⟩

/-- What a statement declares does not depend on its value. -/
theorem Stmt.Revalued.declarations {st st' : Stmt} (h : st.Revalued e i st') (vars : Variables) :
    st'.declarations.foldl Variables.declare vars = st.declarations.foldl Variables.declare vars := by
  cases h <;> rfl

mutual

theorem Stmt.Revalued.points : ∀ {i : Nat} {st st' : Stmt}, st.Revalued e i st' →
    PointsApart e i st.points st'.points
  | _, _, _, .declare h => .here ⟨fun _ => rfl, .declare h⟩ .nil
  | _, _, _, .body h => by
    unfold Stmt.points
    rw [List.append_assoc, List.append_assoc]
    exact .later ⟨fun _ => rfl, rfl⟩ ((Block.Revalued.points h).append (Point.likes _))
  | _, _, _, .elseIfs h => by
    unfold Stmt.points
    rw [List.append_assoc, List.append_assoc]
    exact .later ⟨fun _ => rfl, rfl⟩
      (PointsApart.after _ ((ElseIfsRevalued.points h).append (Point.likes _)))
  | _, _, _, .elseBody h => by
    rw [Stmt.points, Stmt.points, List.append_assoc, List.append_assoc]
    exact .later ⟨fun _ => rfl, rfl⟩ (((Block.Revalued.points h).after _).after _)
  | _, _, _, .repeated h => by
    rw [Stmt.points, Stmt.points]
    exact .later ⟨fun _ => rfl, rfl⟩ (Block.Revalued.points h)
  | _, _, _, .start h => by
    rw [Stmt.points, Stmt.points]
    refine .here ⟨fun _ => rfl, .start h⟩ (Point.like_behind ?_ _)
    exact fun _ => rfl
  | _, _, _, .counted h => by
    rw [Stmt.points, Stmt.points]
    refine .later ⟨fun _ => rfl, rfl⟩ (PointsApart.behind (fun _ => rfl) ?_)
    exact .later ⟨fun _ => rfl, rfl⟩ (.later ⟨fun _ => rfl, rfl⟩ (Block.Revalued.points h))

theorem Block.Revalued.points : ∀ {i : Nat} {b b' : Block}, b.Revalued e i b' →
    PointsApart e i b.points b'.points
  | _, _, _, .body h => by
    rw [Block.points, Block.points]
    exact StmtsRevalued.points h

theorem StmtsRevalued.points : ∀ {i : Nat} {sts sts' : List Stmt}, StmtsRevalued e i sts sts' →
    PointsApart e i (stmtsPoints sts) (stmtsPoints sts')
  | _, _, _, .here h => by
    rw [stmtsPoints, stmtsPoints]
    exact (Stmt.Revalued.points h).append (Point.like_behind h.declarations _)
  | _, _, _, .later h => by
    rw [stmtsPoints, stmtsPoints]
    exact ((StmtsRevalued.points h).behind fun _ => rfl).after _

theorem ElseIfsRevalued.points : ∀ {i : Nat} {es es' : List ElseIf}, ElseIfsRevalued e i es es' →
    PointsApart e i (elseIfPoints es) (elseIfPoints es')
  | _, _, _, .here h => by
    rw [elseIfPoints, elseIfPoints]
    exact .later ⟨fun _ => rfl, rfl⟩ ((Block.Revalued.points h).append (Point.likes _))
  | _, _, _, .later h => by
    rw [elseIfPoints, elseIfPoints]
    exact .later ⟨fun _ => rfl, rfl⟩ ((ElseIfsRevalued.points h).after _)

end

mutual

/-- A body gives back a value somewhere, or not, as before. -/
theorem Stmt.Revalued.returns : ∀ {i : Nat} {st st' : Stmt}, st.Revalued e i st' →
    st'.returns = st.returns
  | _, _, _, .declare _ => rfl
  | _, _, _, .start _ => by rw [Stmt.returns, Stmt.returns]
  | _, _, _, .body h => by
    unfold Stmt.returns
    rw [Block.Revalued.returns h]
  | _, _, _, .elseIfs h => by
    unfold Stmt.returns
    rw [ElseIfsRevalued.returns h]
  | _, _, _, .elseBody h => by rw [Stmt.returns, Stmt.returns, Block.Revalued.returns h]
  | _, _, _, .repeated h | _, _, _, .counted h => by
    rw [Stmt.returns, Stmt.returns, Block.Revalued.returns h]

theorem Block.Revalued.returns : ∀ {i : Nat} {b b' : Block}, b.Revalued e i b' →
    b'.returns = b.returns
  | _, _, _, .body h => by
    rw [Block.returns, Block.returns, StmtsRevalued.returns h]

theorem StmtsRevalued.returns : ∀ {i : Nat} {sts sts' : List Stmt}, StmtsRevalued e i sts sts' →
    anyReturns sts' = anyReturns sts
  | _, _, _, .here h => by rw [anyReturns, anyReturns, Stmt.Revalued.returns h]
  | _, _, _, .later h => by rw [anyReturns, anyReturns, StmtsRevalued.returns h]

theorem ElseIfsRevalued.returns : ∀ {i : Nat} {es es' : List ElseIf}, ElseIfsRevalued e i es es' →
    anyElseIfReturns es' = anyElseIfReturns es
  | _, _, _, .here h => by rw [anyElseIfReturns, anyElseIfReturns, Block.Revalued.returns h]
  | _, _, _, .later h => by rw [anyElseIfReturns, anyElseIfReturns, ElseIfsRevalued.returns h]

end

end Points

/-! ### Programs -/

/-- How many views there are in a function. -/
def Function.size (f : Function) : Nat :=
  f.body.points.length

def Class.withMethods (c : Class) (methods : List Function) : Class :=
  { c with methods }

def Class.size (c : Class) : Nat :=
  c.properties.length + (c.methods.map Function.size).sum

/-- `e` is the value of a local variable that has another one before, and is declared at view `i` of
the program. -/
inductive Program.Revalued (e : Expr) (p : Program) : Nat → Program → Prop
  | function {i fs f body gs} (hp : p.functions = fs ++ f :: gs) (h : f.body.Revalued e i body) :
      Program.Revalued e p (p.globals.length + ((fs.map Function.size).sum + i))
        { p with functions := fs ++ f.withBody body :: gs }
  | entry {i body} (h : p.entry.body.Revalued e i body) :
      Program.Revalued e p (p.globals.length + ((p.functions.map Function.size).sum + i))
        { p with entry := p.entry.withBody body }
  | method {i cs c ds ms f body ns} (hp : p.classes = cs ++ c :: ds)
      (hc : c.methods = ms ++ f :: ns) (h : f.body.Revalued e i body) :
      Program.Revalued e p
        (p.globals.length + ((p.functionsAndEntry.map Function.size).sum +
          ((cs.map Class.size).sum + (c.properties.length + ((ms.map Function.size).sum + i)))))
        { p with classes := cs ++ c.withMethods (ms ++ f.withBody body :: ns) :: ds }

/-! ### Steps -/

inductive Step.Revalued (e : Expr) : Step → Step → Prop
  | view {v v' : View} (h : v.Beside v') (hc : v.clause.Revalued e v'.clause) :
      Step.Revalued e (.view v) (.view v')

/-- How many views a step has. -/
def Step.size : Step → Nat
  | view _ => 1
  | enter _ | leave _ => 0

abbrev StepsApart (e : Expr) : Nat → List Step → List Step → Prop :=
  Apart Step.size Step.Like (Step.Revalued e)

section Programs

variable {p p' : Program} {cls cls' : Option Class} {f : Function} {body : Block} {e : Expr}
  {i : Nat}

theorem enter_apart (ps : List Param) {sts sts' : List Step} (h : StepsApart e i sts sts') :
    StepsApart e i (.enter ps :: sts) (.enter ps :: sts') := by
  have hsteps := Apart.later (Step.Like.enter ps) h
  rwa [Step.size, Nat.zero_add] at hsteps

theorem Body.steps_apart (hp : p.Beside p' cls cls') (hb : f.body.Revalued e i body) :
    StepsApart e i (Body.steps p ⟨f, cls⟩) (Body.steps p' ⟨f.withBody body, cls'⟩) := by
  have hpoints : StepsApart e i (f.body.points.map (Step.view ∘ Body.view p ⟨f, cls⟩))
      (body.points.map (Step.view ∘ Body.view p' ⟨f.withBody body, cls'⟩)) :=
    hb.points.map (fun _ => rfl) (fun _ _ h => .view (view_beside hp f body h.vars) h.clause)
      fun _ _ h => .view (view_beside hp f body h.vars) h.clause
  have hleave : List.Forall₂ Step.Like [.leave f] [.leave (f.withBody body)] :=
    .cons (.leave rfl rfl hb.returns) .nil
  rw [steps, steps, views, views, List.map_map, List.map_map]
  exact enter_apart f.params (hpoints.append hleave)

theorem sum_size_views {α : Type} (view : α → View) (xs : List α) :
    ((xs.map (Step.view ∘ view)).map Step.size).sum = xs.length := by
  rw [List.map_map, show Step.size ∘ Step.view ∘ view = fun _ => 1 from rfl, List.map_const',
    List.sum_replicate_nat, Nat.mul_one]

theorem Body.sum_size (f : Function) :
    ((Body.steps p ⟨f, cls⟩).map Step.size).sum = f.size := by
  rw [steps, views, List.map_map, List.map_cons, List.map_append, List.sum_cons, List.sum_append,
    sum_size_views]
  exact Nat.zero_add _

theorem sum_size_flatMap {α : Type} {steps : α → List Step} {size : α → Nat}
    (h : ∀ x, ((steps x).map Step.size).sum = size x) (xs : List α) :
    ((xs.flatMap steps).map Step.size).sum = (xs.map size).sum := by
  rw [List.map_flatMap, List.flatMap_def, List.sum_flatten, List.map_map]
  exact congrArg (fun sum => (xs.map sum).sum) (funext h)

theorem sum_size_functionSteps (fs : List Function) :
    ((functionSteps p cls fs).map Step.size).sum = (fs.map Function.size).sum := by
  rw [functionSteps, List.flatMap_map]
  exact sum_size_flatMap Body.sum_size fs

theorem functionSteps_apart (hp : p.Beside p' cls cls') (hb : f.body.Revalued e i body)
    (fs gs : List Function) :
    StepsApart e ((fs.map Function.size).sum + i) (functionSteps p cls (fs ++ f :: gs))
      (functionSteps p' cls' (fs ++ f.withBody body :: gs)) := by
  rw [functionSteps_append, functionSteps_append, ← sum_size_functionSteps (p := p)]
  exact .after (functionSteps_like hp fs)
    ((Body.steps_apart hp hb).append (functionSteps_like hp gs))

theorem sum_size_initialisers (cls : Option Class) (scope : Scope) (ds : List Declaration)
    (vars : Variables) :
    (((initialiserViews cls scope ds vars).map Step.view).map Step.size).sum = ds.length := by
  induction ds generalizing vars with
  | nil => rfl
  | cons d ds ih =>
    rw [initialiserViews, List.map_cons, List.map_cons, List.sum_cons, ih, List.length_cons,
      Nat.add_comm]
    rfl

theorem Class.sum_size (c : Class) : ((c.steps p).map Step.size).sum = c.size := by
  have hsteps : c.steps p = .enter c.params ::
      (c.initialisers.map .view ++ functionSteps p (some c) c.methods) := rfl
  rw [hsteps, List.map_cons, List.map_append, List.sum_cons, List.sum_append, initialisers,
    sum_size_initialisers, sum_size_functionSteps]
  exact Nat.zero_add _

theorem Class.steps_apart {c : Class} {ms ns : List Function} (hc : c.methods = ms ++ f :: ns)
    (hb : f.body.Revalued e i body) :
    StepsApart e (c.properties.length + ((ms.map Function.size).sum + i)) (c.steps p)
      ((c.withMethods (ms ++ f.withBody body :: ns)).steps p') := by
  have hp : p.Beside p' (some c) (some (c.withMethods (ms ++ f.withBody body :: ns))) := ⟨rfl, rfl⟩
  have hmethods := functionSteps_apart hp hb ms ns
  rw [← hc] at hmethods
  have hsteps := Apart.after (initialisers_like hp.cls c.scope
    (c.withMethods (ms ++ f.withBody body :: ns)).scope c.properties c.paramVars) hmethods
  rw [sum_size_initialisers] at hsteps
  exact enter_apart c.params hsteps

theorem sum_size_classSteps (cs : List Class) :
    ((classSteps p cs).map Step.size).sum = (cs.map Class.size).sum :=
  sum_size_flatMap Class.sum_size cs

theorem classSteps_apart {c : Class} {ms ns : List Function} (hc : c.methods = ms ++ f :: ns)
    (hb : f.body.Revalued e i body) (cs ds : List Class) :
    StepsApart e
      ((cs.map Class.size).sum + (c.properties.length + ((ms.map Function.size).sum + i)))
      (classSteps p (cs ++ c :: ds))
      (classSteps p' (cs ++ c.withMethods (ms ++ f.withBody body :: ns) :: ds)) := by
  rw [classSteps, classSteps, List.flatMap_append, List.flatMap_append,
    ← sum_size_classSteps (p := p)]
  exact .after (classSteps_like cs) ((Class.steps_apart hc hb).append (classSteps_like ds))

/-! ### The whole program -/

/-- The checks that come after the globals differ. -/
theorem Program.steps_apart (hp : p'.globals = p.globals)
    (h : p.Beside p' none none →
      StepsApart e i (functionSteps p none p.functionsAndEntry ++ classSteps p p.classes)
        (functionSteps p' none p'.functionsAndEntry ++ classSteps p' p'.classes)) :
    StepsApart e (p.globals.length + i) p.steps p'.steps := by
  have hbeside : p.Beside p' none none := by
    refine ⟨?_, rfl⟩
    rw [varsIn, varsIn, globalVars, globalVars, hp]
  have hglobals : List.Forall₂ Step.Like (p.initialisers.map .view) (p'.initialisers.map .view) := by
    rw [initialisers, initialisers, hp]
    exact initialisers_like rfl _ _ _ _
  have hsteps := Apart.after hglobals (h hbeside)
  rwa [initialisers, sum_size_initialisers] at hsteps

/-- In a program with another value the checks differ at the view of that value. -/
theorem Program.Revalued.steps (h : p.Revalued e i p') : StepsApart e i p.steps p'.steps := by
  cases h with
  | @function i fs f body gs hp h =>
    refine Program.steps_apart rfl fun hb => ?_
    have hfs : p.functionsAndEntry = fs ++ f :: (gs ++ [p.entry]) := by
      rw [functionsAndEntry, hp, List.append_assoc, List.cons_append]
    have hfs' : functionsAndEntry { p with functions := fs ++ f.withBody body :: gs } =
        fs ++ f.withBody body :: (gs ++ [p.entry]) := by
      rw [functionsAndEntry, List.append_assoc, List.cons_append]
    rw [hfs, hfs']
    exact (functionSteps_apart hb h fs _).append (classSteps_like p.classes)
  | entry h =>
    exact Program.steps_apart rfl fun hb =>
      (functionSteps_apart hb h p.functions []).append (classSteps_like p.classes)
  | @method i cs c ds ms f body ns hp hc h =>
    refine Program.steps_apart rfl fun hb => ?_
    have hfs := functionSteps_like hb p.functionsAndEntry
    rw [← sum_size_functionSteps (p := p), hp]
    exact .after hfs (classSteps_apart hc h cs ds)

/-! ### Runs -/

/-- Names, parameters and types are as before. -/
theorem Program.Revalued.signatures (h : p.Revalued e i p') :
    Signatures.ofProgram p' = Signatures.ofProgram p := by
  cases h with
  | function hp h =>
    rw [Signatures.ofProgram, Signatures.ofProgram, hp, List.foldl_append, List.foldl_append]
    rfl
  | entry h => rfl
  | method hp hc h =>
    rw [Signatures.ofProgram, Signatures.ofProgram, hp, List.foldl_append, List.foldl_append,
      List.foldl_cons, List.foldl_cons]
    congr 1
    rw [Signatures.addClass, Signatures.addClass, hc]
    dsimp only [Class.withMethods]
    rw [List.foldl_append, List.foldl_append]
    rfl

theorem Step.run_like (hs : Signatures.ofProgram p' = Signatures.ofProgram p) {st st' : Step}
    (h : st.Like st') : st'.run p' = st.run p := by
  cases h with
  | enter ps => rfl
  | view h hc =>
    rw [run, run, View.check, View.check, Program.settingIn, Program.settingIn, hs, h.cls,
      h.result, h.vars, hc]
  | leave hn ht hr => rw [run, run, checkReturn, checkReturn, hn, ht, hr]

theorem Step.length_visits (st : Step) (s : State) : (st.visits s).length = st.size := by
  cases st <;> rfl

/-- The mistakes of the calls at a visit in which nothing is known of an argument. -/
def Visit.unknownIn (p : Program) (x : Visit) : List Diagnostic :=
  (x.env p).unknownInAll x.view.clause.calls

theorem entered_subset {less valued : List Span} (h : less ⊆ valued) (ps : List Param) :
    entered ps less ⊆ entered ps valued := by
  induction ps generalizing less valued with
  | nil => exact h
  | cons q ps ih => exact ih (noted_subset h id)

theorem View.Beside.env (hs : Signatures.ofProgram p' = Signatures.ofProgram p) {v v' : View}
    (h : v.Beside v') (valued : List Span) :
    Visit.env p' ⟨v', valued⟩ = Visit.env p ⟨v, valued⟩ := by
  unfold Visit.env
  dsimp only
  rw [hs, h.cls, h.vars]

/-- A step that has no mistakes, and then begins with fewer variables that hold a value. -/
theorem Step.absorbs (hs : Signatures.ofProgram p' = Signatures.ofProgram p) {st st' : Step}
    (h : st.Like st') {s s' : State} (hv : s'.valued ⊆ s.valued)
    (hm : (st.run p s).2.mistakes = []) :
    (st'.run p' s').2.mistakes = s'.mistakes ++ (st'.visits s').flatMap (Visit.unknownIn p') ∧
      (st'.run p' s').2.valued ⊆ (st.run p s).2.valued := by
  rw [run_like hs h]
  cases h with
  | enter ps =>
    rw [run, enterParams_run, enterParams_run]
    exact ⟨(List.append_nil _).symm, entered_subset hv ps⟩
  | @view v v' h hc =>
    obtain ⟨hms, hvs⟩ := v.check_brings p s
    obtain ⟨hms', hvs'⟩ := v.check_brings p s'
    rw [run] at hm ⊢
    rw [hms, List.append_eq_nil_iff] at hm
    have hless : s'.valued ⊆ ((p.settingIn v.cls).env v.vars s).valued := hv
    obtain ⟨hunknown, hnoted⟩ := Clause.effect_absorbs hless v.result v.clause hm.2
    refine ⟨?_, ?_⟩
    · rw [hms', visits, List.flatMap_singleton, Visit.unknownIn, h.env hs, hc]
      exact congrArg (s'.mistakes ++ ·) hunknown
    · rw [hvs, hvs']
      exact hnoted
  | @leave f f' hn ht hr =>
    rw [run, checkReturn_run] at hm
    rw [run, checkReturn_run, checkReturn_run, (List.append_eq_nil_iff.1 hm).2]
    exact ⟨rfl, hv⟩

theorem forM_cons_run (st : Step) (sts : List Step) (s : State) :
    (((st :: sts).forM (Step.run p)) s).2 = ((sts.forM (Step.run p)) (st.run p s).2).2 := rfl

/-- Steps that have no mistakes, and then begin with fewer variables that hold a value. -/
theorem absorbs_steps (hs : Signatures.ofProgram p' = Signatures.ofProgram p)
    {sts sts' : List Step} (h : List.Forall₂ Step.Like sts sts') {s s' : State}
    (hv : s'.valued ⊆ s.valued) (hm : ((sts.forM (Step.run p)) s).2.mistakes = []) :
    ((sts'.forM (Step.run p')) s').2.mistakes =
      s'.mistakes ++ (visitsFrom p' sts' s').flatMap (Visit.unknownIn p') := by
  -- Step by step, the variables that hold a value in the second run do so in the first.
  induction h generalizing s s' with
  | nil => exact (List.append_nil _).symm
  | @cons st st' sts sts' h _ ih =>
    have hstep : (st.run p s).2.mistakes = [] := (clean_visitsFrom sts _ hm).1
    obtain ⟨hunknown, hless⟩ := Step.absorbs hs h hv hstep
    rw [forM_cons_run, ih hless hm, hunknown, visitsFrom, List.flatMap_append, List.append_assoc]

/-! ### The replaced value -/

/-- A value of which nothing is known is no mistake in a declaration. -/
theorem declarationEffect_revalued (d : Declaration) {env : Env} {m : Diagnostic}
    (he : typeOf env e = ⟨.san, [m]⟩) :
    declarationEffect (d.revalued e) env = ⟨[m], some (d.name.span, false)⟩ := by
  have hvalue : (valueFor d.type e env).mistakes = [m] := by
    unfold valueFor
    rw [he, Checked.mistakes_bind, san_fits]
    rfl
  unfold declarationEffect Declaration.revalued
  dsimp only
  rw [hvalue]
  rfl

/-- The clause with the mistake has no other, and its variable holds no value after it. -/
theorem Clause.Revalued.effect {c c' : Clause} (h : c.Revalued e c') {env : Env} {m : Diagnostic}
    (he : typeOf env e = ⟨.san, [m]⟩) (result : Result) :
    (c.effect result env).mistakes = [] → (c'.effect result env).mistakes = [m] ∧
      noted env.valued (c'.effect result env).note ⊆
        noted env.valued (c.effect result env).note := by
  intro hm
  cases h with
  | @declare d =>
    obtain ⟨holds, hn⟩ := declarationEffect_note d env
    rw [Clause.effect, Clause.effect, declarationEffect_revalued d he, hn]
    exact ⟨rfl, noted_subset (List.Subset.refl _) Bool.noConfusion⟩
  | @start d =>
    have hd : loopVariable (d.revalued e) = (loopVariable d).revalued e := rfl
    have hc : constantLoopMistakes (d.revalued e) = [] := (List.append_eq_nil_iff.1 hm).1
    obtain ⟨holds, hn⟩ := declarationEffect_note (loopVariable d) env
    rw [Clause.effect, Clause.effect, loopStartEffect, loopStartEffect, hd, hc,
      declarationEffect_revalued (loopVariable d) he, hn]
    exact ⟨rfl, noted_subset (List.Subset.refl _) Bool.noConfusion⟩

theorem Step.Like.size {st st' : Step} (h : st.Like st') : st'.size = st.size := by
  cases h <;> rfl

/-- The visits of the steps after the first. -/
theorem drop_visitsFrom_cons (st : Step) (sts : List Step) (s : State) (j : Nat) :
    (visitsFrom p (st :: sts) s).drop (st.size + j) =
      (visitsFrom p sts (st.run p s).2).drop j := by
  rw [visitsFrom, ← st.length_visits s, List.drop_length_add_append]

theorem mistakes_of_apart (hs : Signatures.ofProgram p' = Signatures.ofProgram p)
    {sts sts' : List Step} (h : StepsApart e i sts sts') {s : State}
    (hm : ((sts.forM (Step.run p)) s).2.mistakes = []) {x : Visit}
    (hx : (visitsFrom p sts s)[i]? = some x) {m : Diagnostic}
    (he : typeOf (x.env p) e = ⟨.san, [m]⟩) :
    ((sts'.forM (Step.run p')) s).2.mistakes =
      m :: ((visitsFrom p' sts' s).drop (i + 1)).flatMap (Visit.unknownIn p') := by
  -- Up to the place where the steps differ both runs are in the same state.
  induction h generalizing s with
  | @here st st' sts sts' hst hsts =>
    cases hst with
    | @view v v' h hc =>
      obtain rfl : ⟨v, s.valued⟩ = x := Option.some.inj hx
      have hstep : ((v.check p) s).2.mistakes = [] := (clean_visitsFrom sts _ hm).1
      obtain ⟨hms, hvs⟩ := v.check_brings p s
      obtain ⟨hms', hvs'⟩ := v'.check_brings p' s
      have henv : (p'.settingIn v'.cls).env v'.vars s = Visit.env p ⟨v, s.valued⟩ := h.env hs _
      rw [hms, List.append_eq_nil_iff] at hstep
      obtain ⟨hfound, hless⟩ := hc.effect he v.result hstep.2
      rw [henv, h.result] at hms' hvs'
      rw [hfound, hstep.1] at hms'
      have hvalued : (v'.check p' s).2.valued ⊆ (v.check p s).2.valued := by
        rw [hvs, hvs']
        exact hless
      rw [forM_cons_run, Step.run, absorbs_steps hs hsts hvalued hm, hms']
      rfl
  | @later st st' i sts sts' hst h ih =>
    have hrest : ((sts.forM (Step.run p)) (st.run p s).2).2.mistakes = [] := hm
    rw [← List.head?_drop, drop_visitsFrom_cons, List.head?_drop] at hx
    rw [forM_cons_run, Step.run_like hs hst, ih hrest hx, Nat.add_assoc, ← hst.size,
      drop_visitsFrom_cons, Step.run_like hs hst]

end Programs

/-- Where the value of a local variable is replaced by one with a mistake, of which nothing is known
then, the program has this mistake and one for each later call with an argument of which nothing is
known where the parameter has a type. -/
theorem Program.Revalued.mistakes_checkTypes {p p' : Program} {e : Expr} {i : Nat}
    (hp : p.checkTypes.mistakes = []) (h : p.Revalued e i p') {x : Visit}
    (hx : p.visits[i]? = some x) {m : Diagnostic} (he : typeOf (x.env p) e = ⟨.san, [m]⟩) :
    p'.checkTypes.mistakes = m :: (p'.visits.drop (i + 1)).flatMap (Visit.unknownIn p') := by
  rw [checkTypes, checkProgram_eq] at hp ⊢
  exact mistakes_of_apart h.signatures h.steps hp hx he

/-! ### The first variable of the entry -/

/-- The program with another value of the variable that its entry begins with. -/
def Program.revalueFirst (p : Program) (e : Expr) : Option Program :=
  match p.entry.body with
  | ⟨.declare d :: sts, span⟩ =>
    if d.value.isSome then
      some { p with entry := p.entry.withBody ⟨.declare (d.revalued e) :: sts, span⟩ }
    else none
  | _ => none

/-- Where the first variable of the entry is declared. -/
def Program.entryView (p : Program) : Nat :=
  p.globals.length + (p.functions.map Function.size).sum

theorem Program.revalued_of_revalueFirst {p p' : Program} {e : Expr}
    (h : p.revalueFirst e = some p') : p.Revalued e p.entryView p' := by
  unfold revalueFirst at h
  split at h
  next d sts span hb =>
    split at h
    next hd =>
      cases h
      have hbody : p.entry.body.Revalued e 0 ⟨.declare (d.revalued e) :: sts, span⟩ := by
        rw [hb]
        exact .body (.here (.declare hd))
      exact .entry hbody
    next => cases h
  next => cases h

/-- The expression subtracts from a string. -/
def badValue : Expr :=
  .infixed (.literal (.str "s") ⟨⟨3, 9⟩, ⟨3, 11⟩⟩) ⟨.subtract, ⟨⟨3, 13⟩, ⟨3, 13⟩⟩⟩
    (.literal (.int 1) ⟨⟨3, 15⟩, ⟨3, 15⟩⟩) ⟨⟨3, 9⟩, ⟨3, 15⟩⟩

def badMistake : Diagnostic :=
  ⟨.badOperand "-" "senpai", ⟨⟨3, 9⟩, ⟨3, 11⟩⟩⟩

theorem typeOf_badValue (env : Env) : typeOf env badValue = ⟨.san, [badMistake]⟩ := by
  rfl

/-- A program that uses the variable `a` as an element, an index and an argument, and once more with
a new value. -/
def fadingUses : String :=
  "fwunc foo-san(n-chan) [[\n]]\nfwunc mainuwu-san() [[\na-chan = 1~\nb-chan[] = {a, 2}~\n" ++
    "foo(b[a] + 1)~\nfoo(a)~\na = 3~\nfoo(a)~\n]]\n"

theorem fadingUses_absorbed : ∃ p, (compile fadingUses .empty).outcome = .ok p ∧
    ∃ p', p.Revalued badValue 1 p' ∧ p'.checkTypes.mistakes.length = 2 ∧
      p'.checkTypes.mistakes = badMistake :: (p'.visits.drop 2).flatMap (Visit.unknownIn p') := by
  have hs : fadingUses.toList = _ :=
    toList_append_of_eq (toList_of_eq rfl) (toList_of_eq rfl)
  obtain ⟨p, hp, ht⟩ := exists_compiled fadingUses .empty
    (fun p => p.entryView == 1 && p.visits[1]?.isSome && (p.revalueFirst badValue).any fun p' =>
      p'.checkTypes.mistakes.length == 2) hs (by decide +kernel)
  simp only [Bool.and_eq_true, beq_iff_eq, Option.isSome_iff_exists, Option.any_eq_true] at ht
  obtain ⟨⟨hi, x, hx⟩, p', hp', hl⟩ := ht
  have hrevalued := Program.revalued_of_revalueFirst hp'
  rw [hi] at hrevalued
  have htypes := (Program.mistakes_eq_nil.1 (compile_eq_ok.1 hp).2.2).2
  exact ⟨p, hp, p', hrevalued, hl, hrevalued.mistakes_checkTypes htypes hx (typeOf_badValue _)⟩

/-- A program that passes its variable `a` on. -/
def passedOn : String :=
  "fwunc foo-san(n-chan) [[\n]]\nfwunc mainuwu-san() [[\na-chan = 1~\nfoo(a)~\n]]\n"

/-- The one mistake in the value of `a` is not the only one, though names have none. -/
theorem passedOn_cascades : ∃ p, (compile passedOn .empty).outcome = .ok p ∧
    ∃ p' x, p.Revalued badValue 1 p' ∧ p'.checkNames = [] ∧ p.visits[1]? = some x ∧
      typeOf (x.env p) badValue = ⟨.san, [badMistake]⟩ ∧
      p'.checkTypes.mistakes ≠ [badMistake] := by
  obtain ⟨p, hp, ht⟩ := exists_compiled passedOn .empty
    (fun p => p.entryView == 1 && p.visits[1]?.isSome && (p.revalueFirst badValue).any fun p' =>
      p'.checkNames.isEmpty && p'.checkTypes.mistakes != [badMistake])
    (toList_of_eq rfl) (by decide +kernel)
  simp only [Bool.and_eq_true, beq_iff_eq, bne_iff_ne, Option.isSome_iff_exists,
    Option.any_eq_true, List.isEmpty_iff] at ht
  obtain ⟨⟨hi, x, hx⟩, p', hp', hnames, hm⟩ := ht
  have hrevalued := Program.revalued_of_revalueFirst hp'
  rw [hi] at hrevalued
  exact ⟨p, hp, p', x, hrevalued, hnames, hx, typeOf_badValue _, hm⟩

end Uwu
