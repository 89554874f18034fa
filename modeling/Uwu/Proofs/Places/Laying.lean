import Uwu.Proofs.Grammar.SourceOrder
import Uwu.Proofs.Places.Outlines

/-! Parsers and the rows that they lay. A parser takes tokens one behind the other, so what it makes
of them lies in a row, and the row of the parser that goes on lies behind. -/

namespace Uwu.Grammar

open Outline

variable {α β : Type} {P : α → List Outline → Prop} {Q : β → List Outline → Prop}
  {outline : α → Outline} {outlines : α → List Outline} {p : Parse α} {s : State}

/-! ### Rows of tokens that are taken -/

/-- `P` holds of what `p` makes and of a row on the tokens that it takes. -/
def Lays (P : α → List Outline → Prop) (p : Parse α) (s : State) : Prop :=
  Outcome p s (fun a t => ∃ us xs, s.stream.tokens = us ++ t.stream.tokens ∧ P a xs ∧
      (Laid s.stream.tokens → Row us xs))
    (Shrinks s)

/-- The row that `p` lays is the outline of what it makes. -/
abbrev Draws (outline : α → Outline) (p : Parse α) (s : State) : Prop :=
  Lays (fun a xs => xs = [outline a]) p s

theorem Lays.becomes {P' : α → List Outline → Prop} (hp : Lays P p s)
    (h : ∀ a xs, P a xs → ∃ ys, Becomes xs ys ∧ P' a ys) : Lays P' p s := by
  refine Outcome.mono hp ?_ fun _ => id
  intro a t ⟨us, xs, htokens, ha, hrow⟩
  obtain ⟨ys, hxy, hys⟩ := h a xs ha
  exact ⟨us, ys, htokens, hys, fun hlaid => hxy us (hrow hlaid)⟩

/-- The row of what is made is put into one outline. -/
theorem Lays.draws (hp : Lays (fun a xs => Becomes xs [outline a]) p s) : Draws outline p s :=
  hp.becomes fun _ _ h => ⟨_, h, rfl⟩

theorem Lays.framed (hp : Lays (fun a xs => Frames (outline a) xs) p s) : Draws outline p s :=
  hp.becomes fun _ _ h => ⟨_, h.becomes_self, rfl⟩

theorem lays_pure {a : α} (h : P a []) : Lays P (pure a) s :=
  ⟨[], [], rfl, h, fun _ => row_nil []⟩

theorem lays_throw (d : Diagnostic) : Lays P (throw d : Parse α) s :=
  List.suffix_rfl

theorem lays_failHere (cause : Cause) : Lays P (failHere cause : Parse α) s :=
  List.suffix_rfl

theorem lays_failExpected (what : String) : Lays P (failExpected what : Parse α) s :=
  List.suffix_rfl

theorem lays_failUnexpected (reason : String) : Lays P (failUnexpected reason : Parse α) s :=
  List.suffix_rfl

@[simp]
theorem lays_current_bind {f : Token → Parse β} :
    Lays Q (current >>= f) s ↔ Lays Q (f s.stream.current) s := Iff.rfl

@[simp]
theorem lays_currentKind_bind {f : Kind → Parse β} :
    Lays Q (currentKind >>= f) s ↔ Lays Q (f s.kind) s := Iff.rfl

@[simp]
theorem lays_nextKind_bind {f : Kind → Parse β} :
    Lays Q (nextKind >>= f) s ↔ Lays Q (f s.stream.peek.kind) s := Iff.rfl

@[simp]
theorem lays_bound_bind {f : Nat → Parse β} :
    Lays Q (bound >>= f) s ↔ Lays Q (f (s.stream.tokens.length + 1)) s := Iff.rfl

@[simp]
theorem lays_isLooping_bind {f : Bool → Parse β} :
    Lays Q (isLooping >>= f) s ↔ Lays Q (f (0 < s.loops)) s := Iff.rfl

@[simp]
theorem lays_declarationAhead_bind {f : Bool → Parse β} :
    Lays Q (declarationAhead >>= f) s ↔
      Lays Q (f (isIdentifier s.kind && s.stream.peek.kind == .symbol .dash)) s := Iff.rfl

/-- Behind tokens that hold a row, the parser that goes on lays its own. -/
theorem Lays.behind {q : Parse β} {t : State} {us : List Token} {xs : List Outline}
    (htokens : s.stream.tokens = us ++ t.stream.tokens) (hxs : Laid s.stream.tokens → Row us xs)
    (hq : Lays (fun b ys => Q b (xs ++ ys)) q t) :
    Outcome q t (fun b u => ∃ vs ys, s.stream.tokens = vs ++ u.stream.tokens ∧ Q b ys ∧
        (Laid s.stream.tokens → Row vs ys))
      (Shrinks s) := by
  have hsuffix : Shrinks s t := ⟨us, htokens.symm⟩
  refine Outcome.mono hq ?_ fun u hu => List.IsSuffix.trans hu hsuffix
  intro b u ⟨vs, ys, htokens', hb, hys⟩
  have hall : s.stream.tokens = (us ++ vs) ++ u.stream.tokens := by
    rw [htokens, htokens', List.append_assoc]
  refine ⟨us ++ vs, xs ++ ys, hall, hb, fun hlaid => ?_⟩
  have hboth : Laid (us ++ vs) := by
    rw [hall] at hlaid
    exact hlaid.front
  exact (hxs hlaid).append hboth (hys (hlaid.suffix hsuffix))

theorem Lays.bind {f : α → Parse β} (hp : Lays P p s)
    (hf : ∀ a t xs, P a xs → Lays (fun b ys => Q b (xs ++ ys)) (f a) t) :
    Lays Q (p >>= f) s := by
  rw [Lays, outcome_bind]
  refine Outcome.mono hp ?_ fun _ => id
  intro a t ⟨us, xs, htokens, ha, hxs⟩
  exact Lays.behind htokens hxs (hf a t xs ha)

theorem Lays.then {f : α → Parse β} (hp : Lays (fun a xs => xs = outlines a) p s)
    (hf : ∀ a t, Lays (fun b ys => Q b (outlines a ++ ys)) (f a) t) : Lays Q (p >>= f) s := by
  refine hp.bind fun a t xs hxs => ?_
  subst hxs
  exact hf a t

theorem Lays.result {g : α → β} (hp : Lays P p s) (hg : ∀ a xs, P a xs → Q (g a) xs) :
    Lays Q (p >>= fun a => pure (g a)) s :=
  hp.bind fun a _ xs ha => lays_pure (by rw [List.append_nil]; exact hg a xs ha)

theorem Lays.map {g : α → β} (hp : Lays P p s) (hg : ∀ a xs, P a xs → Q (g a) xs) :
    Lays Q (g <$> p) s := by
  rw [← bind_pure_comp]
  exact hp.result hg

/-- Tokens may be taken that nothing in the row stands for. -/
theorem Reads.lays {n : Nat} (h : Reads Shrinks n p s) : Lays (fun _ xs => xs = []) p s :=
  Outcome.mono h (fun _ _ ⟨⟨us, hus⟩, _⟩ => ⟨us, [], hus.symm, rfl, fun _ => row_nil us⟩)
    fun _ => id

theorem Reads.andLays {n : Nat} {f : α → Parse β} (hp : Reads Shrinks n p s)
    (hf : ∀ a t, Lays Q (f a) t) : Lays Q (p >>= f) s := by
  refine hp.lays.bind fun a t xs hxs => ?_
  subst hxs
  exact hf a t

theorem lays_advance (h : s.kind ≠ .endOfFile) :
    Lays (fun t xs => t = s.stream.current ∧ xs = [leaf t.span]) advance s := by
  have htokens := State.tokens_eq_cons h
  refine ⟨[s.stream.current], _, htokens, ⟨rfl, rfl⟩, fun hlaid => ?_⟩
  rw [htokens] at hlaid
  exact row_leaf (List.mem_singleton.2 rfl) (@Laid.front [s.stream.current] _ hlaid)

/-- The current token begins the row. -/
theorem Lays.next {f : Token → Parse β} (h : isPlain s.kind)
    (hf : ∀ t, Lays (fun b ys => Q b (leaf s.stream.current.span :: ys)) (f s.stream.current) t) :
    Lays Q (advance >>= f) s := by
  refine (lays_advance (isPlain_iff.1 h).1).bind ?_
  rintro _ t xs ⟨rfl, rfl⟩
  exact hf t

theorem lays_expect {k : Kind} (hk : k ≠ .endOfFile) :
    Lays (fun t xs => xs = [leaf t.span]) (expect k) s := by
  rw [expect, expectOr, lays_currentKind_bind]
  split
  next h => exact (lays_advance (h ▸ hk)).becomes fun t xs hxs => ⟨xs, .refl xs, hxs.2⟩
  next => exact lays_failExpected _

theorem draws_expectSymbol {x : Symbol} : Draws leaf (expectSymbol x) s := by
  have h : Lays (fun t xs => xs = [leaf t.span]) (expect (.symbol x)) s := lays_expect nofun
  exact h.result fun _ _ hxs => hxs

theorem draws_expectKeyword {k : Keyword} : Draws leaf (expectKeyword k) s := by
  have h : Lays (fun t xs => xs = [leaf t.span]) (expect (.keyword k)) s := lays_expect nofun
  exact h.result fun _ _ hxs => hxs

theorem draws_expectName : Draws (fun n => leaf n.span) expectName s := by
  apply lays_currentKind_bind.2
  split
  next h => exact .next (isPlain_of_isIdentifier h) fun _ => lays_pure rfl
  next => exact lays_failExpected _

theorem Lays.insideLoop (h : ∀ t, Lays P p t) : Lays P (insideLoop p) s := by
  rw [Lays, outcome_insideLoop]
  exact h _

/-- What is broken leaves nothing in the row. -/
theorem lays_recovering {skip : State → State → State} (h : Draws outline p s)
    (hskip : ∀ t u : State, (skip t u).stream.tokens <:+ u.stream.tokens) :
    Lays (fun a xs => xs = (a.map fun a => [outline a]).getD []) (recovering p skip) s := by
  refine outcome_recovering (Outcome.mono h (fun a t ht => ht) fun t ht d => ?_)
  obtain ⟨us, hus⟩ := (hskip s { t with recorded := t.recorded ++ [d] }).trans ht
  exact ⟨us, [], hus.symm, rfl, fun _ => row_nil us⟩

theorem lays_upTo {more : Kind → Bool}
    (h : ∀ t : State, more t.kind → Lays (fun a xs => xs = outlines a) p t) (n : Nat) :
    Lays (fun as xs => xs = as.flatMap outlines) (upTo more p n) s := by
  induction n generalizing s with
  | zero => exact lays_pure rfl
  | succ n ih =>
    rw [upTo, lays_currentKind_bind]
    split
    next hm =>
      refine (h s hm).then fun a t => ih.result ?_
      rintro as _ rfl
      exact List.flatMap_cons.symm
    next => exact lays_pure rfl

theorem lays_many {more : Kind → Bool}
    (h : ∀ t : State, more t.kind → Lays (fun a xs => xs = outlines a) p t) :
    Lays (fun as xs => xs = as.flatMap outlines) (many more p) s :=
  lays_bound_bind.2 (lays_upTo h _)

theorem lays_listUpTo {close : Symbol} (h : ∀ t, Draws outline p t) (n : Nat) :
    Lays (fun as xs => xs = as.map outline) (listUpTo close p n) s := by
  induction n generalizing s with
  | zero => exact lays_pure rfl
  | succ n ih =>
    rw [listUpTo, lays_currentKind_bind]
    split
    next => exact lays_pure rfl
    next =>
      refine (h s).then fun a t => ?_
      rw [lays_currentKind_bind]
      split
      next hc =>
        have hcomma : Reads Shrinks 1 advance t := reads_advance (by rw [hc]; rfl)
        refine hcomma.andLays fun _ t => ih.result ?_
        rintro as _ rfl
        rfl
      next => exact lays_pure rfl

theorem lays_listTo {close : Symbol} (h : ∀ t, Draws outline p t) :
    Lays (fun x xs => xs = x.1.map outline ++ [leaf x.2]) (listTo close p) s := by
  refine lays_bound_bind.2 ((lays_listUpTo h _).then fun as t => draws_expectSymbol.result ?_)
  rintro stop _ rfl
  rfl

/-! ### The span before -/

/-- The tokens that are taken, if any, leave the span of the last of them. -/
def Passes (s t : State) : Prop :=
  ∃ us, s.stream.tokens = us ++ t.stream.tokens ∧
    t.stream.previous = (us.getLast?.map Token.span).getD s.stream.previous

instance : Journey Passes where
  refl _ := ⟨[], rfl, rfl⟩
  trans := by
    rintro s t u ⟨us, hs, ht⟩ ⟨vs, ht', hu⟩
    refine ⟨us ++ vs, by rw [hs, ht', List.append_assoc], ?_⟩
    rw [hu, ht, List.getLast?_append]
    cases vs.getLast? <;> rfl
  next {s} hs := by
    have htokens := State.tokens_eq_cons (isPlain_iff.1 hs).1
    refine ⟨[s.stream.current], htokens, ?_⟩
    rw [State.next, Stream.advance, htokens]
    rfl
  record _ _ := ⟨[], rfl, rfl⟩
  insideLoop h := h

/-- Where a token is taken, the span before the next one stands for it. -/
theorem Reads.andLaysBefore {f : α → Span → Parse β} (hp : Reads Passes 1 p s)
    (hf : ∀ a t x, Lays (fun b ys => Q b (leaf x :: ys)) (f a x) t) :
    Lays Q (p >>= fun a => spanBefore >>= f a) s := by
  rw [Lays, outcome_bind]
  refine Outcome.mono hp ?_ ?_
  · intro a t ⟨⟨us, htokens, hprevious⟩, hlt⟩
    rcases List.eq_nil_or_concat us with rfl | ⟨front, u, rfl⟩
    · rw [htokens, List.nil_append] at hlt
      omega
    · rw [List.concat_eq_append] at htokens hprevious
      rw [List.getLast?_concat] at hprevious
      have hgo : Lays (fun b ys => Q b ([leaf u.span] ++ ys)) (spanBefore >>= f a) t := by
        change Lays _ (f a t.stream.previous) t
        rw [hprevious]
        exact hf a t u.span
      refine Lays.behind htokens (fun hlaid => ?_) hgo
      rw [htokens] at hlaid
      exact row_leaf (List.mem_append_right _ (List.mem_singleton.2 rfl)) hlaid.front
  · intro t ⟨us, htokens, _⟩
    exact ⟨us, htokens.symm⟩

end Uwu.Grammar
