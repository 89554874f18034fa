import Uwu.Proofs.Grammar.RoundTrip
import Uwu.Proofs.Grammar.Signs
import Uwu.Proofs.Grammar.Yields

/-! What a parser takes from its tokens, compared with what it makes of them. The rules follow the
signs of the tokens that are read, one step at a time. Nothing is said of a parser that records a
mistake. -/

namespace Uwu

/-! ### Marks -/

namespace Mark

variable {m : Mark} {g : List Bool}

/-- The same parentheses are open. -/
def At (g : List Bool) (m : Mark) : Prop :=
  m.groups = g

/-- An expression may begin. -/
def Begins (g : List Bool) (m : Mark) : Prop :=
  m.groups = g ∧ m.opensGroup = true

/-- A parenthesis that comes next holds a list or a condition. -/
def Calls (g : List Bool) (m : Mark) : Prop :=
  m.groups = g ∧ m.opensGroup = false

end Mark

namespace Grammar

/-! ### States -/

/-- The tokens that are left are such as a lexer makes. -/
structure State.Sound (names : Names) (s : State) : Prop where
  fits : ∀ t ∈ s.stream.tokens, t.kind.Fits names t.lexeme
  inside : ∀ t ∈ s.stream.tokens, t.kind ≠ .endOfFile
  increasing : s.stream.tokens.Pairwise fun t u => t.span.start < u.span.start

/-- The signs that are left behind a mark. -/
def State.ahead (m : Mark) (s : State) : List Sign :=
  (essential m s.stream.tokens).map Token.sign

section States

variable {names : Names} {m : Mark} {s t : State} {k : Kind}

theorem State.Sound.mono (h : s.Sound names) (ht : t.stream.tokens <:+ s.stream.tokens) :
    t.Sound names where
  fits u hu := h.fits u (ht.subset hu)
  inside u hu := h.inside u (ht.subset hu)
  increasing := h.increasing.sublist ht.sublist

theorem State.Sound.next (h : s.Sound names) : s.next.Sound names := by
  refine h.mono ?_
  rw [State.tokens_next]
  exact List.tail_suffix _

theorem State.Sound.current (h : s.Sound names) (hk : s.kind ≠ .endOfFile) :
    s.stream.current.kind.Fits names s.stream.current.lexeme := by
  refine h.fits _ ?_
  rw [State.tokens_eq_cons hk]
  exact List.mem_cons_self

theorem State.kind_eq (s : State) :
    s.kind = (s.stream.tokens.head?.map Token.kind).getD .endOfFile := by
  rw [State.kind, Stream.current, List.headD_eq_head?_getD]
  cases s.stream.tokens.head? <;> rfl

/-- Tokens of the kind always leave a sign, and open or close no parenthesis. -/
def isSpoken : Kind → Bool
  | .endOfFile | .symbol .openParen | .symbol .closeParen | .symbol .comma => false
  | _ => true

theorem drops_of_isSpoken (hk : isSpoken k) (next : Kind) : m.drops k next = false := by
  cases k with
  | symbol x => cases x <;> first | rfl | cases hk
  | _ => rfl

theorem after_of_isSpoken (hk : isSpoken k) : m.after k = ⟨k, m.groups⟩ := by
  cases k with
  | symbol x => cases x <;> first | rfl | cases hk
  | _ => rfl

/-- The sign that a token of the kind leaves, if any. -/
def leaves (m : Mark) (k next : Kind) (x : Sign) : List Sign :=
  if m.drops k next then [] else [x]

theorem State.ahead_next (hk : s.kind ≠ .endOfFile) :
    s.ahead m =
      leaves m s.kind s.next.kind s.stream.current.sign ++ s.next.ahead (m.after s.kind) := by
  rw [State.ahead, State.tokens_eq_cons hk, essential, ← State.kind_eq, leaves]
  split <;> rfl

end States

/-! ### Signs of tokens -/

section Tokens

variable {names : Names} {t : Token}

theorem sign_symbol {x : Symbol} (hk : t.kind = .symbol x) (h : t.kind.Fits names t.lexeme) :
    t.sign = x.sign := by
  rw [hk] at h
  have hl : t.lexeme = x.spelling := h
  simp [Token.sign, hk, Token.word, hl, Symbol.sign, Symbol.word]

theorem sign_keyword {k : Keyword} (hk : t.kind = .keyword k) (h : t.kind.Fits names t.lexeme) :
    t.sign = k.sign := by
  rw [hk] at h
  simp only [Token.sign, hk]
  split
  next hmem => simp [Token.word, hk, h hmem, Keyword.sign, Keyword.word]
  next => rfl

theorem sign_identifier (hk : isIdentifier t.kind) (h : t.kind.Fits names t.lexeme) :
    t.sign = nameSign names t.lexeme := by
  obtain ⟨kind, lexeme, span⟩ := t
  cases kind with
  | identifier id =>
    obtain ⟨hid, -⟩ : names.identifiers.id? lexeme = some id ∧ _ := h
    simp [Token.sign, Token.word, nameSign, Names.nameWord, hid]
  | _ => cases hk

theorem sign_classId {id : Nat} (hk : t.kind = .classId id) (h : t.kind.Fits names t.lexeme) :
    t.sign = classSign names t.lexeme := by
  rw [hk] at h
  simp [Token.sign, Token.word, hk, classSign, h.1]

theorem sign_literal {v : Literal} (hv : literalOf? t = some v) (h : t.kind.Fits names t.lexeme) :
    t.sign = literalSign v := by
  have hkeyword (k : Keyword) (hk : t.kind = .keyword k) : t.sign = k.sign := sign_keyword hk h
  have hsign : t.kind ∈ [.intLiteral, .floatLiteral, .stringLiteral] →
      t.sign = .literal t.kind (literalOf? t) := by
    intro hmem
    simp only [List.mem_cons, List.not_mem_nil, or_false] at hmem
    rcases hmem with hk | hk | hk <;> simp [Token.sign, hk]
  have hvalue := hv
  rw [literalOf?] at hv
  split at hv
  next hk =>
    rw [hsign (by simp [hk]), hvalue, hk]
    rw [intLiteral?] at hv
    split at hv
    next =>
      split at hv
      next => cases hv; rfl
      next => cases hv
    next => cases hv
  next hk =>
    rw [hsign (by simp [hk]), hvalue, hk]
    obtain ⟨n, -, rfl⟩ := Option.map_eq_some_iff.1 hv
    rfl
  next hk =>
    rw [hsign (by simp [hk]), hvalue, hk]
    cases hv
    rfl
  next hk =>
    cases hv
    exact hkeyword _ hk
  next hk =>
    cases hv
    exact hkeyword _ hk
  next hk =>
    cases hv
    exact hkeyword _ hk
  next => cases hv

end Tokens

/-! ### Spelling -/

/-- Two things hold after a parser if each of them does. -/
theorem Outcome.and {α : Type} {p : Parse α} {s : State} {ok ok' : α → State → Prop}
    {fail fail' : State → Prop} (h : Outcome p s ok fail) (h' : Outcome p s ok' fail') :
    Outcome p s (fun a t => ok a t ∧ ok' a t) fun t => fail t ∧ fail' t := by
  unfold Outcome at *
  cases hp : p s <;> rw [hp] at h h' <;> exact ⟨h, h'⟩

/-- Where nothing is recorded, `p` takes the tokens of the signs `xs` and makes an `a` of them, from
the mark `m` to a mark `m'`, with `P a xs m'`. -/
def Spells (names : Names) (m : Mark) {α : Type} (P : α → List Sign → Mark → Prop) (p : Parse α)
    (s : State) : Prop :=
  Outcome p s (fun a t => ∃ xs m', P a xs m' ∧ (t.recorded = [] → s.recorded = [] ∧
    (s.Sound names → t.Sound names ∧ s.ahead m = xs ++ t.ahead m'))) fun _ => True

/-- What is taken are the signs of what is made. -/
def Says {α : Type} (signs : α → List Sign) (C : Mark → Prop) (a : α) (xs : List Sign)
    (m : Mark) : Prop :=
  xs = signs a ∧ C m

section Rules

variable {names : Names} {m : Mark} {α β : Type} {P P' : α → List Sign → Mark → Prop}
  {Q : β → List Sign → Mark → Prop} {p : Parse α} {f : α → Parse β} {s : State}

theorem Spells.mono (h : Spells names m P p s) (hP : ∀ a xs m', P a xs m' → P' a xs m') :
    Spells names m P' p s :=
  Outcome.mono h (fun a _ ⟨xs, m', ha, ht⟩ => ⟨xs, m', hP a xs m' ha, ht⟩) fun _ => id

theorem spells_pure {a : α} (h : P a [] m) : Spells names m P (pure a) s :=
  ⟨[], m, h, fun hs => ⟨hs, fun hsound => ⟨hsound, rfl⟩⟩⟩

theorem spells_throw (d : Diagnostic) : Spells names m P (throw d : Parse α) s :=
  trivial

theorem spells_failHere (cause : Cause) : Spells names m P (failHere cause : Parse α) s :=
  trivial

theorem spells_failExpected (what : String) : Spells names m P (failExpected what : Parse α) s :=
  trivial

theorem spells_failUnexpected (reason : String) :
    Spells names m P (failUnexpected reason : Parse α) s :=
  trivial

/-- One parser after another, where `R` is known of what the first one does. -/
theorem Spells.bindKnown {R : α → State → Prop} (hp : Spells names m P p s)
    (hR : Outcome p s R fun _ => True)
    (hf : ∀ a xs m' t, P a xs m' → R a t → Spells names m' (fun b ys => Q b (xs ++ ys)) (f a) t) :
    Spells names m Q (p >>= f) s := by
  rw [Spells, outcome_bind]
  refine Outcome.mono (Outcome.and hp hR) (fun a t ⟨⟨xs, m', ha, ht⟩, hR⟩ => ?_) fun _ _ => trivial
  refine Outcome.mono (hf a xs m' t ha hR) (fun b u ⟨ys, m'', hb, hu⟩ => ?_) fun _ => id
  refine ⟨xs ++ ys, m'', hb, fun hclean => ?_⟩
  obtain ⟨hclean, hu⟩ := hu hclean
  obtain ⟨hclean, ht⟩ := ht hclean
  refine ⟨hclean, fun hsound => ?_⟩
  obtain ⟨hsound, hs⟩ := ht hsound
  obtain ⟨hsound, ht⟩ := hu hsound
  exact ⟨hsound, by rw [hs, ht, List.append_assoc]⟩

theorem Spells.bind (hp : Spells names m P p s)
    (hf : ∀ a xs m' t, P a xs m' → Spells names m' (fun b ys => Q b (xs ++ ys)) (f a) t) :
    Spells names m Q (p >>= f) s :=
  hp.bindKnown (Outcome.mono hp (fun _ _ _ => trivial) fun _ => id) fun a xs m' t ha _ =>
    hf a xs m' t ha

/-- First what `signs` says, then the rest. -/
theorem Spells.andThen {signs : α → List Sign} {C : Mark → Prop}
    (hp : Spells names m (Says signs C) p s)
    (hf : ∀ a m' t, C m' → Spells names m' (fun b ys => Q b (signs a ++ ys)) (f a) t) :
    Spells names m Q (p >>= f) s := by
  refine hp.bind ?_
  rintro a _ m' t ⟨rfl, hC⟩
  exact hf a m' t hC

theorem Spells.map {g : α → β} (hp : Spells names m P p s)
    (hg : ∀ a xs m', P a xs m' → Q (g a) xs m') : Spells names m Q (g <$> p) s := by
  rw [Spells, outcome_map]
  exact Outcome.mono hp (fun a _ ⟨xs, m', ha, ht⟩ => ⟨xs, m', hg a xs m' ha, ht⟩) fun _ => id

/-- A parser whose value is made into another. -/
theorem Spells.result {g : α → β} (hp : Spells names m P p s)
    (hg : ∀ a xs m', P a xs m' → Q (g a) xs m') :
    Spells names m Q (p >>= fun a => pure (g a)) s := by
  refine hp.bind fun a xs m' t ha => spells_pure ?_
  rw [List.append_nil]
  exact hg a xs m' ha

@[simp]
theorem spells_current_bind {f : Token → Parse β} :
    Spells names m Q (current >>= f) s ↔ Spells names m Q (f s.stream.current) s := Iff.rfl

@[simp]
theorem spells_currentKind_bind {f : Kind → Parse β} :
    Spells names m Q (currentKind >>= f) s ↔ Spells names m Q (f s.kind) s := Iff.rfl

@[simp]
theorem spells_nextKind_bind {f : Kind → Parse β} :
    Spells names m Q (nextKind >>= f) s ↔ Spells names m Q (f s.stream.peek.kind) s := Iff.rfl

@[simp]
theorem spells_spanBefore_bind {f : Span → Parse β} :
    Spells names m Q (spanBefore >>= f) s ↔ Spells names m Q (f s.stream.previous) s := Iff.rfl

@[simp]
theorem spells_bound_bind {f : Nat → Parse β} :
    Spells names m Q (bound >>= f) s ↔
      Spells names m Q (f (s.stream.tokens.length + 1)) s := Iff.rfl

@[simp]
theorem spells_isLooping_bind {f : Bool → Parse β} :
    Spells names m Q (isLooping >>= f) s ↔ Spells names m Q (f (0 < s.loops)) s := Iff.rfl

@[simp]
theorem spells_declarationAhead_bind {f : Bool → Parse β} :
    Spells names m Q (declarationAhead >>= f) s ↔
      Spells names m Q (f (isIdentifier s.kind && s.stream.peek.kind == .symbol .dash)) s := Iff.rfl

/-! ### Tokens -/

/-- A token is read whose sign is known to be `x`. -/
theorem Spells.read {f : Token → Parse β} {k : Kind} {x : Sign} (hk : s.kind = k)
    (hend : k ≠ .endOfFile)
    (hx : s.stream.current.kind.Fits names s.stream.current.lexeme → s.stream.current.sign = x)
    (hf : Spells names (m.after k) (fun b ys => Q b (leaves m k s.next.kind x ++ ys))
      (f s.stream.current) s.next) :
    Spells names m Q (advance >>= f) s := by
  subst hk
  rw [Spells, outcome_bind, outcome_advance]
  refine Outcome.mono hf (fun b u ⟨ys, m', hb, hu⟩ => ⟨_, m', hb, fun hclean => ?_⟩) fun _ => id
  obtain ⟨hclean, hu⟩ := hu hclean
  refine ⟨hclean, fun hsound => ?_⟩
  obtain ⟨husound, hahead⟩ := hu hsound.next
  refine ⟨husound, ?_⟩
  rw [State.ahead_next hend, hx (hsound.current hend), hahead, List.append_assoc]

/-- A token that always leaves its sign. -/
theorem Spells.next {f : Token → Parse β} {k : Kind} {x : Sign} (hk : s.kind = k)
    (hspoken : isSpoken k)
    (hx : s.stream.current.kind.Fits names s.stream.current.lexeme → s.stream.current.sign = x)
    (hf : Spells names ⟨k, m.groups⟩ (fun b ys => Q b (x :: ys)) (f s.stream.current) s.next) :
    Spells names m Q (advance >>= f) s := by
  have hend : k ≠ .endOfFile := by
    rintro rfl
    cases hspoken
  refine .read hk hend hx ?_
  rw [leaves, drops_of_isSpoken hspoken, after_of_isSpoken hspoken]
  exact hf

/-- A symbol, whether it leaves a sign or not. -/
theorem Spells.expect {x : Symbol} {f : Span → Parse β} (hx : x ≠ .comma)
    (hf : ∀ a t, Spells names (m.after (.symbol x))
      (fun b ys => Q b (leaves m (.symbol x) .endOfFile x.sign ++ ys)) (f a) t) :
    Spells names m Q (expectSymbol x >>= f) s := by
  have hnext (next : Kind) :
      leaves m (.symbol x) next x.sign = leaves m (.symbol x) .endOfFile x.sign := by
    cases x <;> first | rfl | exact absurd rfl hx
  have hread : Spells names m Q (advance >>= fun t => f t.span) s ∨ s.kind ≠ .symbol x := by
    by_cases hk : s.kind = .symbol x
    · refine .inl (.read hk (by simp) (sign_symbol hk) ?_)
      rw [hnext]
      exact hf _ _
    · exact .inr hk
  rw [Spells, outcome_bind, outcome_expectSymbol]
  split
  next hk => exact hread.resolve_right (not_not_intro hk)
  next => trivial

/-- A symbol that always leaves its sign. -/
theorem Spells.symbol {x : Symbol} {f : Span → Parse β} (hx : isSpoken (.symbol x))
    (hf : ∀ a t, Spells names ⟨.symbol x, m.groups⟩ (fun b ys => Q b (x.sign :: ys)) (f a) t) :
    Spells names m Q (expectSymbol x >>= f) s := by
  refine .expect (by rintro rfl; cases hx) fun a t => ?_
  rw [leaves, drops_of_isSpoken hx, after_of_isSpoken hx]
  exact hf a t

/-- The parenthesis before a list or a condition. -/
theorem Spells.opens {g : List Bool} {f : Span → Parse β} (hm : m.Calls g)
    (hf : ∀ a m' t, Mark.Begins (false :: g) m' →
      Spells names m' (fun b ys => Q b (Symbol.openParen.sign :: ys)) (f a) t) :
    Spells names m Q (expectSymbol .openParen >>= f) s := by
  refine .expect (by decide) fun a t => ?_
  have hleaves : leaves m (.symbol .openParen) .endOfFile Symbol.openParen.sign =
      [Symbol.openParen.sign] := by
    rw [leaves, Mark.drops, hm.2]
    rfl
  rw [hleaves]
  refine hf a _ t ⟨?_, rfl⟩
  rw [Mark.after, hm.1, hm.2]

/-- The parenthesis behind a list or a condition. -/
theorem Spells.closes {g : List Bool} {f : Span → Parse β} (hm : m.At (false :: g))
    (hf : ∀ a m' t, Mark.At g m' →
      Spells names m' (fun b ys => Q b (Symbol.closeParen.sign :: ys)) (f a) t) :
    Spells names m Q (expectSymbol .closeParen >>= f) s := by
  have hgroups : m.groups = false :: g := hm
  refine .expect (by decide) fun a t => ?_
  have hleaves : leaves m (.symbol .closeParen) .endOfFile Symbol.closeParen.sign =
      [Symbol.closeParen.sign] := by
    rw [leaves, Mark.drops, hgroups]
    rfl
  rw [hleaves]
  refine hf a _ t ?_
  rw [Mark.At, Mark.after, hgroups]
  rfl

/-- Parentheses that only group leave no signs. -/
theorem Spells.closesGroup {g : List Bool} {f : Span → Parse β} (hm : m.At (true :: g))
    (hf : ∀ a m' t, Mark.At g m' → Spells names m' Q (f a) t) :
    Spells names m Q (expectSymbol .closeParen >>= f) s := by
  have hgroups : m.groups = true :: g := hm
  refine .expect (by decide) fun a t => ?_
  have hleaves : leaves m (.symbol .closeParen) .endOfFile Symbol.closeParen.sign = [] := by
    rw [leaves, Mark.drops, hgroups]
    rfl
  rw [hleaves]
  refine hf a _ t ?_
  rw [Mark.At, Mark.after, hgroups]
  rfl

theorem spells_expectName {g : List Bool} (hm : m.At g) :
    Spells names m (Says (fun n => [nameSign names n.value]) (Mark.Calls g)) expectName s := by
  rw [expectName, spells_currentKind_bind]
  split
  next hk =>
    have hspoken : isSpoken s.kind := by
      cases h : s.kind <;> first | rfl | (rw [h] at hk; cases hk)
    refine .next rfl hspoken (sign_identifier hk) (spells_pure ⟨rfl, hm, ?_⟩)
    cases h : s.kind <;> first | rfl | (rw [h] at hk; cases hk)
  next => exact spells_failExpected _

/-! ### Mistakes -/

/-- Behind a recorded mistake nothing is said. -/
theorem Spells.record {d : Diagnostic} {f : Unit → Parse β}
    (hf : ∀ t, Spells names m Q (f ()) t) : Spells names m Q (record d >>= f) s := by
  rw [Spells, outcome_bind]
  change Outcome (f ()) { s with recorded := s.recorded ++ [d] } _ _
  refine Outcome.mono (hf _)
    (fun b u ⟨ys, m', hb, hu⟩ => ⟨ys, m', hb, fun hclean => ?_⟩) fun _ => id
  have hdirty : s.recorded ++ [d] = [] := (hu hclean).1
  simp at hdirty

theorem Spells.insideLoop (h : ∀ t, Spells names m P p t) : Spells names m P (insideLoop p) s := by
  rw [Spells, outcome_insideLoop]
  refine Outcome.mono (h { s with loops := s.loops + 1 })
    (fun a t ⟨xs, m', ha, ht⟩ => ⟨xs, m', ha, fun hclean => ?_⟩) fun _ => id
  obtain ⟨hclean, hs⟩ := ht hclean
  refine ⟨hclean, fun hsound => ?_⟩
  obtain ⟨hsound, hahead⟩ := hs ⟨hsound.fits, hsound.inside, hsound.increasing⟩
  exact ⟨⟨hsound.fits, hsound.inside, hsound.increasing⟩, hahead⟩

/-- What a parser says that recovers. -/
theorem spells_recovering {signs : α → List Sign} {C : Mark → Prop}
    {skip : State → State → State} (hm : C m) (hskip : ∀ t u, (skip t u).recorded = u.recorded)
    (h : Spells names m (Says signs C) p s) :
    Spells names m (Says (fun found => (found.map signs).getD []) C) (recovering p skip) s := by
  refine outcome_recovering (Outcome.mono h (fun a t ⟨xs, m', ha, ht⟩ => ⟨xs, m', ha, ht⟩) ?_)
  intro t _ d
  refine ⟨[], m, ⟨rfl, hm⟩, fun hclean => ?_⟩
  rw [hskip] at hclean
  simp at hclean

/-! ### Repetition -/

theorem spells_upTo {signs : α → List Sign} {C : Mark → Prop} {more : Kind → Bool}
    (h : ∀ m' t, C m' → more t.kind → Spells names m' (Says signs C) p t) (hm : C m) (n : Nat) :
    Spells names m (Says (fun as => as.flatMap signs) C) (upTo more p n) s := by
  induction n generalizing s m with
  | zero => exact spells_pure ⟨rfl, hm⟩
  | succ n ih =>
    rw [upTo, spells_currentKind_bind]
    split
    next hk =>
      refine (h m s hm hk).andThen fun a m' t hm' => (ih hm').result ?_
      rintro as xs m'' ⟨rfl, hC⟩
      exact ⟨List.flatMap_cons.symm, hC⟩
    next => exact spells_pure ⟨rfl, hm⟩

theorem spells_many {signs : α → List Sign} {C : Mark → Prop} {more : Kind → Bool}
    (h : ∀ m' t, C m' → more t.kind → Spells names m' (Says signs C) p t) (hm : C m) :
    Spells names m (Says (fun as => as.flatMap signs) C) (many more p) s :=
  spells_bound_bind.2 (spells_upTo h hm _)

/-! ### Lists -/

section Lists

variable {close : Symbol} {item : Parse α}
  (hitem : ∀ t, Outcome item t (fun _ _ => ClosesNoList t.kind) fun _ => True)
include hitem

/-- A list is empty exactly before its end. -/
theorem outcome_listUpTo (n : Nat) : Outcome (listUpTo close item (n + 1)) s
    (fun as _ => as = [] ∧ s.kind = .symbol close ∨ as ≠ [] ∧ ClosesNoList s.kind)
    fun _ => True := by
  rw [listUpTo, outcome_bind, outcome_currentKind]
  split
  next hk => exact .inl ⟨rfl, hk⟩
  next =>
    rw [outcome_bind]
    refine Outcome.mono (hitem s) (fun a t hs => ?_) fun _ => id
    rw [outcome_bind, outcome_currentKind]
    split
    next =>
      simp only [outcome_bind, outcome_advance]
      exact outcome_always (fun _ _ => .inr ⟨List.cons_ne_nil _ _, hs⟩) fun _ => trivial
    next => exact .inr ⟨List.cons_ne_nil _ _, hs⟩

variable {signs : α → List Sign} {g : List Bool}
  (hreads : ∀ t, Reads Shrinks 0 item t)
  (hsigns : ∀ g m' t, Mark.Begins g m' → Spells names m' (Says signs (Mark.At g)) item t)
include hreads hsigns

theorem spells_listUpTo (hclose : ¬ClosesNoList (.symbol close)) (hm : m.Begins g) {n : Nat}
    (hn : s.stream.tokens.length < n) :
    Spells names m (Says (separated signs) (Mark.At g)) (listUpTo close item n) s := by
  induction n generalizing s m with
  | zero => exact absurd hn (Nat.not_lt_zero _)
  | succ n ih =>
    rw [listUpTo, spells_currentKind_bind]
    split
    next => exact spells_pure ⟨rfl, hm.1⟩
    next =>
      have hlength : Outcome item s
          (fun _ t => t.stream.tokens.length ≤ s.stream.tokens.length) fun _ => True :=
        Outcome.mono (hreads s) (fun _ _ h => h.2) fun _ _ => trivial
      refine (hsigns g m s hm).bindKnown hlength ?_
      rintro a _ m' t ⟨rfl, hm'⟩ hle
      rw [spells_currentKind_bind]
      split
      next hk =>
        have hend : t.kind ≠ .endOfFile := by simp [hk]
        have hnext : t.next.stream.tokens.length < n := by
          have hcons := congrArg List.length (State.tokens_eq_cons hend)
          rw [List.length_cons] at hcons
          omega
        obtain ⟨k, rfl⟩ := Nat.exists_eq_succ_of_ne_zero (Nat.ne_zero_of_lt hnext)
        have hbegins : (m'.after (.symbol .comma)).Begins g := ⟨hm', rfl⟩
        refine .read hk (by simp) (sign_symbol hk) ?_
        refine (ih hbegins hnext).bindKnown (outcome_listUpTo hitem k) ?_
        rintro as _ m'' u ⟨rfl, hm''⟩ has
        refine spells_pure ⟨?_, hm''⟩
        -- The comma leaves a sign exactly if an item stands behind it.
        rcases has with ⟨rfl, hnext⟩ | ⟨hne, hnext⟩
        · have hdrops : m'.drops (.symbol .comma) t.next.kind = true := by
            rw [hnext]
            simpa [Mark.drops, ClosesNoList, or_iff_not_imp_left] using hclose
          simp [leaves, hdrops, separated]
        · have hdrops : m'.drops (.symbol .comma) t.next.kind = false := by
            simpa [Mark.drops, ClosesNoList] using hnext
          obtain ⟨b, bs, rfl⟩ := List.exists_cons_of_ne_nil hne
          simp [leaves, hdrops, separated]
      next =>
        refine spells_pure ⟨?_, hm'⟩
        simp [separated]

/-- A list between parentheses, from behind the first one. -/
theorem spells_listToParen (hm : m.Begins (false :: g)) :
    Spells names m (Says (fun x => separated signs x.1 ++ [Symbol.closeParen.sign]) (Mark.At g))
      (listTo .closeParen item) s := by
  rw [listTo, spells_bound_bind]
  refine (spells_listUpTo hitem hreads hsigns (fun h => h.1 rfl) hm (Nat.lt_succ_self _)).andThen
    fun as m' t hm' => .closes hm' fun _ m'' _ hm'' => spells_pure ⟨rfl, hm''⟩

/-- A list between braces, from behind the first one. -/
theorem spells_listToBrace (hm : m.Begins g) :
    Spells names m (Says (fun x => separated signs x.1 ++ [Symbol.closeBrace.sign]) (Mark.At g))
      (listTo .closeBrace item) s := by
  rw [listTo, spells_bound_bind]
  refine (spells_listUpTo hitem hreads hsigns (fun h => h.2 rfl) hm (Nat.lt_succ_self _)).andThen
    fun as m' t hm' => .symbol rfl fun _ _ => spells_pure ⟨rfl, hm'⟩

end Lists

end Rules

end Grammar

end Uwu
