import Uwu.Proofs.Grammar.Progress

/-! What parsers read from tokens whose names are told apart: those of classes, and the others. -/

namespace Uwu

/-- A name is no keyword, and it is read as the name of a class exactly if it is known as one. -/
def Token.Told (names : Names) (t : Token) : Prop :=
  t.kind.isName → Keyword.ofWord? t.lexeme = none ∧
    (names.isClass t.lexeme ↔ ∃ id, t.kind = .classId id)

theorem Token.Told.isClass_eq_false {names : Names} {t : Token} (h : t.Told names)
    (hi : Grammar.isIdentifier t.kind) : names.isClass t.lexeme = false := by
  obtain ⟨kind, lexeme, span⟩ := t
  cases kind with
  | identifier n =>
    rw [← Bool.not_eq_true]
    intro hc
    obtain ⟨id, hid⟩ := (h rfl).2.1 hc
    cases hid
  | _ => cases hi

namespace Grammar

/-- The names among the tokens that are left are told apart. -/
def State.Told (names : Names) (s : State) : Prop :=
  ∀ t ∈ s.stream.tokens, t.Told names

/-- Where names are told apart, they are afterwards too, and `P` holds of what `p` reads. -/
def Yields (names : Names) {α : Type} (P : α → Prop) (p : Parse α) (s : State) : Prop :=
  s.Told names → Outcome p s (fun a t => P a ∧ t.Told names) (State.Told names)

/-- Tokens are taken from the front only. -/
def Shrinks (s t : State) : Prop :=
  t.stream.tokens <:+ s.stream.tokens

instance : Journey Shrinks where
  refl _ := List.suffix_rfl
  trans hst htu := htu.trans hst
  next {s} _ := by
    rw [Shrinks, State.tokens_next]
    exact List.tail_suffix _
  record _ _ := List.suffix_rfl
  insideLoop h := h

theorem State.Told.mono {names : Names} {s t : State} (h : s.Told names)
    (ht : t.stream.tokens <:+ s.stream.tokens) : t.Told names :=
  fun u hu => h u (ht.subset hu)

/-- The current token is told apart too, if it is the end. -/
theorem State.Told.current {names : Names} {s : State} (h : s.Told names) :
    s.stream.current.Told names := by
  by_cases he : s.kind = .endOfFile
  · intro hn
    rw [show s.stream.current.kind = .endOfFile from he] at hn
    cases hn
  · refine h _ ?_
    rw [State.tokens_eq_cons he]
    exact List.mem_cons_self

section Rules

variable {names : Names} {α β : Type} {P : α → Prop} {Q : β → Prop} {p : Parse α}
  {f : α → Parse β} {s : State}

/-- Of a parser that takes tokens from the front nothing more is asked. -/
theorem Reads.yields {n : Nat} (h : Reads Shrinks n p s) : Yields names (fun _ => True) p s :=
  fun hs => Outcome.mono h (fun _ _ ht => ⟨trivial, hs.mono ht.1⟩) fun _ ht => hs.mono ht

theorem Yields.mono {P' : α → Prop} (h : Yields names P p s) (hP : ∀ a, P a → P' a) :
    Yields names P' p s :=
  fun hs => (h hs).mono (fun a _ ht => ⟨hP a ht.1, ht.2⟩) fun _ ht => ht

theorem yields_pure {a : α} (h : P a) : Yields names P (pure a) s :=
  fun hs => ⟨h, hs⟩

theorem yields_throw (d : Diagnostic) : Yields names P (throw d : Parse α) s :=
  fun hs => hs

theorem yields_failHere (cause : Cause) : Yields names P (failHere cause : Parse α) s :=
  fun hs => hs

theorem yields_failExpected (what : String) : Yields names P (failExpected what : Parse α) s :=
  fun hs => hs

theorem yields_failUnexpected (reason : String) :
    Yields names P (failUnexpected reason : Parse α) s :=
  fun hs => hs

theorem Yields.bind (hp : Yields names P p s) (hf : ∀ a t, P a → Yields names Q (f a) t) :
    Yields names Q (p >>= f) s := by
  intro hs
  rw [outcome_bind]
  exact (hp hs).mono (fun a t ht => hf a t ht.1 ht.2) fun _ ht => ht

/-- A parser whose value does not matter before another one. -/
theorem Reads.andYields {n : Nat} (hp : Reads Shrinks n p s)
    (hf : ∀ a t, Yields names Q (f a) t) : Yields names Q (p >>= f) s :=
  hp.yields.bind fun a t _ => hf a t

/-- A parser whose value is made into another. -/
theorem Yields.result {g : α → β} (hp : Yields names P p s) (hg : ∀ a, P a → Q (g a)) :
    Yields names Q (p >>= fun a => pure (g a)) s :=
  hp.bind fun a _ ha => yields_pure (hg a ha)

theorem Yields.map {g : α → β} (hp : Yields names P p s) (hg : ∀ a, P a → Q (g a)) :
    Yields names Q (g <$> p) s := by
  intro hs
  rw [outcome_map]
  exact (hp hs).mono (fun a _ ht => ⟨hg a ht.1, ht.2⟩) fun _ ht => ht

@[simp]
theorem yields_current_bind {f : Token → Parse β} :
    Yields names Q (current >>= f) s ↔ Yields names Q (f s.stream.current) s := Iff.rfl

@[simp]
theorem yields_currentKind_bind {f : Kind → Parse β} :
    Yields names Q (currentKind >>= f) s ↔ Yields names Q (f s.kind) s := Iff.rfl

@[simp]
theorem yields_nextKind_bind {f : Kind → Parse β} :
    Yields names Q (nextKind >>= f) s ↔ Yields names Q (f s.stream.peek.kind) s := Iff.rfl

@[simp]
theorem yields_bound_bind {f : Nat → Parse β} :
    Yields names Q (bound >>= f) s ↔ Yields names Q (f (s.stream.tokens.length + 1)) s := Iff.rfl

@[simp]
theorem yields_isLooping_bind {f : Bool → Parse β} :
    Yields names Q (isLooping >>= f) s ↔ Yields names Q (f (0 < s.loops)) s := Iff.rfl

@[simp]
theorem yields_declarationAhead_bind {f : Bool → Parse β} :
    Yields names Q (declarationAhead >>= f) s ↔
      Yields names Q (f (isIdentifier s.kind && s.stream.peek.kind == .symbol .dash)) s := Iff.rfl

theorem Yields.next {f : Token → Parse β}
    (hf : s.stream.current.Told names → ∀ t, Yields names Q (f s.stream.current) t) :
    Yields names Q (advance >>= f) s := by
  intro hs
  rw [outcome_bind, outcome_advance]
  refine hf hs.current s.next (hs.mono ?_)
  rw [State.tokens_next]
  exact List.tail_suffix _

theorem yields_expectSymbol (x : Symbol) :
    Yields names (fun _ => True) (expectSymbol x) s := by
  intro hs
  rw [outcome_expectSymbol]
  split
  next =>
    refine ⟨trivial, hs.mono ?_⟩
    rw [State.tokens_next]
    exact List.tail_suffix _
  next => exact hs

theorem yields_expectName :
    Yields names (fun n : Name => names.isClass n.value = false) expectName s := by
  rw [expectName, yields_currentKind_bind]
  split
  next h =>
    exact .next fun ht _ => yields_pure (ht.isClass_eq_false h)
  next => exact yields_failExpected _

theorem Yields.insideLoop (h : ∀ t, Yields names P p t) : Yields names P (insideLoop p) s := by
  intro hs
  rw [outcome_insideLoop]
  exact h _ hs

theorem yields_recovering {skip : State → State → State} (h : Yields names P p s)
    (hskip : ∀ t u : State, (skip t u).stream.tokens <:+ u.stream.tokens) :
    Yields names (fun a => ∀ x, a = some x → P x) (recovering p skip) s := by
  intro hs
  refine outcome_recovering ((h hs).mono (fun a t ht => ⟨?_, ht.2⟩) fun t ht d => ⟨?_, ?_⟩)
  · rintro x ⟨⟩
    exact ht.1
  · rintro x ⟨⟩
  · exact State.Told.mono (s := { t with recorded := t.recorded ++ [d] }) ht (hskip _ _)

/-! ### Repetition -/

theorem yields_upTo {more : Kind → Bool} (h : ∀ t : State, more t.kind → Yields names P p t)
    (n : Nat) : Yields names (fun as => ∀ a ∈ as, P a) (upTo more p n) s := by
  induction n generalizing s with
  | zero => exact yields_pure (List.forall_mem_nil _)
  | succ n ih =>
    rw [upTo, yields_currentKind_bind]
    split
    next hm =>
      refine (h s hm).bind fun a _ ha => ih.result fun as has => ?_
      exact List.forall_mem_cons.2 ⟨ha, has⟩
    next => exact yields_pure (List.forall_mem_nil _)

theorem yields_many {more : Kind → Bool} (h : ∀ t : State, more t.kind → Yields names P p t) :
    Yields names (fun as => ∀ a ∈ as, P a) (many more p) s :=
  yields_bound_bind.2 (yields_upTo h _)

theorem yields_listUpTo {close : Symbol} (h : ∀ t, Yields names P p t) (n : Nat) :
    Yields names (fun as => ∀ a ∈ as, P a) (listUpTo close p n) s := by
  induction n generalizing s with
  | zero => exact yields_pure (List.forall_mem_nil _)
  | succ n ih =>
    rw [listUpTo, yields_currentKind_bind]
    split
    next => exact yields_pure (List.forall_mem_nil _)
    next =>
      refine (h s).bind fun a t ha => ?_
      rw [yields_currentKind_bind]
      split
      next =>
        refine .next fun _ _ => ih.result fun as has => ?_
        exact List.forall_mem_cons.2 ⟨ha, has⟩
      next => exact yields_pure (List.forall_mem_singleton.2 ha)

theorem yields_listTo {close : Symbol} (h : ∀ t, Yields names P p t)
    (hc : isPlain (.symbol close)) :
    Yields names (fun x => ∀ a ∈ x.1, P a) (listTo close p) s :=
  yields_bound_bind.2 ((yields_listUpTo h _).bind fun _ _ has =>
    (reads_expectSymbol hc).andYields fun _ _ => yields_pure has)

end Rules

end Grammar

end Uwu
