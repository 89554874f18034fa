import Uwu.Proofs.Grammar.Outcome
import Uwu.Proofs.Grammar.Words

/-! The way of a parser along the words that are written, and how single parsers go it. -/

namespace Uwu.Grammar

variable {α β : Type} {s t u : State} {w : Word} {ws vs : List Word}

/-! ### Words ahead -/

/-- The next token is this word. -/
def State.Starts (s : State) (w : Word) : Prop :=
  s.stream.tokens.head?.map Token.word = some w

theorem State.Starts.word (h : s.Starts w) : s.stream.current.word = w := by
  obtain ⟨tok, htok, rfl⟩ := Option.map_eq_some_iff.mp h
  rw [Stream.current, List.headD_eq_head?_getD, htok]
  rfl

theorem State.Starts.kind (h : s.Starts w) : s.kind = w.kind :=
  congrArg Word.kind h.word

theorem State.Starts.symbol {x : Symbol} (h : s.Starts x.word) : s.kind = .symbol x :=
  h.kind

theorem State.Starts.lexeme (h : s.Starts w) : s.stream.current.lexeme = w.lexeme :=
  congrArg Word.lexeme h.word

theorem State.Starts.length (h : s.Starts w) :
    s.stream.tokens.length = s.next.stream.tokens.length + 1 := by
  obtain ⟨tok, htok, -⟩ := Option.map_eq_some_iff.mp h
  obtain ⟨ts, hts⟩ := List.head?_eq_some_iff.mp htok
  rw [tokens_next, hts]
  rfl

/-- Reading exactly these words leads from `s` to `t`. -/
def State.Walks : State → List Word → State → Prop
  | s, [], t => s = t
  | s, w :: ws, t => s.Starts w ∧ s.next.Walks ws t

@[simp]
theorem walks_nil : s.Walks [] t ↔ s = t := Iff.rfl

@[simp]
theorem walks_cons : s.Walks (w :: ws) t ↔ s.Starts w ∧ s.next.Walks ws t := Iff.rfl

@[simp]
theorem walks_append : s.Walks (ws ++ vs) t ↔ ∃ u, s.Walks ws u ∧ u.Walks vs t := by
  induction ws generalizing s with
  | nil => simp
  | cons w ws ih => simp [ih, and_assoc]

theorem State.Walks.length (h : s.Walks ws t) :
    s.stream.tokens.length = t.stream.tokens.length + ws.length := by
  induction ws generalizing s with
  | nil => rw [walks_nil.mp h]; rfl
  | cons w ws ih =>
    rw [h.1.length, ih h.2, List.length_cons]
    omega

theorem State.Walks.loops (h : s.Walks ws t) : t.loops = s.loops := by
  induction ws generalizing s with
  | nil => rw [walks_nil.mp h]
  | cons w ws ih => exact ih (s := s.next) h.2

theorem State.Walks.recorded (h : s.Walks ws t) : t.recorded = s.recorded := by
  induction ws generalizing s with
  | nil => rw [walks_nil.mp h]
  | cons w ws ih => exact ih (s := s.next) h.2

theorem exists_walks {ts rest : List Token} (h : s.stream.tokens = ts ++ rest) :
    ∃ t, s.Walks (ts.map Token.word) t ∧ t.stream.tokens = rest ∧ t.stream.stop = s.stream.stop := by
  induction ts generalizing s with
  | nil => exact ⟨s, rfl, h, rfl⟩
  | cons tok ts ih =>
    obtain ⟨t, hw, ht, hstop⟩ := ih (s := s.next) (by rw [State.tokens_next, h]; rfl)
    refine ⟨t, ⟨?_, hw⟩, ht, ?_⟩
    · rw [State.Starts, h]
      rfl
    · rw [hstop, State.next, Stream.advance]
      split <;> rfl

/-! ### Single steps -/

theorem run_bind {p : Parse α} {f : α → Parse β} {a : α} (h : p s = .ok a t) :
    (p >>= f) s = f a t := by
  change EStateM.bind p f s = _
  rw [EStateM.bind, h]

theorem run_bind_error {p : Parse α} {f : α → Parse β} {d : Diagnostic} (h : p s = .error d t) :
    (p >>= f) s = .error d t := by
  change EStateM.bind p f s = _
  rw [EStateM.bind, h]

theorem run_bind_congr {p q : Parse α} (f : α → Parse β) (h : p s = q t) :
    (p >>= f) s = (q >>= f) t := by
  change EStateM.bind p f s = EStateM.bind q f t
  rw [EStateM.bind, EStateM.bind, h]

theorem run_map {p : Parse α} {f : α → β} {a : α} (h : p s = .ok a t) :
    (f <$> p) s = .ok (f a) t := by
  change EStateM.map f p s = _
  rw [EStateM.map, h]

theorem run_pure (a : α) : (pure a : Parse α) s = .ok a s := rfl

theorem run_current {f : Token → Parse β} : (current >>= f) s = f s.stream.current s := rfl

theorem run_currentKind {f : Kind → Parse β} : (currentKind >>= f) s = f s.kind s := rfl

theorem run_bound {f : Nat → Parse β} : (bound >>= f) s = f (s.stream.tokens.length + 1) s := rfl

theorem run_advance {f : Token → Parse β} : (advance >>= f) s = f s.stream.current s.next := rfl

theorem run_expect {k : Kind} (h : s.kind = k) : expect k s = .ok s.stream.current s.next := by
  rw [expect, expectOr, run_currentKind, if_pos h]
  rfl

theorem run_expectSymbol_of_kind {x : Symbol} (h : s.kind = .symbol x) :
    expectSymbol x s = .ok s.stream.current.span s.next := by
  rw [expectSymbol, run_bind (run_expect h), run_pure]

theorem run_expectSymbol_of_ne {x : Symbol} (h : s.kind ≠ .symbol x) :
    expectSymbol x s = .error ⟨.expected (Kind.symbol x).described s.stream.current.described,
      s.stream.current.span⟩ s := by
  refine run_bind_error ?_
  rw [expect, expectOr, run_currentKind, if_neg h]
  rfl

theorem run_expectSymbol {x : Symbol} (h : s.Starts x.word) :
    expectSymbol x s = .ok s.stream.current.span s.next :=
  run_expectSymbol_of_kind h.symbol

theorem run_expectName {h : Hand} {n : Name} (hs : s.Starts (h.name n)) :
    expectName s = .ok ⟨n.value, s.stream.current.span⟩ s.next := by
  have hk : isIdentifier s.kind := by
    rw [hs.kind]
    rfl
  rw [expectName, run_currentKind, if_pos hk, run_advance, run_pure, hs.lexeme]
  rfl

end Uwu.Grammar
