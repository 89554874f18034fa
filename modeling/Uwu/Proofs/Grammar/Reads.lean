import Uwu.Proofs.Grammar.Outcome

/-! What a parser does to the state, whether it succeeds or fails, and how many tokens it takes
when it succeeds. -/

namespace Uwu.Grammar

/-- Neither the end nor a bracket of a block. -/
def isPlain : Kind → Bool
  | .endOfFile | .symbol .doubleOpenBracket | .symbol .doubleCloseBracket => false
  | _ => true

theorem isPlain_iff {k : Kind} : isPlain k ↔
    k ≠ .endOfFile ∧ k ≠ .symbol .doubleOpenBracket ∧ k ≠ .symbol .doubleCloseBracket := by
  cases k with
  | symbol x => cases x <;> simp [isPlain]
  | _ => simp [isPlain]

theorem isPlain_of_isIdentifier {k : Kind} (h : isIdentifier k) : isPlain k := by
  cases k <;> first | rfl | cases h

/-- A relation from the state before to the state after that every step of a parser outside of
blocks keeps: a plain token is read, a mistake is recorded, a loop is counted in and out. -/
class Journey (R : State → State → Prop) : Prop where
  refl (s : State) : R s s
  trans {s t u : State} : R s t → R t u → R s u
  next {s : State} : isPlain s.kind → R s s.next
  record (s : State) (d : Diagnostic) : R s { s with recorded := s.recorded ++ [d] }
  insideLoop {s t : State} :
    R { s with loops := s.loops + 1 } t → R s { t with loops := t.loops - 1 }

/-- `p` goes a journey of the kind `R`, and takes `n` tokens at least where it succeeds. -/
def Reads (R : State → State → Prop) (n : Nat) {α : Type} (p : Parse α) (s : State) : Prop :=
  Outcome p s (fun _ t => R s t ∧ t.stream.tokens.length + n ≤ s.stream.tokens.length) (R s)

variable {R : State → State → Prop} {α β : Type} {p : Parse α} {f : α → Parse β} {s : State}
  {n : Nat}

theorem Reads.mono {m : Nat} (h : Reads R n p s) (hmn : m ≤ n) : Reads R m p s :=
  Outcome.mono h (fun _ _ ⟨hR, hl⟩ => ⟨hR, by omega⟩) fun _ hR => hR

theorem Reads.zero (h : Reads R n p s) : Reads R 0 p s :=
  h.mono n.zero_le

/-! ### The rules -/

theorem Reads.map (g : α → β) (hp : Reads R n p s) : Reads R n (g <$> p) s := by
  rw [Reads, outcome_map]
  exact hp

@[simp]
theorem reads_current_bind {f : Token → Parse β} :
    Reads R n (current >>= f) s ↔ Reads R n (f s.stream.current) s := Iff.rfl

@[simp]
theorem reads_currentKind_bind {f : Kind → Parse β} :
    Reads R n (currentKind >>= f) s ↔ Reads R n (f s.kind) s := Iff.rfl

@[simp]
theorem reads_nextKind_bind {f : Kind → Parse β} :
    Reads R n (nextKind >>= f) s ↔ Reads R n (f s.stream.peek.kind) s := Iff.rfl

@[simp]
theorem reads_spanBefore_bind {f : Span → Parse β} :
    Reads R n (spanBefore >>= f) s ↔ Reads R n (f s.stream.previous) s := Iff.rfl

@[simp]
theorem reads_bound_bind {f : Nat → Parse β} :
    Reads R n (bound >>= f) s ↔ Reads R n (f (s.stream.tokens.length + 1)) s := Iff.rfl

@[simp]
theorem reads_isLooping_bind {f : Bool → Parse β} :
    Reads R n (isLooping >>= f) s ↔ Reads R n (f (0 < s.loops)) s := Iff.rfl

@[simp]
theorem reads_declarationAhead_bind {f : Bool → Parse β} :
    Reads R n (declarationAhead >>= f) s ↔
      Reads R n (f (isIdentifier s.kind && s.stream.peek.kind == .symbol .dash)) s := Iff.rfl

section Rules

variable [Journey R]

theorem reads_pure (a : α) : Reads R 0 (pure a) s :=
  ⟨Journey.refl s, Nat.le_refl _⟩

theorem reads_throw (d : Diagnostic) : Reads R n (throw d : Parse α) s :=
  Journey.refl s

theorem reads_failHere (cause : Cause) : Reads R n (failHere cause : Parse α) s :=
  Journey.refl s

theorem reads_failExpected (what : String) : Reads R n (failExpected what : Parse α) s :=
  Journey.refl s

theorem reads_failUnexpected (reason : String) : Reads R n (failUnexpected reason : Parse α) s :=
  Journey.refl s

/-- One parser after another: what the two take adds up. -/
theorem Reads.bind {m : Nat} (hp : Reads R m p s) (hf : ∀ a t, Reads R n (f a) t) :
    Reads R (m + n) (p >>= f) s := by
  rw [Reads, outcome_bind]
  refine Outcome.mono hp (fun a t ⟨hR, hl⟩ => ?_) fun _ hR => hR
  refine Outcome.mono (hf a t) (fun _ u ⟨hR', hl'⟩ => ?_) fun u hR' => Journey.trans hR hR'
  exact ⟨Journey.trans hR hR', by omega⟩

/-- The first of two parsers takes the tokens. -/
theorem Reads.andThen (hp : Reads R n p s) (hf : ∀ a t, Reads R 0 (f a) t) :
    Reads R n (p >>= f) s :=
  hp.bind hf

/-- The second of two parsers takes the tokens. -/
theorem Reads.before (hp : Reads R 0 p s) (hf : ∀ a t, Reads R n (f a) t) :
    Reads R n (p >>= f) s :=
  (hp.bind hf).mono (by omega)

/-- A parser whose value is made into another. -/
theorem Reads.result (g : α → β) (hp : Reads R n p s) :
    Reads R n (p >>= fun a => pure (g a)) s :=
  hp.andThen fun _ _ => reads_pure _

theorem reads_record (d : Diagnostic) : Reads R 0 (record d) s :=
  ⟨Journey.record s d, Nat.le_refl _⟩

theorem reads_advance (h : isPlain s.kind) : Reads R 1 advance s := by
  have hl : s.next.stream.tokens.length + 1 = s.stream.tokens.length := by
    rw [State.tokens_eq_cons (isPlain_iff.mp h).1, List.length_cons]
  exact ⟨Journey.next h, Nat.le_of_eq hl⟩

/-- A parser that begins by reading a plain token. -/
theorem Reads.next {f : Token → Parse β} (h : isPlain s.kind) (hf : ∀ a t, Reads R 0 (f a) t) :
    Reads R 1 (advance >>= f) s :=
  (reads_advance h).andThen hf

/-- Where the tokens of `f` depend on the state behind the token that is read. -/
theorem Reads.nextTo {f : Token → Parse β} (h : isPlain s.kind)
    (hf : Reads R 0 (f s.stream.current) s.next) : Reads R 1 (advance >>= f) s := by
  obtain ⟨hR, hl⟩ : R s s.next ∧ s.next.stream.tokens.length + 1 ≤ s.stream.tokens.length :=
    reads_advance h
  rw [Reads, outcome_bind, outcome_advance]
  refine Outcome.mono hf (fun _ u ⟨hR', hl'⟩ => ?_) fun u hR' => Journey.trans hR hR'
  exact ⟨Journey.trans hR hR', by omega⟩

theorem reads_expect {k : Kind} (h : isPlain k) : Reads R 1 (expect k) s := by
  rw [expect, expectOr, reads_currentKind_bind]
  split
  next hk => exact reads_advance (hk ▸ h)
  next => exact reads_failExpected _

theorem reads_expectSymbol {x : Symbol} (h : isPlain (.symbol x)) :
    Reads R 1 (expectSymbol x) s :=
  (reads_expect h).result _

theorem reads_expectName : Reads R 1 expectName s := by
  rw [expectName, reads_currentKind_bind]
  split
  next h => exact .next (isPlain_of_isIdentifier h) fun _ _ => reads_pure _
  next => exact reads_failExpected _

theorem Reads.insideLoop (hp : ∀ t, Reads R n p t) : Reads R n (insideLoop p) s := by
  rw [Reads, outcome_insideLoop]
  exact Outcome.mono (hp _) (fun _ _ ⟨hR, hl⟩ => ⟨Journey.insideLoop hR, hl⟩)
    fun _ hR => Journey.insideLoop hR

/-! ### Repetition -/

theorem reads_upTo {more : Kind → Bool} {item : Parse α}
    (h : ∀ t : State, more t.kind → Reads R 0 item t) (n : Nat) :
    Reads R 0 (upTo more item n) s := by
  induction n generalizing s with
  | zero => exact reads_pure _
  | succ n ih =>
    rw [upTo, reads_currentKind_bind]
    split
    next hm => exact (h s hm).andThen fun _ _ => ih.result _
    next => exact reads_pure _

theorem reads_many {more : Kind → Bool} {item : Parse α}
    (h : ∀ t : State, more t.kind → Reads R 0 item t) : Reads R 0 (many more item) s :=
  reads_bound_bind.mpr (reads_upTo h _)

theorem reads_listUpTo {close : Symbol} {item : Parse α} (h : ∀ t, Reads R 0 item t) (n : Nat) :
    Reads R 0 (listUpTo close item n) s := by
  induction n generalizing s with
  | zero => exact reads_pure _
  | succ n ih =>
    rw [listUpTo, reads_currentKind_bind]
    split
    next => exact reads_pure _
    next =>
      refine (h s).andThen fun x t => ?_
      rw [reads_currentKind_bind]
      split
      next hc =>
        refine (reads_advance (by rw [hc]; rfl)).zero.andThen fun _ _ => ?_
        exact ih.result _
      next => exact reads_pure _

theorem reads_listTo {close : Symbol} {item : Parse α} (h : ∀ t, Reads R 0 item t)
    (hc : isPlain (.symbol close)) : Reads R 1 (listTo close item) s := by
  rw [listTo, reads_bound_bind]
  exact (reads_listUpTo h _).before fun _ _ => (reads_expectSymbol hc).result _

end Rules

end Uwu.Grammar
