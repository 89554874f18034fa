import Uwu.Grammar.Item

/-! What holds after a parser has run, of its value and state where it succeeds and
of the state where it fails. The rules read such a statement backwards, one step at
a time. -/

namespace Uwu.Grammar

namespace State

/-- The kind of the current token. -/
abbrev kind (s : State) : Kind := s.stream.current.kind

/-- One token on. -/
def next (s : State) : State := { s with stream := s.stream.advance }

@[simp]
theorem tokens_next (s : State) : s.next.stream.tokens = s.stream.tokens.tail := by
  rw [next, Stream.advance]
  split
  next h => simp [h]
  next h => simp [h]

@[simp]
theorem current_next (s : State) : s.next.stream.current = s.stream.peek := by
  rw [Stream.current, Stream.peek, tokens_next]
  rw [next, Stream.advance]
  split <;> rfl

/-- Before the end a token is read. -/
theorem tokens_eq_cons {s : State} (h : s.kind ≠ .endOfFile) :
    s.stream.tokens = s.stream.current :: s.next.stream.tokens := by
  rw [tokens_next]
  cases ht : s.stream.tokens with
  | nil => simp [kind, Stream.current, ht, endToken] at h
  | cons t ts => simp [Stream.current, ht]

end State

variable {α β : Type} {p : Parse α} {s : State} {ok ok' : α → State → Prop}
  {fail fail' : State → Prop}

/-- `ok` holds after `p` where it succeeds, and `fail` where it fails. -/
def Outcome (p : Parse α) (s : State) (ok : α → State → Prop) (fail : State → Prop) : Prop :=
  match p s with
  | .ok a s' => ok a s'
  | .error _ s' => fail s'

theorem Outcome.mono (h : Outcome p s ok fail) (hok : ∀ a s', ok a s' → ok' a s')
    (hfail : ∀ s', fail s' → fail' s') : Outcome p s ok' fail' := by
  unfold Outcome at h ⊢
  split
  next a s' hp =>
    rw [hp] at h
    exact hok a s' h
  next d s' hp =>
    rw [hp] at h
    exact hfail s' h

/-- What holds of everything holds after a parser. -/
theorem outcome_always (hok : ∀ a s', ok a s') (hfail : ∀ s', fail s') : Outcome p s ok fail := by
  unfold Outcome
  split
  next => exact hok _ _
  next => exact hfail _

/-- A parser that cannot fail succeeds. -/
theorem Outcome.exists_ok (h : Outcome p s ok fun _ => False) :
    ∃ a s', p s = .ok a s' ∧ ok a s' := by
  unfold Outcome at h
  split at h
  next a s' hp => exact ⟨a, s', hp, h⟩
  next => exact h.elim

/-! ### The rules -/

@[simp]
theorem outcome_bind {ok : β → State → Prop} (p : Parse α) (f : α → Parse β) :
    Outcome (p >>= f) s ok fail ↔ Outcome p s (fun a s' => Outcome (f a) s' ok fail) fail := by
  unfold Outcome
  change (match EStateM.bind p f s with | .ok a s' => ok a s' | .error _ s' => fail s') ↔ _
  rw [EStateM.bind]
  cases p s <;> rfl

@[simp]
theorem outcome_map {ok : β → State → Prop} (f : α → β) (p : Parse α) :
    Outcome (f <$> p) s ok fail ↔ Outcome p s (fun a s' => ok (f a) s') fail := by
  unfold Outcome
  change (match EStateM.map f p s with | .ok a s' => ok a s' | .error _ s' => fail s') ↔ _
  rw [EStateM.map]
  cases p s <;> rfl

@[simp]
theorem outcome_currentKind {ok : Kind → State → Prop} :
    Outcome currentKind s ok fail ↔ ok s.kind s := Iff.rfl

@[simp]
theorem outcome_bound {ok : Nat → State → Prop} :
    Outcome bound s ok fail ↔ ok (s.stream.tokens.length + 1) s := Iff.rfl

@[simp]
theorem outcome_advance {ok : Token → State → Prop} :
    Outcome advance s ok fail ↔ ok s.stream.current s.next := Iff.rfl

@[simp]
theorem outcome_failExpected (what : String) :
    Outcome (failExpected what : Parse α) s ok fail ↔ fail s := Iff.rfl

@[simp]
theorem outcome_expect {ok : Token → State → Prop} (k : Kind) :
    Outcome (expect k) s ok fail ↔
      if s.kind = k then ok s.stream.current s.next else fail s := by
  rw [expect, expectOr, outcome_bind, outcome_currentKind]
  split <;> simp

@[simp]
theorem outcome_expectSymbol {ok : Span → State → Prop} (x : Symbol) :
    Outcome (expectSymbol x) s ok fail ↔
      if s.kind = .symbol x then ok s.stream.current.span s.next else fail s := by
  simp [expectSymbol]

@[simp]
theorem outcome_insideLoop :
    Outcome (insideLoop p) s ok fail ↔
      Outcome p { s with loops := s.loops + 1 }
        (fun a s' => ok a { s' with loops := s'.loops - 1 })
        (fun s' => fail { s' with loops := s'.loops - 1 }) := by
  unfold Outcome insideLoop
  cases p { s with loops := s.loops + 1 } <;> rfl

/-- A parser that recovers never fails. -/
theorem outcome_recovering {ok : Option α → State → Prop} {item : Parse α}
    {skip : State → State → State}
    (h : Outcome item s (fun a s' => ok (some a) s')
      (fun s' => ∀ d, ok none (skip s { s' with recorded := s'.recorded ++ [d] }))) :
    Outcome (recovering item skip) s ok fail := by
  unfold Outcome at h ⊢
  unfold recovering
  cases hi : item s with
  | ok a s' => simpa [hi] using h
  | error d s' =>
    rw [hi] at h
    exact h d

/-- What is broken adds nothing to what is read off a list. -/
theorem flatMap_filterMap_id {α β : Type} (f : α → List β) (xs : List (Option α)) :
    xs.flatMap (fun x => (x.map f).getD []) = (xs.filterMap id).flatMap f := by
  induction xs with
  | nil => rfl
  | cons x xs ih => cases x <;> simp [ih]

/-- What is picked out of changed elements is what is picked out of the elements, changed. -/
theorem filterMap_map_comm {α β γ δ : Type} {pick : α → Option β} {pick' : γ → Option δ}
    {f : α → γ} {g : β → δ} (h : ∀ x, pick' (f x) = (pick x).map g) (xs : List α) :
    (xs.map f).filterMap pick' = (xs.filterMap pick).map g := by
  rw [List.filterMap_map, List.map_filterMap]
  exact congrArg (List.filterMap · xs) (funext h)

theorem filterMap_id_map {α β : Type} (f : α → β) (xs : List (Option α)) :
    (xs.map (Option.map f)).filterMap id = (xs.filterMap id).map f := by
  apply filterMap_map_comm
  intro x
  rfl

end Uwu.Grammar
