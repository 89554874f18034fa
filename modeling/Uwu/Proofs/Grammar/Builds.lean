import Uwu.Proofs.Grammar.Spelling
import Uwu.Proofs.Grammar.WellFormed

/-! What a parser builds when it records no mistake, so many loops deep in a given list of tokens.
A mistake that is recorded stays recorded, so nothing needs to be said of what is built behind it. -/

namespace Uwu.Grammar

/-! ### States -/

/-- So many loops deep, with a stretch of `ts` left. -/
structure State.Within (ts : List Token) (loops : Nat) (s : State) : Prop where
  tokens : s.stream.tokens <:+: ts
  loops : s.loops = loops

/-- Tokens are taken from the front, loops stay counted, and mistakes stay recorded. -/
structure Onward (s t : State) : Prop where
  tokens : t.stream.tokens <:+ s.stream.tokens
  loops : t.loops = s.loops
  clean : t.recorded = [] → s.recorded = []

instance : Journey Onward where
  refl _ := ⟨List.suffix_rfl, rfl, id⟩
  trans h h' := ⟨h'.tokens.trans h.tokens, h'.loops.trans h.loops, h.clean ∘ h'.clean⟩
  next {s} _ := by
    refine ⟨?_, rfl, id⟩
    rw [State.tokens_next]
    exact List.tail_suffix _
  record _ _ := ⟨List.suffix_rfl, rfl, fun h => by simp at h⟩
  insideLoop h := ⟨h.tokens, by simp [h.loops], h.clean⟩

/-- Where nothing is recorded, `P` holds of what `p` builds so many loops deep. -/
def Builds (ts : List Token) (loops : Nat) {α : Type} (P : α → Prop) (p : Parse α) (s : State) :
    Prop :=
  s.Within ts loops →
    Outcome p s (fun a t => t.Within ts loops ∧ (t.recorded = [] → s.recorded = [] ∧ P a))
      (State.Within ts loops)

section Rules

variable {ts : List Token} {loops : Nat} {α β : Type} {P P' : α → Prop} {Q : β → Prop}
  {p : Parse α} {f : α → Parse β} {s t : State}

theorem State.Within.onward (h : s.Within ts loops) (hst : Onward s t) : t.Within ts loops where
  tokens := hst.tokens.isInfix.trans h.tokens
  loops := hst.loops.trans h.loops

theorem State.Within.next (h : s.Within ts loops) : s.next.Within ts loops := by
  refine ⟨?_, h.loops⟩
  rw [State.tokens_next]
  exact (List.tail_suffix _).isInfix.trans h.tokens

theorem State.Within.current (h : s.Within ts loops) (hk : s.kind ≠ .endOfFile) :
    s.stream.current ∈ ts := by
  refine h.tokens.subset ?_
  rw [State.tokens_eq_cons hk]
  exact List.mem_cons_self

/-- Of a parser that goes on outside of blocks nothing more is asked. -/
theorem Reads.builds {n : Nat} (h : Reads Onward n p s) : Builds ts loops (fun _ => True) p s :=
  fun hs => Outcome.mono h (fun _ _ ht => ⟨hs.onward ht.1, fun hc => ⟨ht.1.clean hc, trivial⟩⟩)
    fun _ ht => hs.onward ht

theorem Builds.mono (h : Builds ts loops P p s) (hP : ∀ a, P a → P' a) :
    Builds ts loops P' p s :=
  fun hs => (h hs).mono (fun a _ ht => ⟨ht.1, fun hc => ⟨(ht.2 hc).1, hP a (ht.2 hc).2⟩⟩)
    fun _ ht => ht

theorem builds_pure {a : α} (h : P a) : Builds ts loops P (pure a) s :=
  fun hs => ⟨hs, fun hc => ⟨hc, h⟩⟩

theorem builds_throw (d : Diagnostic) : Builds ts loops P (throw d : Parse α) s :=
  fun hs => hs

theorem builds_failHere (cause : Cause) : Builds ts loops P (failHere cause : Parse α) s :=
  fun hs => hs

theorem builds_failExpected (what : String) :
    Builds ts loops P (failExpected what : Parse α) s :=
  fun hs => hs

theorem builds_failUnexpected (reason : String) :
    Builds ts loops P (failUnexpected reason : Parse α) s :=
  fun hs => hs

/-- What the first parser builds is good as far as the second one records nothing either. -/
theorem Builds.bind (hp : Builds ts loops P p s)
    (hf : ∀ a t, Builds ts loops (fun b => P a → Q b) (f a) t) :
    Builds ts loops Q (p >>= f) s := by
  intro hs
  rw [outcome_bind]
  refine (hp hs).mono (fun a t ⟨ht, ha⟩ => ?_) fun _ ht => ht
  refine (hf a t ht).mono (fun b u ⟨hu, hb⟩ => ⟨hu, fun hc => ?_⟩) fun _ hu => hu
  obtain ⟨hc, hb⟩ := hb hc
  obtain ⟨hc, ha⟩ := ha hc
  exact ⟨hc, hb ha⟩

/-- A parser whose value does not matter before another one. -/
theorem Reads.andBuilds {n : Nat} (hp : Reads Onward n p s)
    (hf : ∀ a t, Builds ts loops Q (f a) t) : Builds ts loops Q (p >>= f) s :=
  hp.builds.bind fun a t => (hf a t).mono fun _ hb _ => hb

/-- A parser whose value is made into another. -/
theorem Builds.result {g : α → β} (hp : Builds ts loops P p s) (hg : ∀ a, P a → Q (g a)) :
    Builds ts loops Q (p >>= fun a => pure (g a)) s :=
  hp.bind fun a _ => builds_pure (hg a)

theorem Builds.map {g : α → β} (hp : Builds ts loops P p s) (hg : ∀ a, P a → Q (g a)) :
    Builds ts loops Q (g <$> p) s := by
  intro hs
  rw [outcome_map]
  exact (hp hs).mono (fun a _ ht => ⟨ht.1, fun hc => ⟨(ht.2 hc).1, hg a (ht.2 hc).2⟩⟩)
    fun _ ht => ht

@[simp]
theorem builds_current_bind {f : Token → Parse β} :
    Builds ts loops Q (current >>= f) s ↔ Builds ts loops Q (f s.stream.current) s := Iff.rfl

@[simp]
theorem builds_currentKind_bind {f : Kind → Parse β} :
    Builds ts loops Q (currentKind >>= f) s ↔ Builds ts loops Q (f s.kind) s := Iff.rfl

@[simp]
theorem builds_nextKind_bind {f : Kind → Parse β} :
    Builds ts loops Q (nextKind >>= f) s ↔ Builds ts loops Q (f s.stream.peek.kind) s := Iff.rfl

@[simp]
theorem builds_spanBefore_bind {f : Span → Parse β} :
    Builds ts loops Q (spanBefore >>= f) s ↔ Builds ts loops Q (f s.stream.previous) s := Iff.rfl

@[simp]
theorem builds_bound_bind {f : Nat → Parse β} :
    Builds ts loops Q (bound >>= f) s ↔
      Builds ts loops Q (f (s.stream.tokens.length + 1)) s := Iff.rfl

@[simp]
theorem builds_declarationAhead_bind {f : Bool → Parse β} :
    Builds ts loops Q (declarationAhead >>= f) s ↔
      Builds ts loops Q (f (isIdentifier s.kind && s.stream.peek.kind == .symbol .dash)) s :=
  Iff.rfl

/-- Whether a loop is around is known. -/
theorem Builds.looping {f : Bool → Parse β} (h : Builds ts loops Q (f (0 < loops)) s) :
    Builds ts loops Q (isLooping >>= f) s := by
  intro hs
  have hf := h hs
  rw [← hs.loops] at hf ⊢
  exact hf

theorem Builds.next {f : Token → Parse β} (hf : ∀ t, Builds ts loops Q (f s.stream.current) t) :
    Builds ts loops Q (advance >>= f) s := by
  intro hs
  rw [outcome_bind, outcome_advance]
  exact hf s.next hs.next

theorem builds_expectSymbol (x : Symbol) :
    Builds ts loops (fun _ => True) (expectSymbol x) s := by
  intro hs
  rw [outcome_expectSymbol]
  split
  next => exact ⟨hs.next, fun hc => ⟨hc, trivial⟩⟩
  next => exact hs

/-- Behind a recorded mistake nothing is asked. -/
theorem Builds.record {d : Diagnostic} {f : Unit → Parse β}
    (hf : ∀ t, Builds ts loops (fun _ => True) (f ()) t) :
    Builds ts loops Q (record d >>= f) s := by
  intro hs
  rw [outcome_bind]
  change Outcome (f ()) { s with recorded := s.recorded ++ [d] } _ _
  have hdirty : State.Within ts loops { s with recorded := s.recorded ++ [d] } :=
    ⟨hs.tokens, hs.loops⟩
  refine (hf _ hdirty).mono (fun b u ⟨hu, hb⟩ => ⟨hu, fun hc => ?_⟩) fun _ hu => hu
  have hnil : s.recorded ++ [d] = [] := (hb hc).1
  simp at hnil

theorem Builds.insideLoop (h : ∀ t, Builds ts (loops + 1) P p t) :
    Builds ts loops P (insideLoop p) s := by
  intro hs
  rw [outcome_insideLoop]
  have hback {t : State} (ht : t.Within ts (loops + 1)) :
      State.Within ts loops { t with loops := t.loops - 1 } :=
    ⟨ht.tokens, by simp [ht.loops]⟩
  have hinside : State.Within ts (loops + 1) { s with loops := s.loops + 1 } :=
    ⟨hs.tokens, by rw [hs.loops]⟩
  exact (h _ hinside).mono (fun a t ht => ⟨hback ht.1, ht.2⟩) fun t ht => hback ht

theorem builds_recovering {skip : State → State → State}
    (hskip : ∀ t u : State, (skip t u).stream.tokens <:+ u.stream.tokens)
    (hloops : ∀ t u, (skip t u).loops = u.loops)
    (hrecorded : ∀ t u, (skip t u).recorded = u.recorded) (h : Builds ts loops P p s) :
    Builds ts loops (fun a => ∀ x, a = some x → P x) (recovering p skip) s := by
  intro hs
  refine outcome_recovering ((h hs).mono (fun a t ht => ⟨ht.1, fun hc => ?_⟩) fun t ht d => ?_)
  · obtain ⟨hc, ha⟩ := ht.2 hc
    refine ⟨hc, ?_⟩
    rintro x ⟨⟩
    exact ha
  · have hwithin : State.Within ts loops { t with recorded := t.recorded ++ [d] } :=
      ⟨ht.tokens, ht.loops⟩
    refine ⟨⟨(hskip _ _).isInfix.trans hwithin.tokens, (hloops _ _).trans hwithin.loops⟩,
      fun hc => ?_⟩
    rw [hrecorded] at hc
    simp at hc

/-! ### Repetition -/

theorem builds_upTo {more : Kind → Bool}
    (h : ∀ t : State, more t.kind → Builds ts loops P p t) (n : Nat) :
    Builds ts loops (fun as => ∀ a ∈ as, P a) (upTo more p n) s := by
  induction n generalizing s with
  | zero => exact builds_pure (List.forall_mem_nil _)
  | succ n ih =>
    rw [upTo, builds_currentKind_bind]
    split
    next hm =>
      refine (h s hm).bind fun a _ => ih.result fun as has ha => ?_
      exact List.forall_mem_cons.2 ⟨ha, has⟩
    next => exact builds_pure (List.forall_mem_nil _)

theorem builds_many {more : Kind → Bool}
    (h : ∀ t : State, more t.kind → Builds ts loops P p t) :
    Builds ts loops (fun as => ∀ a ∈ as, P a) (many more p) s :=
  builds_bound_bind.2 (builds_upTo h _)

/-- Where the current token allows an item, there is one. -/
theorem builds_many_ne_nil {more : Kind → Bool} (hs : more s.kind)
    (h : ∀ t : State, more t.kind → Builds ts loops P p t) :
    Builds ts loops (fun as => as ≠ [] ∧ ∀ a ∈ as, P a) (many more p) s := by
  rw [many, builds_bound_bind, upTo, builds_currentKind_bind, if_pos hs]
  refine (h s hs).bind fun a _ => (builds_upTo h _).result fun as has ha => ?_
  exact ⟨List.cons_ne_nil _ _, List.forall_mem_cons.2 ⟨ha, has⟩⟩

theorem builds_listUpTo {close : Symbol} (h : ∀ t, Builds ts loops P p t) (n : Nat) :
    Builds ts loops (fun as => ∀ a ∈ as, P a) (listUpTo close p n) s := by
  induction n generalizing s with
  | zero => exact builds_pure (List.forall_mem_nil _)
  | succ n ih =>
    rw [listUpTo, builds_currentKind_bind]
    split
    next => exact builds_pure (List.forall_mem_nil _)
    next =>
      refine (h s).bind fun a t => ?_
      rw [builds_currentKind_bind]
      split
      next => exact .next fun _ => ih.result fun as has ha => List.forall_mem_cons.2 ⟨ha, has⟩
      next => exact builds_pure List.forall_mem_singleton.2

theorem builds_listTo {close : Symbol} (h : ∀ t, Builds ts loops P p t) :
    Builds ts loops (fun x => ∀ a ∈ x.1, P a) (listTo close p) s :=
  builds_bound_bind.2 ((builds_listUpTo h _).bind fun _ _ =>
    (builds_expectSymbol close).result fun _ _ has => has)

end Rules

end Uwu.Grammar
