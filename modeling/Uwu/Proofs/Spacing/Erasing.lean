import Uwu.Proofs.Grammar.Outcome
import Uwu.Proofs.Spacing.Trees

/-! A parser on tokens without places. It takes the same way there, and makes the same tree without
its spans, or fails as it does with them. The rules read this from the steps of a parser. -/

namespace Uwu

/-! ### Tokens -/

/-- The token in no place, and a keyword of two words with one space between these. -/
def Token.erase (t : Token) : Token where
  kind := t.kind
  lexeme :=
    match t.kind with
    | .keyword k => if k ∈ Keyword.doubles then k.spelling else t.lexeme
    | _ => t.lexeme
  span := default

@[simp]
theorem Token.kind_erase (t : Token) : t.erase.kind = t.kind := rfl

@[simp]
theorem Token.span_erase (t : Token) : t.erase.span = default := rfl

theorem Token.lexeme_erase {t : Token} (h : ∀ k ∈ Keyword.doubles, t.kind ≠ .keyword k) :
    t.erase.lexeme = t.lexeme := by
  rw [erase]
  dsimp only
  split
  next k hk => exact if_neg fun hmem => h k hmem hk
  next => rfl

namespace Grammar

/-! ### States -/

namespace Stream

def erase (s : Stream) : Stream :=
  ⟨s.tokens.map Token.erase, default, default⟩

variable (s : Stream)

theorem current_erase : s.erase.current = s.current.erase := by
  rw [current, current, erase]
  cases s.tokens <;> rfl

theorem peek_erase : s.erase.peek = s.peek.erase := by
  rw [peek, peek, erase]
  rcases s.tokens with _ | ⟨_, _ | _⟩ <;> rfl

theorem advance_erase : s.erase.advance = s.advance.erase := by
  obtain ⟨_ | _, stop, previous⟩ := s <;> rfl

theorem skipStatementFrom_erase (stop : Span) (ts : List Token) (depth : Nat) (p : Span) :
    skipStatementFrom default depth default (ts.map Token.erase) =
      (skipStatementFrom stop depth p ts).erase := by
  induction ts generalizing depth p with
  | nil => rfl
  | cons t ts ih =>
    obtain ⟨kind, lexeme, span⟩ := t
    cases kind with
    | symbol x =>
      simp only [List.map_cons, skipStatementFrom, Token.erase]
      split
      next => rfl
      next =>
        split
        next => rfl
        next => exact ih _ _
      next => exact ih _ _
      next =>
        split
        next => rfl
        next => rfl
        next => exact ih _ _
      next => exact ih _ _
    | endOfFile => rfl
    | _ => exact ih depth span

theorem skipItemFrom_erase (stop : Span) (ts : List Token) (depth : Nat) (p : Span) :
    skipItemFrom default depth default (ts.map Token.erase) =
      (skipItemFrom stop depth p ts).erase := by
  induction ts generalizing depth p with
  | nil => rfl
  | cons t ts ih =>
    rw [List.map_cons, skipItemFrom, skipItemFrom, Token.kind_erase, Token.span_erase]
    split
    next => rfl
    next =>
      split
      next => rw [ih]
      next => rw [ih]
      next => rw [ih]

theorem ofTokens_erase (tokens : List Token) :
    ofTokens (tokens.map Token.erase) = (ofTokens tokens).erase := by
  have hfilter : (tokens.map Token.erase).filter (fun t => !t.kind.isTrivia) =
      (tokens.filter fun t => !t.kind.isTrivia).map Token.erase := by
    rw [List.filter_map]
    rfl
  simp only [ofTokens, hfilter, List.getLast?_map]
  generalize tokens.filter (fun t => !t.kind.isTrivia) = ts
  cases ts.getLast? with
  | none => rfl
  | some t =>
    simp only [Option.map_some]
    by_cases hend : t.kind = .endOfFile
    · have hend' : t.erase.kind = .endOfFile := hend
      rw [if_pos hend, if_pos hend', ← List.map_dropLast]
      cases ts.dropLast <;> rfl
    · have hend' : t.erase.kind ≠ .endOfFile := hend
      rw [if_neg hend, if_neg hend']
      cases ts <;> rfl

end Stream

/-- `s'` is where `s` is among tokens without places, and has found a mistake if `s` has. -/
structure State.Erases (s s' : State) : Prop where
  stream : s'.stream = s.stream.erase
  loops : s'.loops = s.loops
  recorded : s'.recorded = [] ↔ s.recorded = []

namespace State.Erases

variable {s s' t t' : State}

theorem current (h : s.Erases s') : s'.stream.current = s.stream.current.erase := by
  rw [h.stream, Stream.current_erase]

theorem kind (h : s.Erases s') : s'.kind = s.kind := by
  rw [State.kind, h.current, Token.kind_erase]

theorem length (h : s.Erases s') : s'.stream.tokens.length = s.stream.tokens.length := by
  rw [h.stream]
  exact List.length_map _

theorem next (h : s.Erases s') : s.next.Erases s'.next where
  stream := by
    rw [State.next, h.stream, Stream.advance_erase]
    rfl
  loops := h.loops
  recorded := h.recorded

theorem record (h : s.Erases s') (d d' : Diagnostic) :
    State.Erases { s with recorded := s.recorded ++ [d] }
      { s' with recorded := s'.recorded ++ [d'] } where
  stream := h.stream
  loops := h.loops
  recorded := by simp

theorem skipStatement (_ : s.Erases s') (h : t.Erases t') :
    (skipStatement s t).Erases (Grammar.skipStatement s' t') where
  stream := by
    rw [Grammar.skipStatement, Stream.skipStatement, h.stream]
    exact Stream.skipStatementFrom_erase _ _ 0 _
  loops := h.loops
  recorded := h.recorded

theorem skipItem (hs : s.Erases s') (h : t.Erases t') :
    (skipItem s t).Erases (Grammar.skipItem s' t') := by
  have hskip : t'.stream.skipItem = t.stream.skipItem.erase := by
    rw [h.stream]
    exact Stream.skipItemFrom_erase _ _ 0 _
  have hlength : t'.stream.skipItem.tokens.length = t.stream.skipItem.tokens.length := by
    rw [hskip]
    exact List.length_map _
  simp only [Grammar.skipItem]
  rw [hlength, hs.length, hskip, Stream.advance_erase]
  split
  next => exact ⟨rfl, h.loops, h.recorded⟩
  next => exact ⟨rfl, h.loops, h.recorded⟩

end State.Erases

/-! ### Parsers -/

variable {α β α' β' : Type} {h : α → β} {h' : α' → β'} {p : Parse α} {q : Parse β} {s s' : State}

/-- `q` does from `s'` what `p` does from `s`, and reads `h` of what `p` reads. -/
def FollowsAt (h : α → β) (p : Parse α) (q : Parse β) (s s' : State) : Prop :=
  match p s with
  | .ok a t => ∃ t', q s' = .ok (h a) t' ∧ t.Erases t'
  | .error _ t => ∃ d t', q s' = .error d t' ∧ t.Erases t'

/-- On tokens without places `q` does what `p` does on the tokens themselves. -/
def Follows (h : α → β) (p : Parse α) (q : Parse β) : Prop :=
  ∀ s s', s.Erases s' → FollowsAt h p q s s'

theorem follows_pure {a : α} {b : β} (hab : h a = b) : Follows h (pure a) (pure b) :=
  fun _ s' hs => ⟨s', congrArg (EStateM.Result.ok · s') hab.symm, hs⟩

theorem follows_throw (d d' : Diagnostic) : Follows h (throw d) (throw d') :=
  fun _ s' hs => ⟨d', s', rfl, hs⟩

theorem FollowsAt.bind {f : α → Parse α'} {g : β → Parse β'} (hp : FollowsAt h p q s s')
    (hf : ∀ a, Follows h' (f a) (g (h a))) : FollowsAt h' (p >>= f) (q >>= g) s s' := by
  unfold FollowsAt at hp ⊢
  change match EStateM.bind p f s with
    | .ok a t => ∃ t', EStateM.bind q g s' = .ok (h' a) t' ∧ t.Erases t'
    | .error _ t => ∃ d t', EStateM.bind q g s' = .error d t' ∧ t.Erases t'
  rw [EStateM.bind, EStateM.bind]
  cases hps : p s with
  | ok a t =>
    rw [hps] at hp
    obtain ⟨t', hq, ht⟩ := hp
    simp only [hq]
    exact hf a t t' ht
  | error d t =>
    rw [hps] at hp
    obtain ⟨d', t', hq, ht⟩ := hp
    simp only [hq]
    exact ⟨d', t', rfl, ht⟩

theorem Follows.bind {f : α → Parse α'} {g : β → Parse β'} (hp : Follows h p q)
    (hf : ∀ a, Follows h' (f a) (g (h a))) : Follows h' (p >>= f) (q >>= g) :=
  fun s s' hs => (hp s s' hs).bind hf

theorem Follows.map {f : α → α'} {g : β → β'} (hp : Follows h p q)
    (hfg : ∀ a, h' (f a) = g (h a)) : Follows h' (f <$> p) (g <$> q) :=
  hp.bind fun a => follows_pure (hfg a)

/-! ### The current token -/

theorem follows_current : Follows Token.erase current current :=
  fun _ s' hs => ⟨s', congrArg (EStateM.Result.ok · s') hs.current, hs⟩

/-- Kinds are read as they are. -/
theorem followsAt_currentKind_bind {f : Kind → Parse α} {g : Kind → Parse β} (hs : s.Erases s')
    (hf : FollowsAt h (f s.kind) (g s.kind) s s') :
    FollowsAt h (currentKind >>= f) (currentKind >>= g) s s' := by
  have hg : (currentKind >>= g) s' = g s'.kind s' := rfl
  unfold FollowsAt at hf ⊢
  rw [hg, hs.kind]
  exact hf

theorem follows_currentKind_bind {f : Kind → Parse α} {g : Kind → Parse β}
    (hf : ∀ k, Follows h (f k) (g k)) : Follows h (currentKind >>= f) (currentKind >>= g) :=
  fun s s' hs => followsAt_currentKind_bind hs (hf s.kind s s' hs)

theorem follows_ifKind (k : Kind) {p' : Parse α} {q' : Parse β} (hp : Follows h p q)
    (hp' : Follows h p' q') :
    Follows h (currentKind >>= fun j => if j = k then p else p')
      (currentKind >>= fun j => if j = k then q else q') := by
  apply follows_currentKind_bind
  intro j
  by_cases hj : j = k
  · rw [if_pos hj, if_pos hj]
    exact hp
  · rw [if_neg hj, if_neg hj]
    exact hp'

theorem follows_nextKind : Follows id nextKind nextKind := by
  intro s s' hs
  have hkind : s'.stream.peek.kind = s.stream.peek.kind := by
    rw [hs.stream, Stream.peek_erase, Token.kind_erase]
  exact ⟨s', congrArg (EStateM.Result.ok · s') hkind, hs⟩

theorem follows_spanBefore : Follows Span.erase spanBefore spanBefore := by
  intro s s' hs
  have hprevious : s'.stream.previous = default := by
    rw [hs.stream]
    rfl
  exact ⟨s', congrArg (EStateM.Result.ok · s') hprevious, hs⟩

theorem follows_bound : Follows id bound bound :=
  fun _ s' hs => ⟨s', congrArg (fun n => EStateM.Result.ok (n + 1) s') hs.length, hs⟩

theorem follows_isLooping : Follows id isLooping isLooping :=
  fun _ s' hs => ⟨s', congrArg (fun n => EStateM.Result.ok (decide (0 < n)) s') hs.loops, hs⟩

theorem follows_advance : Follows Token.erase advance advance :=
  fun _ s' hs => ⟨s'.next, congrArg (EStateM.Result.ok · s'.next) hs.current, hs.next⟩

/-- What is read next is the current token. -/
theorem followsAt_advance_bind {f : Token → Parse α} {g : Token → Parse β} (hs : s.Erases s')
    (hf : Follows h (f s.stream.current) (g s.stream.current.erase)) :
    FollowsAt h (advance >>= f) (advance >>= g) s s' := by
  have hnext := hf s.next s'.next hs.next
  have hg : (advance >>= g) s' = g s'.stream.current s'.next := rfl
  unfold FollowsAt at hnext ⊢
  rw [hg, hs.current]
  exact hnext

theorem follows_record (d d' : Diagnostic) : Follows id (record d) (record d') :=
  fun _ _ hs => ⟨_, rfl, hs.record d d'⟩

/-! ### Mistakes -/

theorem follows_failHere (cause cause' : Cause) : Follows h (failHere cause) (failHere cause') :=
  follows_current.bind fun _ => follows_throw _ _

theorem follows_failExpected (what : String) :
    Follows h (failExpected what) (failExpected what) :=
  follows_current.bind fun _ => follows_failHere _ _

theorem follows_failUnexpected (reason : String) :
    Follows h (failUnexpected reason) (failUnexpected reason) :=
  follows_current.bind fun _ => follows_failHere _ _

/-! ### Given tokens -/

theorem follows_expect (k : Kind) : Follows Token.erase (expect k) (expect k) :=
  follows_ifKind k follows_advance (follows_failExpected _)

theorem follows_expectSymbol (x : Symbol) :
    Follows Span.erase (expectSymbol x) (expectSymbol x) :=
  (follows_expect _).map fun _ => rfl

theorem follows_expectName : Follows unplaced expectName expectName := by
  intro s s' hs
  apply followsAt_currentKind_bind hs
  by_cases hk : isIdentifier s.kind
  · rw [if_pos hk]
    apply followsAt_advance_bind hs
    apply follows_pure
    have hlexeme : s.stream.current.erase.lexeme = s.stream.current.lexeme := by
      apply Token.lexeme_erase
      intro k _ hkind
      rw [State.kind, hkind] at hk
      cases hk
    rw [hlexeme]
    rfl
  · rw [if_neg hk]
    exact follows_failExpected _ s s' hs

theorem follows_declarationAhead : Follows id declarationAhead declarationAhead :=
  follows_currentKind_bind fun _ => follows_nextKind.bind fun _ => follows_pure rfl

/-! ### Repetition -/

theorem Follows.insideLoop (hp : Follows h p q) : Follows h (insideLoop p) (insideLoop q) := by
  intro s s' hs
  have hinside : State.Erases { s with loops := s.loops + 1 } { s' with loops := s'.loops + 1 } :=
    ⟨hs.stream, congrArg (· + 1) hs.loops, hs.recorded⟩
  have hbehind {t t' : State} (ht : t.Erases t') :
      State.Erases { t with loops := t.loops - 1 } { t' with loops := t'.loops - 1 } :=
    ⟨ht.stream, congrArg (· - 1) ht.loops, ht.recorded⟩
  have hp := hp _ _ hinside
  unfold FollowsAt Grammar.insideLoop at *
  cases hps : p { s with loops := s.loops + 1 } with
  | ok a t =>
    rw [hps] at hp
    obtain ⟨t', hq, ht⟩ := hp
    simp only [hq]
    exact ⟨_, rfl, hbehind ht⟩
  | error d t =>
    rw [hps] at hp
    obtain ⟨d', t', hq, ht⟩ := hp
    simp only [hq]
    exact ⟨d', _, rfl, hbehind ht⟩

theorem Follows.recovering {skip : State → State → State}
    (hskip : ∀ {s s' t t' : State}, s.Erases s' → t.Erases t' → (skip s t).Erases (skip s' t'))
    (hp : Follows h p q) : Follows (Option.map h) (recovering p skip) (recovering q skip) := by
  intro s s' hs
  have hp := hp s s' hs
  unfold FollowsAt Grammar.recovering at *
  cases hps : p s with
  | ok a t =>
    rw [hps] at hp
    obtain ⟨t', hq, ht⟩ := hp
    simp only [hq]
    exact ⟨t', rfl, ht⟩
  | error d t =>
    rw [hps] at hp
    obtain ⟨d', t', hq, ht⟩ := hp
    simp only [hq]
    exact ⟨_, rfl, hskip hs (ht.record d d')⟩

theorem Follows.many (more : Kind → Bool) (hp : Follows h p q) :
    Follows (List.map h) (many more p) (many more q) := by
  have upTo (n : Nat) : Follows (List.map h) (upTo more p n) (upTo more q n) := by
    induction n with
    | zero => exact follows_pure rfl
    | succ n ih =>
      apply follows_currentKind_bind
      intro k
      by_cases hk : more k
      · rw [if_pos hk, if_pos hk]
        exact hp.bind fun x => ih.bind fun xs => follows_pure rfl
      · rw [if_neg hk, if_neg hk]
        exact follows_pure rfl
  exact follows_bound.bind upTo

theorem Follows.listTo (close : Symbol) (hp : Follows h p q) :
    Follows (Prod.map (List.map h) Span.erase) (listTo close p) (listTo close q) := by
  have listUpTo (n : Nat) : Follows (List.map h) (listUpTo close p n) (listUpTo close q n) := by
    induction n with
    | zero => exact follows_pure rfl
    | succ n ih =>
      apply follows_ifKind _ (follows_pure rfl)
      apply hp.bind
      intro x
      apply follows_ifKind
      · exact follows_advance.bind fun _ => ih.bind fun xs => follows_pure rfl
      · exact follows_pure rfl
  exact follows_bound.bind fun n => (listUpTo n).bind fun xs =>
    (follows_expectSymbol close).bind fun stop => follows_pure rfl

end Grammar

end Uwu
