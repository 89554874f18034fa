import Uwu.Proofs.Grammar.Recovery
import Uwu.Proofs.Renumbering.Readings
import Uwu.Proofs.Renumbering.Syntax

/-! A parser on tokens with other numbers for their names. It does the same in either case, to the
mistakes it finds, and what it reads differs in the numbers of classes only. The rules read this
from the steps of a parser. -/

namespace Uwu

/-! ### Tokens -/

section Tokens

variable (ρ : Renumbering)

@[simp]
theorem Token.lexeme_renumber (t : Token) : (t.renumber ρ).lexeme = t.lexeme := rfl

@[simp]
theorem Token.span_renumber (t : Token) : (t.renumber ρ).span = t.span := rfl

@[simp]
theorem Token.kind_renumber (t : Token) : (t.renumber ρ).kind = t.kind.renumber ρ := rfl

namespace Kind

/-- Only names have numbers. -/
theorem renumber_eq_iff {j k : Kind} (h : k.isName = false) : j.renumber ρ = k ↔ j = k := by
  cases j with
  | identifier id =>
    exact iff_of_false (fun he => by rw [← he] at h; cases h) fun he => by rw [← he] at h; cases h
  | classId id =>
    exact iff_of_false (fun he => by rw [← he] at h; cases h) fun he => by rw [← he] at h; cases h
  | _ => rfl

@[simp]
theorem renumber_eq_symbol (k : Kind) (s : Symbol) : k.renumber ρ = .symbol s ↔ k = .symbol s :=
  renumber_eq_iff ρ rfl

@[simp]
theorem renumber_eq_keyword (k : Kind) (w : Keyword) :
    k.renumber ρ = .keyword w ↔ k = .keyword w :=
  renumber_eq_iff ρ rfl

@[simp]
theorem renumber_eq_endOfFile (k : Kind) : k.renumber ρ = .endOfFile ↔ k = .endOfFile :=
  renumber_eq_iff ρ rfl

/-- A test that looks at the numbers of no names. -/
theorem beq_renumber (j : Kind) {k : Kind} (h : k.isName = false) :
    (j.renumber ρ == k) = (j == k) := by
  rw [Bool.eq_iff_iff, beq_iff_eq, beq_iff_eq, renumber_eq_iff ρ h]

@[simp]
theorem beq_symbol_renumber (k : Kind) (s : Symbol) :
    (k.renumber ρ == .symbol s) = (k == .symbol s) :=
  beq_renumber ρ k rfl

@[simp]
theorem beq_keyword_renumber (k : Kind) (w : Keyword) :
    (k.renumber ρ == .keyword w) = (k == .keyword w) :=
  beq_renumber ρ k rfl

@[simp]
theorem isTrivia_renumber (k : Kind) : (k.renumber ρ).isTrivia = k.isTrivia := by
  cases k <;> rfl

@[simp]
theorem described_renumber (k : Kind) : (k.renumber ρ).described = k.described := by
  cases k <;> rfl

@[simp]
theorem isIdentifier_renumber (k : Kind) :
    Grammar.isIdentifier (k.renumber ρ) = Grammar.isIdentifier k := by
  cases k <;> rfl

@[simp]
theorem infixOp_renumber (k : Kind) : InfixOp.ofKind? (k.renumber ρ) = InfixOp.ofKind? k := by
  cases k <;> rfl

@[simp]
theorem postfixOp_renumber (k : Kind) :
    PostfixOp.ofKind? (k.renumber ρ) = PostfixOp.ofKind? k := by
  cases k <;> rfl

@[simp]
theorem assignOp_renumber (k : Kind) : AssignOp.ofKind? (k.renumber ρ) = AssignOp.ofKind? k := by
  cases k <;> rfl

@[simp]
theorem power_renumber (k : Kind) : (k.renumber ρ).power = k.power := by
  simp [power]

end Kind

@[simp]
theorem Token.described_renumber (t : Token) : (t.renumber ρ).described = t.described := by
  simp [Token.described]

end Tokens

/-- The class of a token has the same name by either number. -/
def Token.Named (m n : Names) (t : Token) : Prop :=
  ∀ id, t.kind = .classId id → n.classes.name? (m.classNumbers n id) = m.classes.name? id

namespace Grammar

/-! ### States -/

section States

variable (ρ : Renumbering)

def Stream.renumber (s : Stream) : Stream :=
  { s with tokens := s.tokens.map (Token.renumber ρ) }

def State.renumber (s : State) : State :=
  { s with stream := s.stream.renumber ρ }

namespace Stream

@[simp]
theorem current_renumber (s : Stream) : (s.renumber ρ).current = s.current.renumber ρ := by
  rw [current, current, renumber]
  cases s.tokens <;> rfl

@[simp]
theorem peek_renumber (s : Stream) : (s.renumber ρ).peek = s.peek.renumber ρ := by
  rw [peek, peek, renumber]
  rcases s.tokens with _ | ⟨_, _ | _⟩ <;> rfl

@[simp]
theorem advance_renumber (s : Stream) : (s.renumber ρ).advance = s.advance.renumber ρ := by
  obtain ⟨_ | _, stop, previous⟩ := s <;> rfl

theorem skipStatementFrom_renumber (stop : Span) (ts : List Token) (depth : Nat) (p : Span) :
    skipStatementFrom stop depth p (ts.map (Token.renumber ρ)) =
      (skipStatementFrom stop depth p ts).renumber ρ := by
  induction ts generalizing depth p with
  | nil => rfl
  | cons t ts ih =>
    obtain ⟨kind, lexeme, span⟩ := t
    cases kind with
    | symbol x =>
      simp only [List.map_cons, skipStatementFrom, Token.renumber, Kind.renumber, ih]
      split <;> first | rfl | (split <;> rfl)
    | endOfFile => rfl
    | _ => exact ih depth span

theorem skipItemFrom_renumber (stop : Span) (ts : List Token) (depth : Nat) (p : Span) :
    skipItemFrom stop depth p (ts.map (Token.renumber ρ)) =
      (skipItemFrom stop depth p ts).renumber ρ := by
  induction ts generalizing depth p with
  | nil => rfl
  | cons t ts ih =>
    obtain ⟨kind, lexeme, span⟩ := t
    cases kind with
    | symbol x =>
      simp only [List.map_cons, skipItemFrom, Token.renumber, Kind.renumber, ih]
      split
      · rfl
      · split <;> rfl
    | keyword k =>
      simp only [List.map_cons, skipItemFrom, Token.renumber, Kind.renumber, ih]
      split <;> rfl
    | endOfFile => rfl
    | _ => exact ih depth span

end Stream

@[simp]
theorem State.stream_renumber (s : State) : (s.renumber ρ).stream = s.stream.renumber ρ := rfl

theorem State.next_renumber (s : State) : (s.renumber ρ).next = s.next.renumber ρ := by
  rw [next, stream_renumber, Stream.advance_renumber]
  rfl

theorem skipStatement_renumber (s t : State) :
    skipStatement (s.renumber ρ) (t.renumber ρ) = (skipStatement s t).renumber ρ := by
  rw [skipStatement, Stream.skipStatement]
  exact congrArg (fun stream => { t with stream }) (Stream.skipStatementFrom_renumber ρ _ _ 0 _)

theorem skipItem_renumber (s t : State) :
    skipItem (s.renumber ρ) (t.renumber ρ) = (skipItem s t).renumber ρ := by
  have hskip : (t.stream.renumber ρ).skipItem = t.stream.skipItem.renumber ρ :=
    Stream.skipItemFrom_renumber ρ _ _ 0 _
  simp only [skipItem, State.stream_renumber, hskip, Stream.advance_renumber]
  have hlength (u : Stream) : (u.renumber ρ).tokens.length = u.tokens.length :=
    List.length_map _
  rw [hlength, hlength]
  split <;> rfl

end States

/-! ### Parsers -/

def State.Named (m n : Names) (s : State) : Prop :=
  ∀ t ∈ s.stream.tokens, t.Named m n

/-- Where the classes of tokens have the same names by either number, `q` does on the new numbers
what `p` does on the old ones, and reads `h` of what `p` reads. -/
def Mirrors (m n : Names) {α β : Type} (h : α → β) (p : Parse α) (q : Parse β) : Prop :=
  ∀ s : State, s.Named m n →
    match p s with
    | .ok a t => q (s.renumber (.between m n)) = .ok (h a) (t.renumber (.between m n)) ∧ t.Named m n
    | .error d t =>
      q (s.renumber (.between m n)) = .error d (t.renumber (.between m n)) ∧ t.Named m n

/-- What a parser reads has no number of a class in it. -/
abbrev Steady (m n : Names) {α : Type} (p : Parse α) : Prop :=
  Mirrors m n id p p

section Rules

variable {m n : Names} {α β α' β' : Type} {h : α → β} {h' : α' → β'} {p : Parse α} {q : Parse β}

theorem mirrors_pure {a : α} {b : β} (hab : h a = b) : Mirrors m n h (pure a) (pure b) :=
  fun _ hs => ⟨congrArg (EStateM.Result.ok · _) hab.symm, hs⟩

theorem steady_pure (a : α) : Steady m n (pure a) :=
  mirrors_pure rfl

theorem mirrors_throw (d : Diagnostic) : Mirrors m n h (throw d) (throw d) :=
  fun _ hs => ⟨rfl, hs⟩

theorem Mirrors.bind {f : α → Parse α'} {g : β → Parse β'} (hp : Mirrors m n h p q)
    (hf : ∀ a, Mirrors m n h' (f a) (g (h a))) : Mirrors m n h' (p >>= f) (q >>= g) := by
  intro s hs
  have hp := hp s hs
  change match EStateM.bind p f s with
    | .ok a t => EStateM.bind q g _ = .ok (h' a) (t.renumber _) ∧ t.Named m n
    | .error d t => EStateM.bind q g _ = .error d (t.renumber _) ∧ t.Named m n
  rw [EStateM.bind, EStateM.bind]
  cases hps : p s with
  | ok a t =>
    rw [hps] at hp
    simp only [hp.1]
    exact hf a t hp.2
  | error d t =>
    rw [hps] at hp
    simp only [hp.1]
    exact ⟨trivial, hp.2⟩

theorem Steady.bind {f : α → Parse α'} {g : α → Parse β'} (hp : Steady m n p)
    (hf : ∀ a, Mirrors m n h' (f a) (g a)) : Mirrors m n h' (p >>= f) (p >>= g) :=
  Mirrors.bind hp hf

theorem Mirrors.map {f : α → α'} {g : β → β'} (hp : Mirrors m n h p q)
    (hfg : ∀ a, h' (f a) = g (h a)) : Mirrors m n h' (f <$> p) (g <$> q) :=
  hp.bind fun a => mirrors_pure (hfg a)

theorem Steady.map (f : α → α') (hp : Steady m n p) : Steady m n (f <$> p) :=
  Mirrors.map hp fun _ => rfl

theorem mirrors_current_bind {f : Token → Parse α} {g : Token → Parse β}
    (hf : ∀ t, t.Named m n → Mirrors m n h (f t) (g (t.renumber (.between m n)))) :
    Mirrors m n h (current >>= f) (current >>= g) := by
  intro s hs
  have hcurrent : s.stream.current.Named m n := by
    rw [Stream.current]
    cases htokens : s.stream.tokens with
    | nil => rintro id ⟨⟩
    | cons t ts => exact hs t (htokens ▸ List.mem_cons_self)
  have hg := hf s.stream.current hcurrent s hs
  rw [← Stream.current_renumber] at hg
  exact hg

theorem mirrors_current : Mirrors m n (Token.renumber (.between m n)) current current :=
  mirrors_current_bind fun _ _ => mirrors_pure rfl

theorem mirrors_currentKind :
    Mirrors m n (Kind.renumber (.between m n)) currentKind currentKind :=
  mirrors_current.map fun _ => rfl

/-- Of the kinds only those of names are others. -/
theorem mirrors_currentKind_bind {f : Kind → Parse α} {g : Kind → Parse β}
    (hf : ∀ k, k.isName = false → Mirrors m n h (f k) (g k))
    (hidentifier : ∀ i j, Mirrors m n h (f (.identifier i)) (g (.identifier j)))
    (hclass : ∀ i j, Mirrors m n h (f (.classId i)) (g (.classId j))) :
    Mirrors m n h (currentKind >>= f) (currentKind >>= g) := by
  refine mirrors_currentKind.bind fun k => ?_
  cases k with
  | identifier id => exact hidentifier _ _
  | classId id => exact hclass _ _
  | _ => exact hf _ rfl

/-- A test for a kind that is no name. -/
theorem mirrors_ifKind {k : Kind} (hk : k.isName = false) {p' : Parse α} {q' : Parse β}
    (hp : Mirrors m n h p q) (hp' : Mirrors m n h p' q') :
    Mirrors m n h (currentKind >>= fun j => if j = k then p else p')
      (currentKind >>= fun j => if j = k then q else q') := by
  refine mirrors_currentKind.bind fun j => ?_
  simp only [Kind.renumber_eq_iff _ hk]
  split
  next => exact hp
  next => exact hp'

theorem mirrors_nextKind : Mirrors m n (Kind.renumber (.between m n)) nextKind nextKind := by
  intro s hs
  refine ⟨?_, hs⟩
  change EStateM.Result.ok (s.renumber _).stream.peek.kind _ = _
  rw [State.stream_renumber, Stream.peek_renumber]
  rfl

theorem steady_spanBefore : Steady m n spanBefore :=
  fun _ hs => ⟨rfl, hs⟩

theorem steady_bound : Steady m n bound :=
  fun _ hs => ⟨congrArg (fun l => EStateM.Result.ok (l + 1) _) (List.length_map _), hs⟩

theorem steady_isLooping : Steady m n isLooping :=
  fun _ hs => ⟨rfl, hs⟩

theorem mirrors_advance : Mirrors m n (Token.renumber (.between m n)) advance advance := by
  intro s hs
  refine ⟨?_, fun t ht => hs t (List.mem_of_mem_tail ?_)⟩
  · change EStateM.Result.ok (s.renumber _).stream.current (s.renumber _).next = _
    rw [State.next_renumber, State.stream_renumber, Stream.current_renumber]
    rfl
  · have hnext : s.next.stream.tokens = s.stream.tokens.tail := State.tokens_next s
    rw [← hnext]
    exact ht

theorem steady_record (d : Diagnostic) : Steady m n (record d) :=
  fun _ hs => ⟨rfl, hs⟩

/-! ### Mistakes -/

theorem mirrors_failHere (cause : Cause) : Mirrors m n h (failHere cause) (failHere cause) :=
  mirrors_current_bind fun _ _ => mirrors_throw _

theorem mirrors_failExpected (what : String) :
    Mirrors m n h (failExpected what) (failExpected what) :=
  mirrors_current_bind fun t _ => by
    rw [Token.described_renumber]
    exact mirrors_failHere _

theorem mirrors_failUnexpected (reason : String) :
    Mirrors m n h (failUnexpected reason) (failUnexpected reason) :=
  mirrors_current_bind fun t _ => by
    rw [Token.described_renumber]
    exact mirrors_failHere _

/-! ### Given tokens -/

theorem mirrors_expect {k : Kind} (hk : k.isName = false) :
    Mirrors m n (Token.renumber (.between m n)) (expect k) (expect k) :=
  mirrors_ifKind hk mirrors_advance (mirrors_failExpected _)

theorem steady_expectSymbol (s : Symbol) : Steady m n (expectSymbol s) :=
  (mirrors_expect rfl).map fun _ => rfl

theorem steady_expectName : Steady m n expectName := by
  refine mirrors_currentKind.bind fun k => ?_
  rw [Kind.isIdentifier_renumber]
  split
  next => exact mirrors_advance.bind fun _ => mirrors_pure rfl
  next => exact mirrors_failExpected _

theorem steady_declarationAhead : Steady m n declarationAhead := by
  refine mirrors_currentKind.bind fun j => mirrors_nextKind.bind fun k => mirrors_pure ?_
  rw [Kind.isIdentifier_renumber, Kind.beq_symbol_renumber]
  rfl

/-! ### Repetition -/

theorem Mirrors.insideLoop (hp : Mirrors m n h p q) :
    Mirrors m n h (insideLoop p) (insideLoop q) := by
  intro s hs
  have hp := hp { s with loops := s.loops + 1 } hs
  have inside : { s.renumber (.between m n) with loops := (s.renumber (.between m n)).loops + 1 } =
      State.renumber (.between m n) { s with loops := s.loops + 1 } := rfl
  unfold Grammar.insideLoop
  rw [inside]
  cases hps : p { s with loops := s.loops + 1 } with
  | ok a t =>
    rw [hps] at hp
    simp only [hp.1]
    exact ⟨rfl, hp.2⟩
  | error d t =>
    rw [hps] at hp
    simp only [hp.1]
    exact ⟨rfl, hp.2⟩

theorem Mirrors.recovering {skip : State → State → State}
    (hskip : ∀ s t : State, skip (s.renumber (.between m n)) (t.renumber (.between m n)) =
      (skip s t).renumber (.between m n))
    (hsuffix : ∀ s t : State, (skip s t).stream.tokens <:+ t.stream.tokens)
    (hp : Mirrors m n h p q) :
    Mirrors m n (Option.map h) (recovering p skip) (recovering q skip) := by
  intro s hs
  have hp := hp s hs
  unfold Grammar.recovering
  cases hps : p s with
  | ok a t =>
    rw [hps] at hp
    simp only [hp.1]
    exact ⟨rfl, hp.2⟩
  | error d t =>
    rw [hps] at hp
    simp only [hp.1]
    have hrecorded := hskip s { t with recorded := t.recorded ++ [d] }
    exact ⟨congrArg (EStateM.Result.ok none) hrecorded,
      fun u hu => hp.2 u ((hsuffix s { t with recorded := t.recorded ++ [d] }).subset hu)⟩

theorem Mirrors.many {more : Kind → Bool} (hmore : ∀ k, more (k.renumber (.between m n)) = more k)
    (hp : Mirrors m n h p q) : Mirrors m n (List.map h) (many more p) (many more q) := by
  have upTo (l : Nat) : Mirrors m n (List.map h) (upTo more p l) (upTo more q l) := by
    induction l with
    | zero => exact mirrors_pure rfl
    | succ l ih =>
      refine mirrors_currentKind.bind fun k => ?_
      rw [hmore]
      split
      next => exact hp.bind fun x => ih.bind fun xs => mirrors_pure rfl
      next => exact mirrors_pure rfl
  exact steady_bound.bind upTo

theorem Mirrors.listTo (close : Symbol) (hp : Mirrors m n h p q) :
    Mirrors m n (Prod.map (List.map h) id) (listTo close p) (listTo close q) := by
  have listUpTo (l : Nat) :
      Mirrors m n (List.map h) (listUpTo close p l) (listUpTo close q l) := by
    induction l with
    | zero => exact mirrors_pure rfl
    | succ l ih =>
      refine mirrors_ifKind rfl (mirrors_pure rfl) (hp.bind fun x => mirrors_ifKind rfl ?_ ?_)
      · exact mirrors_advance.bind fun _ => ih.bind fun xs => mirrors_pure rfl
      · exact mirrors_pure rfl
  exact steady_bound.bind fun l => (listUpTo l).bind fun xs =>
    (steady_expectSymbol close).bind fun stop => mirrors_pure rfl

theorem Steady.many {more : Kind → Bool}
    (hmore : ∀ k, more (k.renumber (.between m n)) = more k) (hp : Steady m n p) :
    Steady m n (many more p) := by
  have h := Mirrors.many hmore hp
  rwa [List.map_id_fun] at h

theorem Steady.listTo (close : Symbol) (hp : Steady m n p) : Steady m n (listTo close p) := by
  have h := Mirrors.listTo close hp
  rwa [List.map_id_fun, Prod.map_id] at h

end Rules

end Grammar

end Uwu
