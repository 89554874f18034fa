import Mathlib.Logic.Function.Iterate
import Uwu.Proofs.Grammar.Recovery
import Uwu.Proofs.Grammar.Walk
import Uwu.Proofs.Places.Spans

/-! Parsers on a stretch of tokens. What a parser makes lies on the tokens that it reads: each of
its spans reaches from the start of one of them to the end of the same or a later one. What it
records or fails with points to tokens too. -/

namespace Uwu.Grammar

/-! ### Stretches -/

/-- The token that is current after so many; behind the last one it is the end, again and again. -/
def Stream.token (o : Stream) (n : Nat) : Token :=
  (Stream.advance^[n] o).current

/-- The span reaches from the start of a token to the end of the same or a later one. Both are among
the tokens from number `k` on and before number `l`. -/
def Stretch (o : Stream) (k l : Nat) (x : Span) : Prop :=
  ∃ i j, k ≤ i ∧ i ≤ j ∧ j < l ∧ x = (o.token i).span.through (o.token j).span

def Stretches (o : Stream) (k l : Nat) (xs : List Span) : Prop :=
  ∀ x ∈ xs, Stretch o k l x

/-- The spans of a diagnostic lie on tokens. -/
def Along (o : Stream) (d : Diagnostic) : Prop :=
  ∀ x ∈ d.spans, ∃ l, Stretch o 0 l x

section Stretches

variable {o : Stream} {k l m : Nat} {x y : Span} {xs ys : List Span}

theorem stretch_token (o : Stream) (k : Nat) : Stretch o k (k + 1) (o.token k).span :=
  ⟨k, k, Nat.le_refl k, Nat.le_refl k, k.lt_succ_self, rfl⟩

theorem Stretch.down (h : Stretch o l m x) (hk : k ≤ l) : Stretch o k m x := by
  obtain ⟨i, j, hi, hij, hj, hx⟩ := h
  exact ⟨i, j, Nat.le_trans hk hi, hij, hj, hx⟩

theorem Stretch.up (h : Stretch o k l x) (hm : l ≤ m) : Stretch o k m x := by
  obtain ⟨i, j, hi, hij, hj, hx⟩ := h
  exact ⟨i, j, hi, hij, Nat.lt_of_lt_of_le hj hm, hx⟩

theorem Stretch.mono {n : Nat} (h : Stretch o l m x) (hk : k ≤ l) (hn : m ≤ n) : Stretch o k n x :=
  (h.down hk).up hn

/-- From the start of what was read first to the end of what was read behind it. -/
theorem Stretch.through (hx : Stretch o k l x) (hy : Stretch o l m y) :
    Stretch o k m (x.through y) := by
  obtain ⟨i, j, hi, hij, hj, rfl⟩ := hx
  obtain ⟨i', j', hi', hij', hj', rfl⟩ := hy
  exact ⟨i, j', hi, by omega, hj', rfl⟩

theorem Stretch.through_token (h : Stretch o k l x) :
    Stretch o k l ((o.token k).span.through x) := by
  obtain ⟨i, j, hi, hij, hj, rfl⟩ := h
  exact ⟨k, j, Nat.le_refl k, Nat.le_trans hi hij, hj, rfl⟩

theorem Stretch.along {cause : Cause} (h : Stretch o k l x) (hc : cause.sites = []) :
    Along o ⟨cause, x⟩ := by
  rw [Along, Diagnostic.spans, hc, List.forall_mem_singleton]
  exact ⟨l, h.down k.zero_le⟩

@[simp]
theorem stretches_nil : Stretches o k l [] :=
  List.forall_mem_nil _

@[simp]
theorem stretches_cons : Stretches o k l (x :: xs) ↔ Stretch o k l x ∧ Stretches o k l xs :=
  List.forall_mem_cons

@[simp]
theorem stretches_append :
    Stretches o k l (xs ++ ys) ↔ Stretches o k l xs ∧ Stretches o k l ys :=
  List.forall_mem_append

theorem stretches_flatMap {α : Type} {as : List α} {spans : α → List Span} :
    Stretches o k l (as.flatMap spans) ↔ ∀ a ∈ as, Stretches o k l (spans a) :=
  List.forall_mem_flatMap

theorem Stretches.down (h : Stretches o l m xs) (hk : k ≤ l) : Stretches o k m xs :=
  fun x hx => (h x hx).down hk

theorem Stretches.up (h : Stretches o k l xs) (hm : l ≤ m) : Stretches o k m xs :=
  fun x hx => (h x hx).up hm

theorem Stretches.mono {n : Nat} (h : Stretches o l m xs) (hk : k ≤ l) (hn : m ≤ n) :
    Stretches o k n xs :=
  (h.down hk).up hn

end Stretches

/-! ### States on the way -/

/-- The state is reached after so many tokens, and what is recorded until then points to tokens. -/
structure State.Past (s : State) (o : Stream) (k : Nat) : Prop where
  stream : s.stream = Stream.advance^[k] o
  recorded : ∀ d ∈ s.recorded, Along o d

section Past

variable {o : Stream} {k : Nat} {s : State}

theorem State.Past.current (h : s.Past o k) : s.stream.current = o.token k :=
  congrArg Stream.current h.stream

theorem State.Past.next (h : s.Past o k) : s.next.Past o (k + 1) := by
  refine ⟨?_, h.recorded⟩
  rw [Function.iterate_succ_apply', ← h.stream]
  rfl

theorem State.Past.record {d : Diagnostic} (h : s.Past o k) (hd : Along o d) :
    State.Past { s with recorded := s.recorded ++ [d] } o k :=
  ⟨h.stream, List.forall_mem_append.2 ⟨h.recorded, List.forall_mem_singleton.2 hd⟩⟩

/-- On the way from one token to a later one something is read, if the first is not the end. -/
theorem Stream.previous_advance {l : Nat} (hk : (o.token k).kind ≠ .endOfFile) (hl : k < l) :
    Stretch o k l (Stream.advance^[l] o).previous := by
  induction l with
  | zero => omega
  | succ l ih =>
    rw [Function.iterate_succ_apply']
    cases ht : (Stream.advance^[l] o).tokens with
    | cons t ts =>
      have htoken : o.token l = t := by rw [token, current, ht]; rfl
      rw [advance, ht, ← htoken]
      exact (stretch_token o l).down (by omega)
    | nil =>
      rw [advance, ht]
      by_cases hkl : k < l
      · exact (ih hkl).up l.le_succ
      · have hkl : k = l := by omega
        refine absurd ?_ hk
        rw [hkl, token, current, ht]
        rfl

end Past

/-! ### The judgement -/

variable {α β : Type} {o : Stream} {k : Nat} {p : Parse α} {P Q : α → Nat → Prop}
  {R : β → Nat → Prop}

/-- After `k` tokens `p` reads on. Where it succeeds, `Q` holds of what it makes and of how many
tokens are read then. -/
def Goes (o : Stream) (k : Nat) (p : Parse α) (Q : α → Nat → Prop) : Prop :=
  ∀ s : State, s.Past o k →
    match p s with
    | .ok a t => ∃ l, k ≤ l ∧ t.Past o l ∧ Q a l
    | .error d t => Along o d ∧ ∃ l, k ≤ l ∧ t.Past o l

/-- Wherever `p` begins, what it makes lies on the tokens that it reads. -/
def Locates (o : Stream) (spans : α → List Span) (p : Parse α) : Prop :=
  ∀ k, Goes o k p fun a l => Stretches o k l (spans a)

/-! ### The rules -/

theorem Goes.pure {a : α} (h : Q a k) : Goes o k (pure a) Q :=
  fun _ hs => ⟨k, Nat.le_refl k, hs, h⟩

theorem Goes.throw {d : Diagnostic} (h : Along o d) : Goes o k (throw d) Q :=
  fun _ hs => ⟨h, k, Nat.le_refl k, hs⟩

theorem Goes.failHere {cause : Cause} (h : cause.sites = []) : Goes o k (failHere cause) Q := by
  intro s hs
  refine ⟨?_, k, Nat.le_refl k, hs⟩
  rw [hs.current]
  exact (stretch_token o k).along h

theorem Goes.failExpected {what : String} : Goes o k (failExpected what) Q :=
  fun s => failHere (Q := Q) (rfl : (Cause.expected what s.stream.current.described).sites = []) s

theorem Goes.failUnexpected {reason : String} : Goes o k (failUnexpected reason) Q :=
  fun s => failHere (Q := Q)
    (rfl : (Cause.unexpectedFor s.stream.current.described reason).sites = []) s

/-- One parser after another. -/
theorem Goes.bind {f : α → Parse β} (hp : Goes o k p P)
    (hf : ∀ a l, k ≤ l → P a l → Goes o l (f a) R) : Goes o k (p >>= f) R := by
  intro s hs
  have hrun := hp s hs
  cases hps : p s with
  | ok a t =>
    rw [hps] at hrun
    obtain ⟨l, hkl, ht, ha⟩ := hrun
    have hgo := hf a l hkl ha t ht
    rw [run_bind hps]
    cases hft : f a t with
    | ok b u =>
      rw [hft] at hgo
      obtain ⟨m, hlm, hu, hb⟩ := hgo
      exact ⟨m, Nat.le_trans hkl hlm, hu, hb⟩
    | error d u =>
      rw [hft] at hgo
      obtain ⟨hd, m, hlm, hu⟩ := hgo
      exact ⟨hd, m, Nat.le_trans hkl hlm, hu⟩
  | error d t =>
    rw [hps] at hrun
    rw [run_bind_error hps]
    exact hrun

theorem Goes.map {f : α → β} (hp : Goes o k p fun a l => R (f a) l) : Goes o k (f <$> p) R := by
  rw [← bind_pure_comp]
  exact hp.bind fun a l _ ha => .pure ha

/-- A parser whose value is made into another. -/
theorem Goes.result {f : α → β} (hp : Goes o k p P) (h : ∀ a l, k ≤ l → P a l → R (f a) l) :
    Goes o k (p >>= fun a => Pure.pure (f a)) R :=
  hp.bind fun a l hl ha => .pure (h a l hl ha)

theorem Goes.mono (hp : Goes o k p P) (h : ∀ a l, k ≤ l → P a l → Q a l) : Goes o k p Q := by
  rw [← bind_pure p]
  exact hp.bind fun a l hl ha => .pure (h a l hl ha)

theorem Locates.some {spans : α → List Span} (h : Locates o spans p) :
    Locates o (fun a => (a.map spans).getD []) (Option.some <$> p) :=
  fun k => .map (h k)

/-! ### Looking and reading -/

theorem Goes.current {f : Token → Parse β} (h : Goes o k (f (o.token k)) R) :
    Goes o k (current >>= f) R := by
  intro s hs
  rw [run_current, hs.current]
  exact h s hs

theorem Goes.currentKind {f : Kind → Parse β} (h : Goes o k (f (o.token k).kind) R) :
    Goes o k (currentKind >>= f) R := by
  intro s hs
  rw [run_currentKind, State.kind, hs.current]
  exact h s hs

theorem Goes.nextKind {f : Kind → Parse β} (h : ∀ kind, Goes o k (f kind) R) :
    Goes o k (nextKind >>= f) R :=
  fun s hs => h s.stream.peek.kind s hs

theorem Goes.declarationAhead {f : Bool → Parse β} (h : ∀ b, Goes o k (f b) R) :
    Goes o k (declarationAhead >>= f) R :=
  fun s hs => h (isIdentifier s.kind && s.stream.peek.kind == .symbol .dash) s hs

theorem Goes.isLooping {f : Bool → Parse β} (h : ∀ b, Goes o k (f b) R) :
    Goes o k (isLooping >>= f) R :=
  fun s hs => h (0 < s.loops) s hs

theorem Goes.bound {f : Nat → Parse β} (h : ∀ n, Goes o k (f n) R) : Goes o k (bound >>= f) R :=
  fun s hs => h (s.stream.tokens.length + 1) s hs

theorem Goes.spanBefore {f : Span → Parse β} (h : Goes o k (f (Stream.advance^[k] o).previous) R) :
    Goes o k (spanBefore >>= f) R := by
  intro s hs
  rw [← hs.stream] at h
  exact h s hs

theorem Goes.advance {f : Token → Parse β} (h : Goes o (k + 1) (f (o.token k)) R) :
    Goes o k (advance >>= f) R := by
  rw [Goes] at h ⊢
  intro s hs
  have hrun := h s.next hs.next
  rw [run_advance, hs.current]
  cases hf : f (o.token k) s.next with
  | ok b t =>
    rw [hf] at hrun
    obtain ⟨l, hl, hrest⟩ := hrun
    exact ⟨l, by omega, hrest⟩
  | error d t =>
    rw [hf] at hrun
    obtain ⟨hd, l, hl, ht⟩ := hrun
    exact ⟨hd, l, by omega, ht⟩

/-- The token that is read comes along. -/
theorem goes_advance : Goes o k advance fun t l => Stretch o k l t.span := by
  rw [← bind_pure Grammar.advance]
  exact .advance (.pure (stretch_token o k))

theorem Goes.record {d : Diagnostic} {f : Unit → Parse β} (hd : Along o d)
    (h : Goes o k (f ()) R) : Goes o k (record d >>= f) R :=
  fun _ hs => h _ (hs.record hd)

theorem goes_expect {kind : Kind} : Goes o k (expect kind) fun t l => Stretch o k l t.span := by
  refine .currentKind ?_
  split
  next => exact goes_advance
  next => exact .failExpected

theorem goes_expectSymbol {x : Symbol} : Goes o k (expectSymbol x) fun y l => Stretch o k l y :=
  goes_expect.result fun _ _ _ h => h

theorem goes_expectKeyword {x : Keyword} :
    Goes o k (expectKeyword x) fun y l => Stretch o k l y :=
  goes_expect.result fun _ _ _ h => h

/-- A name is the current token, and not the end. -/
theorem goes_name : Goes o k expectName fun n l =>
    n.span = (o.token k).span ∧ k < l ∧ (o.token k).kind ≠ .endOfFile := by
  refine .currentKind ?_
  split
  next hk =>
    refine .advance (.pure ⟨rfl, k.lt_succ_self, fun he => ?_⟩)
    rw [he] at hk
    cases hk
  next => exact .failExpected

theorem goes_expectName : Goes o k expectName fun n l => Stretch o k l n.span := by
  refine goes_name.mono fun n l _ ⟨hn, hl, _⟩ => ?_
  rw [hn]
  exact (stretch_token o k).up hl

theorem Goes.insideLoop (hp : Goes o k p Q) : Goes o k (insideLoop p) Q := by
  intro s hs
  have hrun := hp { s with loops := s.loops + 1 } ⟨hs.stream, hs.recorded⟩
  unfold Grammar.insideLoop
  cases hps : p { s with loops := s.loops + 1 } with
  | ok a t =>
    rw [hps] at hrun
    obtain ⟨l, hl, ht, ha⟩ := hrun
    exact ⟨l, hl, ⟨ht.stream, ht.recorded⟩, ha⟩
  | error d t =>
    rw [hps] at hrun
    obtain ⟨hd, l, hl, ht⟩ := hrun
    exact ⟨hd, l, hl, ⟨ht.stream, ht.recorded⟩⟩

/-! ### Repetition -/

section Repetition

variable {spans : α → List Span} {item : Parse α}

theorem locates_upTo {more : Kind → Bool} (h : Locates o spans item) (n : Nat) :
    Locates o (fun xs => xs.flatMap spans) (upTo more item n) := by
  induction n with
  | zero => exact fun k => .pure stretches_nil
  | succ n ih =>
    intro k
    refine .currentKind ?_
    split
    next =>
      refine (h k).bind fun a l hl ha => (ih l).result fun xs m hm hxs => ?_
      exact stretches_append.2 ⟨ha.up hm, hxs.down hl⟩
    next => exact .pure stretches_nil

theorem locates_many {more : Kind → Bool} (h : Locates o spans item) :
    Locates o (fun xs => xs.flatMap spans) (many more item) :=
  fun k => .bound fun n => locates_upTo h n k

theorem locates_listUpTo {close : Symbol} (h : Locates o spans item) (n : Nat) :
    Locates o (fun xs => xs.flatMap spans) (listUpTo close item n) := by
  induction n with
  | zero => exact fun k => .pure stretches_nil
  | succ n ih =>
    intro k
    refine .currentKind ?_
    split
    next => exact .pure stretches_nil
    next =>
      refine (h k).bind fun a l hl ha => .currentKind ?_
      split
      next =>
        refine .advance ((ih (l + 1)).result fun xs m hm hxs => ?_)
        exact stretches_append.2 ⟨ha.up (by omega), hxs.down (by omega)⟩
      next => exact .pure (stretches_append.2 ⟨ha, stretches_nil⟩)

theorem locates_listTo {close : Symbol} (h : Locates o spans item) :
    Locates o (fun r => r.2 :: r.1.flatMap spans) (listTo close item) := by
  refine fun k => .bound fun n => (locates_listUpTo h n k).bind fun xs l hl hxs => ?_
  refine goes_expectSymbol.result fun stop m hm hstop => ?_
  exact stretches_cons.2 ⟨hstop.down hl, hxs.up hm⟩

/-- A skip moves on by whole tokens and records nothing. -/
def Skips (skip : State → State → State) : Prop :=
  ∀ s t : State, ∃ n, (skip s t).stream = Stream.advance^[n] t.stream ∧
    (skip s t).recorded = t.recorded

theorem locates_recovering {skip : State → State → State} (h : Locates o spans item)
    (hskip : Skips skip) :
    Locates o (fun a => (a.map spans).getD []) (recovering item skip) := by
  intro k s hs
  have hrun := h k s hs
  unfold recovering
  cases hi : item s with
  | ok a t =>
    rw [hi] at hrun
    exact hrun
  | error d t =>
    rw [hi] at hrun
    obtain ⟨hd, l, hl, ht⟩ := hrun
    have hrecord := ht.record hd
    obtain ⟨n, hstream, hrecorded⟩ := hskip s { t with recorded := t.recorded ++ [d] }
    refine ⟨n + l, by omega, ⟨?_, ?_⟩, stretches_nil⟩
    · rw [hstream, hrecord.stream, Function.iterate_add_apply]
    · rw [hrecorded]
      exact hrecord.recorded

end Repetition

/-! ### Skips -/

theorem exists_skipStatementFrom (stop : Span) (depth : Nat) (previous : Span) (ts : List Token) :
    ∃ n, Stream.skipStatementFrom stop depth previous ts =
      Stream.advance^[n] ⟨ts, stop, previous⟩ := by
  fun_induction Stream.skipStatementFrom stop depth previous ts
  all_goals first
    | exact ⟨0, rfl⟩
    | exact ⟨1, rfl⟩
    | next ih =>
      obtain ⟨n, hn⟩ := ih
      exact ⟨n + 1, hn⟩

theorem exists_skipItemFrom (stop : Span) (depth : Nat) (previous : Span) (ts : List Token) :
    ∃ n, Stream.skipItemFrom stop depth previous ts =
      Stream.advance^[n] ⟨ts, stop, previous⟩ := by
  fun_induction Stream.skipItemFrom stop depth previous ts
  all_goals first
    | exact ⟨0, rfl⟩
    | next ih =>
      obtain ⟨n, hn⟩ := ih
      exact ⟨n + 1, hn⟩

theorem skips_skipStatement : Skips skipStatement := by
  intro s t
  obtain ⟨n, hn⟩ := exists_skipStatementFrom t.stream.stop 0 t.stream.previous t.stream.tokens
  exact ⟨n, hn, rfl⟩

theorem skips_skipItem : Skips skipItem := by
  intro s t
  obtain ⟨n, hn⟩ := exists_skipItemFrom t.stream.stop 0 t.stream.previous t.stream.tokens
  rw [skipItem]
  split
  · refine ⟨n + 1, ?_, rfl⟩
    rw [Function.iterate_succ_apply', ← hn]
    rfl
  · exact ⟨n, hn, rfl⟩

end Uwu.Grammar
