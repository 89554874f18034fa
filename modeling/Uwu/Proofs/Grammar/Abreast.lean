import Uwu.Proofs.Grammar.Recovery
import Uwu.Proofs.Grammar.Walk

/-! A parser on a text alone, and on the same text with more items behind it. The two runs go side
by side up to the border, where one sees the end and the other the start of an item: they read the
same there too, for neither continues anything. The rules read this from the steps of a parser. -/

namespace Uwu.Grammar

open Grammar.Stream (beginsItem)

/-! ### Nesting -/

/-- How many blocks deep a text ends that begins `depth` blocks deep; none if it closes a block that
is not open. -/
def depthAfter? : (depth : Nat) → List Token → Option Nat
  | depth, [] => some depth
  | depth, t :: ts =>
    match t.kind with
    | .symbol .doubleOpenBracket => depthAfter? (depth + 1) ts
    | .symbol .doubleCloseBracket => if depth = 0 then none else depthAfter? (depth - 1) ts
    | _ => depthAfter? depth ts

section Nesting

variable {t : Token} {ts : List Token} {depth : Nat}

theorem depthAfter?_plain (h : isPlain t.kind) :
    depthAfter? depth (t :: ts) = depthAfter? depth ts := by
  obtain ⟨-, ho, hc⟩ := isPlain_iff.mp h
  rw [depthAfter?]
  split
  next hk => exact absurd hk ho
  next hk => exact absurd hk hc
  next => rfl

theorem depthAfter?_open (h : t.kind = .symbol .doubleOpenBracket) :
    depthAfter? depth (t :: ts) = depthAfter? (depth + 1) ts := by
  rw [depthAfter?, h]

theorem depthAfter?_close (h : t.kind = .symbol .doubleCloseBracket) :
    depthAfter? (depth + 1) (t :: ts) = depthAfter? depth ts := by
  simp [depthAfter?, h]

theorem depthAfter?_append (depth : Nat) (ts us : List Token) :
    depthAfter? depth (ts ++ us) = (depthAfter? depth ts).bind (depthAfter? · us) := by
  induction ts generalizing depth with
  | nil => rfl
  | cons t ts ih =>
    rw [List.cons_append, depthAfter?, depthAfter?]
    split
    next => exact ih _
    next =>
      split
      next => rfl
      next => exact ih _
    next => exact ih _

/-- Blocks around a text change nothing in it. -/
theorem depthAfter?_add {after : Nat} (outer : Nat) (h : depthAfter? depth ts = some after) :
    depthAfter? (depth + outer) ts = some (after + outer) := by
  induction ts generalizing depth with
  | nil => simpa [depthAfter?] using h
  | cons t ts ih =>
    rw [depthAfter?] at h ⊢
    split at h
    next => simpa [Nat.add_right_comm] using ih h
    next =>
      cases depth with
      | zero => cases h
      | succ depth =>
        have hinner : depthAfter? depth ts = some after := by simpa using h
        simpa [Nat.succ_add] using ih hinner
    next => exact ih h

/-- A text that is nested in itself goes from depth to depth. -/
theorem depthAfter?_of_nested {after : Nat} (h : depthAfter? 0 ts = some 0)
    (ha : depthAfter? depth ts = some after) : after = depth := by
  have hsame := depthAfter?_add depth h
  rw [Nat.zero_add, ha] at hsame
  simpa using hsame

end Nesting

/-! ### The border -/

/-- A function of kinds that does not tell the start of an item from the end. -/
def Blind {β : Type} (f : Kind → β) : Prop :=
  ∀ k, beginsItem k → f k = f .endOfFile

theorem isPlain_of_beginsItem {k : Kind} (h : beginsItem k) : isPlain k := by
  cases k <;> first | rfl | cases h

/-- Three keywords begin an item. -/
theorem Blind.mk {β : Type} {f : Kind → β} (hgwobaw : f (.keyword .gwobaw) = f .endOfFile)
    (hfwunc : f (.keyword .fwunc) = f .endOfFile) (hcwass : f (.keyword .cwass) = f .endOfFile) :
    Blind f := by
  intro k hk
  cases k with
  | keyword w =>
    cases w with
    | gwobaw => exact hgwobaw
    | fwunc => exact hfwunc
    | cwass => exact hcwass
    | _ => cases hk
  | _ => cases hk

/-- `s` reads a text `depth` blocks deep, and `s'` reads it with `rest` behind. -/
structure Facing (rest : List Token) (depth : Nat) (s s' : State) : Prop where
  tokens : s'.stream.tokens = s.stream.tokens ++ rest
  loops : s'.loops = s.loops
  inside : ∀ t ∈ s.stream.tokens, t.kind ≠ .endOfFile
  nested : depthAfter? depth s.stream.tokens = some 0
  border : ∀ t ∈ rest.head?, beginsItem t.kind

/-- The two have read the same token last. -/
structure Beside (rest : List Token) (depth : Nat) (s s' : State) : Prop
    extends Facing rest depth s s' where
  previous : s'.stream.previous = s.stream.previous

section Border

variable {rest : List Token} {depth : Nat} {s s' : State}

theorem State.tokens_ne_nil (h : s.kind ≠ .endOfFile) : s.stream.tokens ≠ [] := by
  rw [State.tokens_eq_cons h]
  exact List.cons_ne_nil _ _

namespace Facing

/-- Before the border the two see the same token. -/
theorem current (h : Facing rest depth s s') (hs : s.kind ≠ .endOfFile) :
    s'.stream.current = s.stream.current := by
  rw [Stream.current, h.tokens, State.tokens_eq_cons hs]
  rfl

theorem kind_eq (h : Facing rest depth s s') (hs : s.kind ≠ .endOfFile) : s'.kind = s.kind :=
  congrArg Token.kind (h.current hs)

theorem tokens_eq_nil (h : Facing rest depth s s') (hs : s.kind = .endOfFile) :
    s.stream.tokens = [] := by
  cases ht : s.stream.tokens with
  | nil => rfl
  | cons t ts =>
    refine absurd ?_ (h.inside t (by simp [ht]))
    rwa [State.kind, Stream.current, ht] at hs

/-- At the border one sees the end, and the other the end or the start of an item. -/
theorem kind_border (h : Facing rest depth s s') (hs : s.kind = .endOfFile) :
    s'.kind = .endOfFile ∨ beginsItem s'.kind := by
  rw [State.kind, Stream.current, h.tokens, h.tokens_eq_nil hs]
  cases hr : rest with
  | nil => exact .inl rfl
  | cons t ts => exact .inr (h.border t (by simp [hr]))

/-- Inside of a block there is no border. -/
theorem kind_ne_end (h : Facing rest (depth + 1) s s') : s.kind ≠ .endOfFile := by
  intro hs
  have hn := h.nested
  rw [h.tokens_eq_nil hs] at hn
  cases hn

theorem blind {β : Type} {f : Kind → β} (h : Facing rest depth s s') (hf : Blind f) :
    f s'.kind = f s.kind := by
  by_cases hs : s.kind = .endOfFile
  · rcases h.kind_border hs with he | hb
    · rw [he, hs]
    · rw [hf _ hb, hs]
  · rw [h.kind_eq hs]

theorem blind_peek {β : Type} {f : Kind → β} (h : Facing rest depth s s') (hf : Blind f)
    (hs : s.kind ≠ .endOfFile) : f s'.stream.peek.kind = f s.stream.peek.kind := by
  rw [Stream.peek, h.tokens, State.tokens_eq_cons hs, Stream.peek, State.tokens_eq_cons hs]
  simp only [List.cons_append, List.tail_cons]
  cases hn : s.next.stream.tokens with
  | cons => rfl
  | nil =>
    cases hr : rest with
    | nil => rfl
    | cons t ts => exact hf _ (h.border t (by simp [hr]))

/-- The two states after a token, which is the same; `after` is how deep they are then. -/
theorem next {after : Nat} (h : Facing rest depth s s') (hs : s.kind ≠ .endOfFile)
    (hdepth : depthAfter? depth s.stream.tokens = depthAfter? after s.next.stream.tokens) :
    Beside rest after s.next s'.next := by
  have hcons := State.tokens_eq_cons hs
  refine ⟨⟨?_, h.loops, fun t ht => h.inside t ?_, hdepth ▸ h.nested, h.border⟩, ?_⟩
  · rw [s'.tokens_next, h.tokens, hcons]
    rfl
  · rw [hcons]
    exact List.mem_cons_of_mem _ ht
  · have hprevious (t : State) (ht : t.stream.tokens ≠ []) :
        t.next.stream.previous = t.stream.current.span := by
      rw [State.next, Stream.advance, Stream.current]
      cases hu : t.stream.tokens with
      | nil => exact absurd hu ht
      | cons => rfl
    have hs' : s'.stream.tokens ≠ [] := by
      rw [h.tokens]
      exact List.append_ne_nil_of_left_ne_nil (State.tokens_ne_nil hs) _
    rw [hprevious s' hs', hprevious s (State.tokens_ne_nil hs), h.current hs]

end Facing

end Border

/-! ### The two runs -/

/-- A mistake that is not about the entry of the program. -/
def Ordinary (d : Diagnostic) : Prop :=
  d.cause ≠ .noEntry ∧ d.cause ≠ .secondEntry

/-- Two mistakes of one name. -/
structure Alike (d d' : Diagnostic) : Prop where
  name : d'.cause.name = d.cause.name
  ordinary : Ordinary d

/-- Mistakes of the same names in the same order. -/
structure AlikeAll (ds ds' : List Diagnostic) : Prop where
  names : ds'.map (·.cause.name) = ds.map (·.cause.name)
  ordinary : ∀ d ∈ ds, Ordinary d

theorem AlikeAll.append {ds ds' es es' : List Diagnostic} (h : AlikeAll ds ds')
    (h' : AlikeAll es es') : AlikeAll (ds ++ es) (ds' ++ es') :=
  ⟨by rw [List.map_append, List.map_append, h.names, h'.names],
    List.forall_mem_append.2 ⟨h.ordinary, h'.ordinary⟩⟩

theorem AlikeAll.nil : AlikeAll [] [] :=
  ⟨rfl, List.forall_mem_nil _⟩

theorem Alike.all {d d' : Diagnostic} (h : Alike d d') : AlikeAll [d] [d'] :=
  ⟨by simp [h.name], List.forall_mem_singleton.2 h.ordinary⟩

/-- The way of two runs from `s` and `s'` to `t` and `t'`, which go side by side then. -/
structure Passed (rest : List Token) (depth : Nat) (s s' t t' : State) : Prop where
  beside : Beside rest depth t t'
  suffix : t.stream.tokens <:+ s.stream.tokens
  loops : t.loops = s.loops
  mistakes : ∃ ds ds', t.recorded = s.recorded ++ ds ∧ t'.recorded = s'.recorded ++ ds' ∧
    AlikeAll ds ds'

/-- `p` from `s` and `p'` from `s'` succeed with the same value, and at least `n` tokens are read
then, or fail with mistakes of one name. -/
def Abreast (rest : List Token) (depth n : Nat) {α : Type} (p p' : Parse α) (s s' : State) : Prop :=
  match p s, p' s' with
  | .ok a t, .ok a' t' => a' = a ∧ Passed rest depth s s' t t' ∧
      t.stream.tokens.length + n ≤ s.stream.tokens.length
  | .error d t, .error d' t' => Alike d d' ∧ Passed rest depth s s' t t'
  | _, _ => False

section Rules

variable {rest : List Token} {depth n : Nat} {α β : Type} {p p' : Parse α} {f f' : α → Parse β}
  {s s' t t' u u' : State}

namespace Passed

theorem refl (h : Beside rest depth s s') : Passed rest depth s s' s s' :=
  ⟨h, List.suffix_rfl, rfl, [], [], by simp, by simp, .nil⟩

theorem trans (h : Passed rest depth s s' t t') {depth : Nat} (h' : Passed rest depth t t' u u') :
    Passed rest depth s s' u u' := by
  obtain ⟨ds, ds', hds, hds', hall⟩ := h.mistakes
  obtain ⟨es, es', hes, hes', hall'⟩ := h'.mistakes
  exact ⟨h'.beside, h'.suffix.trans h.suffix, h'.loops.trans h.loops, ds ++ es, ds' ++ es',
    by rw [hes, hds, List.append_assoc], by rw [hes', hds', List.append_assoc],
    hall.append hall'⟩

theorem length_le (h : Passed rest depth s s' t t') :
    t.stream.tokens.length ≤ s.stream.tokens.length :=
  h.suffix.length_le

theorem record {d d' : Diagnostic} (h : Passed rest depth s s' t t') (hd : Alike d d') :
    Passed rest depth s s' { t with recorded := t.recorded ++ [d] }
      { t' with recorded := t'.recorded ++ [d'] } := by
  obtain ⟨ds, ds', hds, hds', hall⟩ := h.mistakes
  refine ⟨⟨⟨h.beside.tokens, h.beside.loops, h.beside.inside, h.beside.nested, h.beside.border⟩,
    h.beside.previous⟩, h.suffix, h.loops, ds ++ [d], ds' ++ [d'], ?_, ?_,
    hall.append hd.all⟩
  · simp [hds]
  · simp [hds']

/-- Further on, without another mistake. -/
theorem moved (h : Passed rest depth s s' t t') (hu : Beside rest depth u u')
    (hsuffix : u.stream.tokens <:+ t.stream.tokens) (hloops : u.loops = t.loops)
    (hrecorded : u.recorded = t.recorded) (hrecorded' : u'.recorded = t'.recorded) :
    Passed rest depth s s' u u' := by
  obtain ⟨ds, ds', hds, hds', hall⟩ := h.mistakes
  exact ⟨hu, hsuffix.trans h.suffix, hloops.trans h.loops, ds, ds', hrecorded.trans hds,
    hrecorded'.trans hds', hall⟩

/-- One token further. -/
theorem next {after : Nat} (h : Facing rest depth s s') (hs : s.kind ≠ .endOfFile)
    (hdepth : depthAfter? depth s.stream.tokens = depthAfter? after s.next.stream.tokens) :
    Passed rest after s s' s.next s'.next :=
  ⟨h.next hs hdepth, by rw [s.tokens_next]; exact List.tail_suffix _, rfl, [], [],
    by simp [State.next], by simp [State.next], .nil⟩

end Passed

namespace Abreast

theorem of_ok {a : α} (hp : p s = .ok a t) (hp' : p' s' = .ok a t')
    (h : Passed rest depth s s' t t')
    (hn : t.stream.tokens.length + n ≤ s.stream.tokens.length) :
    Abreast rest depth n p p' s s' := by
  rw [Abreast, hp, hp']
  exact ⟨rfl, h, hn⟩

theorem of_error {d d' : Diagnostic} (hp : p s = .error d t) (hp' : p' s' = .error d' t')
    (hd : Alike d d') (h : Passed rest depth s s' t t') : Abreast rest depth n p p' s s' := by
  rw [Abreast, hp, hp']
  exact ⟨hd, h⟩

/-- Both runs succeed, or both fail. -/
theorem cases (h : Abreast rest depth n p p' s s') :
    (∃ a t t', p s = .ok a t ∧ p' s' = .ok a t' ∧ Passed rest depth s s' t t' ∧
      t.stream.tokens.length + n ≤ s.stream.tokens.length) ∨
    ∃ d d' t t', p s = .error d t ∧ p' s' = .error d' t' ∧ Alike d d' ∧
      Passed rest depth s s' t t' := by
  unfold Abreast at h
  split at h
  next a t a' t' hp hp' =>
    obtain ⟨rfl, h, hn⟩ := h
    exact .inl ⟨_, t, t', hp, hp', h, hn⟩
  next d t d' t' hp hp' => exact .inr ⟨d, d', t, t', hp, hp', h.1, h.2⟩
  next => exact h.elim

theorem mono {m : Nat} (h : Abreast rest depth n p p' s s') (hmn : m ≤ n) :
    Abreast rest depth m p p' s s' := by
  obtain ⟨a, t, t', hp, hp', ht, hn⟩ | ⟨d, d', t, t', hp, hp', hd, ht⟩ := h.cases
  · exact of_ok hp hp' ht (by omega)
  · exact of_error hp hp' hd ht

theorem zero (h : Abreast rest depth n p p' s s') : Abreast rest depth 0 p p' s s' :=
  h.mono n.zero_le

/-- How many tokens are read is known from the run on the text alone. -/
theorem of_outcome {fail : State → Prop} (h : Abreast rest depth 0 p p' s s')
    (ho : Outcome p s (fun _ t => t.stream.tokens.length + n ≤ s.stream.tokens.length) fail) :
    Abreast rest depth n p p' s s' := by
  obtain ⟨a, t, t', hp, hp', ht, -⟩ | ⟨d, d', t, t', hp, hp', hd, ht⟩ := h.cases
  · rw [Outcome, hp] at ho
    exact of_ok hp hp' ht ho
  · exact of_error hp hp' hd ht

theorem bind {m : Nat} (hp : Abreast rest depth m p p' s s')
    (hf : ∀ a t t', Beside rest depth t t' →
      t.stream.tokens.length + m ≤ s.stream.tokens.length →
      Abreast rest depth n (f a) (f' a) t t') :
    Abreast rest depth (m + n) (p >>= f) (p' >>= f') s s' := by
  obtain ⟨a, t, t', hp, hp', ht, hm⟩ | ⟨d, d', t, t', hp, hp', hd, ht⟩ := hp.cases
  · obtain ⟨b, u, u', hq, hq', hu, hn⟩ | ⟨d, d', u, u', hq, hq', hd, hu⟩ :=
      (hf a t t' ht.beside hm).cases
    · exact of_ok ((run_bind hp).trans hq) ((run_bind hp').trans hq') (ht.trans hu) (by omega)
    · exact of_error ((run_bind hp).trans hq) ((run_bind hp').trans hq') hd (ht.trans hu)
  · exact of_error (run_bind_error hp) (run_bind_error hp') hd ht

/-- The first of two parsers takes the tokens. -/
theorem andThen (hp : Abreast rest depth n p p' s s')
    (hf : ∀ a t t', Beside rest depth t t' →
      t.stream.tokens.length + n ≤ s.stream.tokens.length →
      Abreast rest depth 0 (f a) (f' a) t t') :
    Abreast rest depth n (p >>= f) (p' >>= f') s s' :=
  hp.bind hf

/-- The second of two parsers takes the tokens. -/
theorem before {m : Nat} (hp : Abreast rest depth m p p' s s')
    (hf : ∀ a t t', Beside rest depth t t' →
      t.stream.tokens.length + m ≤ s.stream.tokens.length →
      Abreast rest depth n (f a) (f' a) t t') :
    Abreast rest depth n (p >>= f) (p' >>= f') s s' :=
  (hp.bind hf).mono (Nat.le_add_left _ _)

end Abreast

theorem abreast_pure (h : Beside rest depth s s') (a : α) :
    Abreast rest depth 0 (pure a) (pure a) s s' :=
  .of_ok rfl rfl (.refl h) (Nat.le_refl _)

/-- A parser whose value is made into another. -/
theorem Abreast.result (g : α → β) (hp : Abreast rest depth n p p' s s') :
    Abreast rest depth n (p >>= fun a => pure (g a)) (p' >>= fun a => pure (g a)) s s' :=
  hp.andThen fun _ _ _ h _ => abreast_pure h _

theorem Abreast.map (g : α → β) (hp : Abreast rest depth n p p' s s') :
    Abreast rest depth n (g <$> p) (g <$> p') s s' := by
  have hmap {p : Parse α} {s : State} : (g <$> p) s = (p >>= fun a => pure (g a)) s := by
    change EStateM.map g p s = EStateM.bind p _ s
    rw [EStateM.map, EStateM.bind]
    cases p s <;> rfl
  have h := hp.result g
  rwa [Abreast, ← hmap, ← hmap] at h

/-! ### Mistakes -/

theorem abreast_throw (h : Beside rest depth s s') {d d' : Diagnostic} (hd : Alike d d') :
    Abreast rest depth n (throw d : Parse α) (throw d') s s' :=
  .of_error rfl rfl hd (.refl h)

theorem abreast_failExpected (h : Beside rest depth s s') (what : String) :
    Abreast rest depth n (failExpected what : Parse α) (failExpected what) s s' :=
  .of_error rfl rfl ⟨rfl, nofun, nofun⟩ (.refl h)

theorem abreast_failUnexpected (h : Beside rest depth s s') (reason : String) :
    Abreast rest depth n (failUnexpected reason : Parse α) (failUnexpected reason) s s' :=
  .of_error rfl rfl ⟨rfl, nofun, nofun⟩ (.refl h)

theorem abreast_record (h : Beside rest depth s s') {d : Diagnostic}
    (hd : Ordinary d) :
    Abreast rest depth 0 (record d) (record d) s s' :=
  .of_ok rfl rfl ((Passed.refl h).record ⟨rfl, hd⟩) (Nat.le_refl _)

/-! ### Tokens -/

theorem abreast_currentKind {f f' : Kind → Parse β} (h : Beside rest depth s s') (hf : Blind f')
    (hk : Abreast rest depth n (f s.kind) (f' s.kind) s s') :
    Abreast rest depth n (currentKind >>= f) (currentKind >>= f') s s' := by
  change Abreast rest depth n (f s.kind) (f' s'.kind) s s'
  rwa [h.blind hf]

/-- Before the border the two see the same kind. -/
theorem Facing.currentKind {f f' : Kind → Parse β} (h : Facing rest depth s s')
    (hs : s.kind ≠ .endOfFile) (hk : Abreast rest depth n (f s.kind) (f' s.kind) s s') :
    Abreast rest depth n (Grammar.currentKind >>= f) (Grammar.currentKind >>= f') s s' := by
  change Abreast rest depth n (f s.kind) (f' s'.kind) s s'
  rwa [h.kind_eq hs]

theorem Facing.nextKind {f f' : Kind → Parse β} (h : Facing rest depth s s')
    (hs : s.kind ≠ .endOfFile) (hf : Blind f')
    (hk : Abreast rest depth n (f s.stream.peek.kind) (f' s.stream.peek.kind) s s') :
    Abreast rest depth n (Grammar.nextKind >>= f) (Grammar.nextKind >>= f') s s' := by
  change Abreast rest depth n (f s.stream.peek.kind) (f' s'.stream.peek.kind) s s'
  rwa [h.blind_peek hf hs]

theorem abreast_current {f f' : Token → Parse β} (h : Beside rest depth s s')
    (hin : s.kind ≠ .endOfFile →
      Abreast rest depth n (f s.stream.current) (f' s.stream.current) s s')
    (hborder : s.kind = .endOfFile →
      Abreast rest depth n (f s.stream.current) (f' s'.stream.current) s s') :
    Abreast rest depth n (current >>= f) (current >>= f') s s' := by
  change Abreast rest depth n (f s.stream.current) (f' s'.stream.current) s s'
  by_cases hs : s.kind = .endOfFile
  · exact hborder hs
  · rw [h.current hs]
    exact hin hs

theorem abreast_bound {f f' : Nat → Parse β}
    (h : Abreast rest depth n (f (s.stream.tokens.length + 1)) (f' (s'.stream.tokens.length + 1))
      s s') :
    Abreast rest depth n (bound >>= f) (bound >>= f') s s' :=
  h

theorem abreast_spanBefore {f f' : Span → Parse β} (h : Beside rest depth s s')
    (hf : Abreast rest depth n (f s.stream.previous) (f' s.stream.previous) s s') :
    Abreast rest depth n (spanBefore >>= f) (spanBefore >>= f') s s' := by
  change Abreast rest depth n (f s.stream.previous) (f' s'.stream.previous) s s'
  rwa [h.previous]

theorem abreast_isLooping {f f' : Bool → Parse β} (h : Beside rest depth s s')
    (hf : Abreast rest depth n (f (0 < s.loops)) (f' (0 < s.loops)) s s') :
    Abreast rest depth n (isLooping >>= f) (isLooping >>= f') s s' := by
  change Abreast rest depth n (f (0 < s.loops)) (f' (0 < s'.loops)) s s'
  rwa [h.loops]

theorem abreast_declarationAhead {f f' : Bool → Parse β} (h : Beside rest depth s s')
    (hf : ∀ b, Abreast rest depth n (f b) (f' b) s s') :
    Abreast rest depth n (declarationAhead >>= f) (declarationAhead >>= f') s s' := by
  change Abreast rest depth n (f (isIdentifier s.kind && s.stream.peek.kind == .symbol .dash))
    (f' (isIdentifier s'.kind && s'.stream.peek.kind == .symbol .dash)) s s'
  have hk : isIdentifier s'.kind = isIdentifier s.kind := h.blind (.mk rfl rfl rfl)
  have hsame : (isIdentifier s'.kind && s'.stream.peek.kind == .symbol .dash) =
      (isIdentifier s.kind && s.stream.peek.kind == .symbol .dash) := by
    rw [hk]
    by_cases hs : s.kind = .endOfFile
    · rw [hs]
      rfl
    · rw [h.blind_peek (f := (· == .symbol .dash)) (.mk rfl rfl rfl) hs]
  rw [hsame]
  exact hf _

/-- Both read the same token. -/
theorem Facing.thenAbreast {f f' : Token → Parse β} (h : Facing rest depth s s')
    (hs : isPlain s.kind)
    (hf : Beside rest depth s.next s'.next →
      s.next.stream.tokens.length + 1 ≤ s.stream.tokens.length →
      Abreast rest depth n (f s.stream.current) (f' s.stream.current) s.next s'.next) :
    Abreast rest depth (n + 1) (advance >>= f) (advance >>= f') s s' := by
  have hne := (isPlain_iff.mp hs).1
  have hlength : s.next.stream.tokens.length + 1 = s.stream.tokens.length := by
    rw [State.tokens_eq_cons hne, List.length_cons]
  have hpassed : Passed rest depth s s' s.next s'.next := by
    refine .next h hne ?_
    rw [State.tokens_eq_cons hne]
    exact depthAfter?_plain hs
  have hrun : (advance >>= f') s' = f' s.stream.current s'.next := by
    rw [← h.current hne]
    rfl
  obtain ⟨b, u, u', hq, hq', hu, hn⟩ | ⟨d, d', u, u', hq, hq', hd, hu⟩ :=
    (hf hpassed.beside (Nat.le_of_eq hlength)).cases
  · exact .of_ok hq (hrun.trans hq') (hpassed.trans hu) (by omega)
  · exact .of_error hq (hrun.trans hq') hd (hpassed.trans hu)

/-- A parser that begins by reading a plain token. -/
theorem Abreast.next {f f' : Token → Parse β} (h : Beside rest depth s s') (hs : isPlain s.kind)
    (hf : Beside rest depth s.next s'.next →
      s.next.stream.tokens.length + 1 ≤ s.stream.tokens.length →
      Abreast rest depth 0 (f s.stream.current) (f' s.stream.current) s.next s'.next) :
    Abreast rest depth 1 (advance >>= f) (advance >>= f') s s' :=
  h.toFacing.thenAbreast hs hf

theorem abreast_advance (h : Beside rest depth s s') (hs : isPlain s.kind) :
    Abreast rest depth 1 advance advance s s' := by
  have hrun : Abreast rest depth 1 (advance >>= pure) (advance >>= pure) s s' :=
    .next h hs fun ht _ => abreast_pure ht _
  simpa using hrun

theorem abreast_expect {k : Kind} (h : Beside rest depth s s') (hk : isPlain k)
    (hb : beginsItem k = false) : Abreast rest depth 1 (expect k) (expect k) s s' := by
  refine abreast_currentKind h (fun j hj => ?_) ?_
  · rw [if_neg, if_neg]
    · exact fun he => (isPlain_iff.mp hk).1 he.symm
    · rintro rfl
      rw [hb] at hj
      cases hj
  · split
    next he => exact abreast_advance h (he ▸ hk)
    next => exact abreast_failExpected h _

theorem abreast_expectSymbol {x : Symbol} (h : Beside rest depth s s') (hx : isPlain (.symbol x)) :
    Abreast rest depth 1 (expectSymbol x) (expectSymbol x) s s' :=
  (abreast_expect h hx rfl).result _

theorem abreast_expectName (h : Beside rest depth s s') :
    Abreast rest depth 1 expectName expectName s s' := by
  refine abreast_currentKind h (.mk rfl rfl rfl) ?_
  split
  next hi => exact .next h (isPlain_of_isIdentifier hi) fun ht _ => abreast_pure ht _
  next => exact abreast_failExpected h _

theorem Abreast.insideLoop (h : Beside rest depth s s')
    (hp : ∀ t t' : State, t.stream.tokens = s.stream.tokens → Beside rest depth t t' →
      Abreast rest depth n p p' t t') :
    Abreast rest depth n (insideLoop p) (insideLoop p') s s' := by
  have hinner : Beside rest depth { s with loops := s.loops + 1 }
      { s' with loops := s'.loops + 1 } :=
    ⟨⟨h.tokens, by simp [h.loops], h.inside, h.nested, h.border⟩, h.previous⟩
  have houter {t t' : State}
      (ht : Passed rest depth { s with loops := s.loops + 1 } { s' with loops := s'.loops + 1 }
        t t') :
      Passed rest depth s s' { t with loops := t.loops - 1 } { t' with loops := t'.loops - 1 } :=
    ⟨⟨⟨ht.beside.tokens, by simp [ht.beside.loops], ht.beside.inside, ht.beside.nested,
      ht.beside.border⟩, ht.beside.previous⟩, ht.suffix, by simp [ht.loops], ht.mistakes⟩
  obtain ⟨a, t, t', hrun, hrun', ht, hn⟩ | ⟨d, d', t, t', hrun, hrun', hd, ht⟩ :=
    (hp { s with loops := s.loops + 1 } _ rfl hinner).cases
  · refine .of_ok (a := a) ?_ ?_ (houter ht) hn
    · rw [Grammar.insideLoop, hrun]
    · rw [Grammar.insideLoop, hrun']
  · refine .of_error ?_ ?_ hd (houter ht)
    · rw [Grammar.insideLoop, hrun]
    · rw [Grammar.insideLoop, hrun']

/-! ### Repetition -/

/-- How often a parser may be repeated does not matter where there are not so many tokens. -/
theorem abreast_upTo {more : Kind → Bool} {n n' : Nat} (h : Beside rest depth s s')
    (hn : s.stream.tokens.length < n) (hn' : s.stream.tokens.length < n')
    (hmore : ∀ t t', Beside rest depth t t' → more t'.kind = more t.kind)
    (hitem : ∀ t t', Beside rest depth t t' → more t.kind →
      t.stream.tokens.length ≤ s.stream.tokens.length → Abreast rest depth 1 p p' t t') :
    Abreast rest depth 0 (upTo more p n) (upTo more p' n') s s' := by
  induction n generalizing s s' n' with
  | zero => exact absurd hn (Nat.not_lt_zero _)
  | succ n ih =>
    cases n' with
    | zero => exact absurd hn' (Nat.not_lt_zero _)
    | succ n' =>
      change Abreast rest depth 0
        (if more s.kind then p >>= fun x => upTo more p n >>= fun xs => pure (x :: xs)
          else pure [])
        (if more s'.kind then p' >>= fun x => upTo more p' n' >>= fun xs => pure (x :: xs)
          else pure []) s s'
      rw [hmore s s' h]
      split
      next hm =>
        refine ((hitem s s' h hm (Nat.le_refl _)).andThen fun x t t' ht hl => ?_).zero
        refine (ih ht (by omega) (by omega) fun u u' hu hk hle => ?_).result _
        exact hitem u u' hu hk (by omega)
      next => exact abreast_pure h _

theorem abreast_many {more : Kind → Bool} (h : Beside rest depth s s') (hmore : Blind more)
    (hitem : ∀ t t', Beside rest depth t t' → more t.kind →
      t.stream.tokens.length ≤ s.stream.tokens.length → Abreast rest depth 1 p p' t t') :
    Abreast rest depth 0 (many more p) (many more p') s s' := by
  refine abreast_bound (abreast_upTo h (Nat.lt_succ_self _) ?_ (fun _ _ ht => ht.blind hmore) hitem)
  rw [h.tokens, List.length_append]
  omega

theorem abreast_listUpTo {close : Symbol} {n n' : Nat} (h : Beside rest depth s s')
    (hn : s.stream.tokens.length < n) (hn' : s.stream.tokens.length < n')
    (hitem : ∀ t t', Beside rest depth t t' →
      t.stream.tokens.length ≤ s.stream.tokens.length → Abreast rest depth 1 p p' t t') :
    Abreast rest depth 0 (listUpTo close p n) (listUpTo close p' n') s s' := by
  induction n generalizing s s' n' with
  | zero => exact absurd hn (Nat.not_lt_zero _)
  | succ n ih =>
    cases n' with
    | zero => exact absurd hn' (Nat.not_lt_zero _)
    | succ n' =>
      refine abreast_currentKind h (.mk rfl rfl rfl) ?_
      split
      next => exact abreast_pure h _
      next =>
        refine ((hitem s s' h (Nat.le_refl _)).andThen fun x t t' ht hl => ?_).zero
        refine abreast_currentKind ht (.mk rfl rfl rfl) ?_
        split
        next hc =>
          refine (Abreast.next ht (by rw [hc]; rfl) fun hu hl' => ?_).zero
          refine (ih hu (by omega) (by omega) fun v v' hv hle => ?_).result _
          exact hitem v v' hv (by omega)
        next => exact abreast_pure ht _

theorem abreast_listTo {close : Symbol} (h : Beside rest depth s s') (hc : isPlain (.symbol close))
    (hitem : ∀ t t', Beside rest depth t t' →
      t.stream.tokens.length ≤ s.stream.tokens.length → Abreast rest depth 1 p p' t t') :
    Abreast rest depth 1 (listTo close p) (listTo close p') s s' := by
  refine abreast_bound ?_
  refine (abreast_listUpTo h (Nat.lt_succ_self _) ?_ hitem).before fun xs t t' ht _ => ?_
  · rw [h.tokens, List.length_append]
    omega
  · exact (abreast_expectSymbol ht hc).result _

end Rules

end Uwu.Grammar
