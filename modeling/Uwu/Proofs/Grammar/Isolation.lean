import Uwu.Proofs.Grammar.Neighbours
import Uwu.Proofs.Grammar.SourceOrder

/-! Items do not get into each other's way. In a text made of the texts of items the mistakes of
each are those that it has alone, but for those about the entry of the program, and without mistakes
the program is made of the items one after the other. -/

namespace Uwu

/-- The mistakes that are found in the grammar of tokens. -/
def Program.syntaxMistakes (names : Names) (tokens : List Token) : List Diagnostic :=
  match Program.ofTokens tokens names with
  | .error ds => ds
  | .ok _ => []

namespace Grammar

open Grammar.Stream (beginsItem)

variable {names : Names} {rest ts : List Token} {s s' t t' u u' : State}

/-! ### Skipping a broken item -/

/-- A skip goes no further than to the next item, which is at the border at the latest. -/
theorem skipItemFrom_append {depth : Nat} (stop stop' previous : Span)
    (hin : ∀ t ∈ ts, t.kind ≠ .endOfFile) (h : depthAfter? depth ts = some 0)
    (hrest : ∀ t ∈ rest.head?, beginsItem t.kind) :
    ∃ us last, us <:+ ts ∧ depthAfter? 0 us = some 0 ∧ (∀ t ∈ us.head?, beginsItem t.kind) ∧
      Stream.skipItemFrom stop depth previous ts = ⟨us, stop, last⟩ ∧
      Stream.skipItemFrom stop' depth previous (ts ++ rest) = ⟨us ++ rest, stop', last⟩ := by
  induction ts generalizing depth previous with
  | nil =>
    obtain rfl : depth = 0 := by simpa [depthAfter?] using h
    refine ⟨[], previous, List.suffix_rfl, rfl, by simp, rfl, ?_⟩
    cases rest with
    | nil => rfl
    | cons r rs => simp [Stream.skipItemFrom, hrest r rfl]
  | cons t ts ih =>
    rw [List.forall_mem_cons] at hin
    have further {depth : Nat} (hd : depthAfter? depth ts = some 0) :
        ∃ us last, us <:+ t :: ts ∧ depthAfter? 0 us = some 0 ∧
          (∀ t ∈ us.head?, beginsItem t.kind) ∧
          Stream.skipItemFrom stop depth t.span ts = ⟨us, stop, last⟩ ∧
          Stream.skipItemFrom stop' depth t.span (ts ++ rest) = ⟨us ++ rest, stop', last⟩ := by
      obtain ⟨us, last, hsuffix, hrun⟩ := ih t.span hin.2 hd
      exact ⟨us, last, hsuffix.trans (List.suffix_cons _ _), hrun⟩
    simp only [List.cons_append, Stream.skipItemFrom]
    split
    next hstop =>
      obtain ⟨hb, rfl⟩ := hstop.resolve_left hin.1
      exact ⟨t :: ts, previous, List.suffix_rfl, h, by simpa using hb, rfl, rfl⟩
    next =>
      split
      next hk =>
        rw [depthAfter?_open hk] at h
        exact further h
      next hk =>
        cases depth with
        | zero => simp [depthAfter?, hk] at h
        | succ depth =>
          rw [depthAfter?_close hk] at h
          exact further h
      next ho hc =>
        rw [depthAfter?_plain (isPlain_iff.mpr ⟨hin.1, ho, hc⟩)] at h
        exact further h

/-- After a skip the two stand at the same item, or at the border. -/
theorem Passed.skipItem (h : Facing rest 0 s s') (hs : s.kind ≠ .endOfFile)
    (ht : Passed rest 0 s s' t t') : Passed rest 0 s s' (skipItem s t) (skipItem s' t') := by
  have hb := ht.beside
  obtain ⟨us, last, hsuffix, hnested, hbegins, hskip, hskip'⟩ := skipItemFrom_append
    t.stream.stop t'.stream.stop t.stream.previous hb.inside hb.nested hb.border
  have hmoved : Passed rest 0 s s' { t with stream := ⟨us, t.stream.stop, last⟩ }
      { t' with stream := ⟨us ++ rest, t'.stream.stop, last⟩ } := by
    refine ht.moved ?_ hsuffix rfl rfl rfl
    exact ⟨⟨rfl, hb.loops, fun u hu => hb.inside u (hsuffix.subset hu), hnested, hb.border⟩, rfl⟩
  have hlength : (us ++ rest).length = s'.stream.tokens.length ↔
      us.length = s.stream.tokens.length := by
    rw [h.tokens, List.length_append, List.length_append]
    omega
  simp only [Grammar.skipItem, Stream.skipItem, hb.previous, hb.tokens, hskip, hskip', hlength]
  split
  next heq =>
    -- The token that is skipped then begins an item, so the nesting stays as it is.
    cases us with
    | nil => exact absurd (List.length_eq_zero_iff.mp heq.symm) (State.tokens_ne_nil hs)
    | cons v vs =>
      have hv : isPlain v.kind := isPlain_of_beginsItem (hbegins v rfl)
      refine hmoved.trans (.next hmoved.beside.toFacing (isPlain_iff.mp hv).1 ?_)
      exact depthAfter?_plain hv
  next => exact hmoved

/-! ### Rounds -/

/-- The names of mistakes, but for those about the entry of the program. -/
def noted (ds : List Diagnostic) : List String :=
  (ds.map (·.cause.name)).filter (· ∉ ["MissingEntryFunction", "DuplicateEntryFunction"])

section Noted

variable {ds ds' es : List Diagnostic}

@[simp]
theorem noted_nil : noted [] = [] := rfl

@[simp]
theorem noted_append : noted (ds ++ es) = noted ds ++ noted es := by
  simp [noted]

theorem AlikeAll.noted_eq (h : AlikeAll ds ds') : noted ds' = noted ds := by
  rw [noted, noted, h.names]

/-- Ordinary mistakes are noted. -/
theorem eq_nil_of_noted (h : ∀ d ∈ ds, Ordinary d) (hnone : noted ds = []) : ds = [] := by
  cases ds with
  | nil => rfl
  | cons d ds =>
    obtain ⟨cause, span⟩ := d
    have hd := h _ List.mem_cons_self
    rw [noted, List.map_cons, List.filter_cons_of_pos] at hnone
    · cases hnone
    · cases cause with
      | noEntry => exact absurd rfl hd.1
      | secondEntry => exact absurd rfl hd.2
      | _ => simp [Cause.name]

end Noted

/-- The mistakes that two runs add have the same names, but for those about the entry. If no other
is added and `few` holds, the second run adds none at all. -/
def Grown (few : Prop) (s s' t t' : State) : Prop :=
  ∃ ds ds', t.recorded = s.recorded ++ ds ∧ t'.recorded = s'.recorded ++ ds' ∧
    noted ds' = noted ds ∧ (noted ds = [] → few → ds' = [])

namespace Grown

variable {few few' : Prop}

theorem refl : Grown few s s' s s' :=
  ⟨[], [], by simp, by simp, rfl, fun _ _ => rfl⟩

theorem trans (h : Grown few s s' t t') (h' : Grown few t t' u u') : Grown few s s' u u' := by
  obtain ⟨ds, ds', hds, hds', hnoted, hnone⟩ := h
  obtain ⟨es, es', hes, hes', hnoted', hnone'⟩ := h'
  refine ⟨ds ++ es, ds' ++ es', ?_, ?_, ?_, fun hn hf => ?_⟩
  · rw [hes, hds, List.append_assoc]
  · rw [hes', hds', List.append_assoc]
  · rw [noted_append, noted_append, hnoted, hnoted']
  · rw [noted_append, List.append_eq_nil_iff] at hn
    rw [hnone hn.1 hf, hnone' hn.2 hf, List.append_nil]

theorem mono (h : Grown few s s' t t') (hf : few' → few) : Grown few' s s' t t' := by
  obtain ⟨ds, ds', hds, hds', hnoted, hnone⟩ := h
  exact ⟨ds, ds', hds, hds', hnoted, fun hn hf' => hnone hn (hf hf')⟩

end Grown

theorem Passed.grown {depth : Nat} (h : Passed rest depth s s' t t') (few : Prop) :
    Grown few s s' t t' := by
  obtain ⟨ds, ds', hds, hds', hall⟩ := h.mistakes
  refine ⟨ds, ds', hds, hds', hall.noted_eq, fun hn _ => ?_⟩
  have hnames := hall.names
  rw [eq_nil_of_noted hall.ordinary hn] at hnames
  exact List.map_eq_nil_iff.mp hnames

/-- A round goes side by side, be its item broken or not. A broken one leaves a mistake. -/
theorem round_abreast (names : Names) (h : Facing rest 0 s s') (hs : s.kind ≠ .endOfFile)
    (hb : ¬ beginsItem s.kind → Beside rest 0 s s') :
    ∃ found t t', recovering (item names) skipItem s = .ok found t ∧
      recovering (item names) skipItem s' = .ok found t' ∧ Passed rest 0 s s' t t' ∧
      t.stream.tokens.length < s.stream.tokens.length ∧
      (t.recorded = s.recorded → ∃ i, found = some i ∧ item names s = .ok i t) := by
  have hround := @outcome_round names s hs
  unfold Outcome at hround
  obtain ⟨i, t, t', hp, hp', ht, -⟩ | ⟨d, d', t, t', hp, hp', hd, ht⟩ :=
    (abreast_item names h hs hb).cases
  · have hrun : recovering (item names) skipItem s = .ok (some i) t := by rw [recovering, hp]
    rw [hrun] at hround
    refine ⟨some i, t, t', hrun, ?_, ht, hround.1, fun _ => ⟨i, rfl, hp⟩⟩
    rw [recovering, hp']
  · have hrun : recovering (item names) skipItem s =
        .ok none (skipItem s { t with recorded := t.recorded ++ [d] }) := by rw [recovering, hp]
    rw [hrun] at hround
    refine ⟨none, _, _, hrun, ?_, (ht.record hd).skipItem h hs, hround.1, fun heq => ?_⟩
    · rw [recovering, hp']
    · obtain ⟨ds, -, hds, -⟩ := ht.mistakes
      have hrecorded : (skipItem s { t with recorded := t.recorded ++ [d] }).recorded =
          s.recorded ++ (ds ++ [d]) := by
        rw [← List.append_assoc, ← hds, skipItem]
        split <;> rfl
      simp [hrecorded] at heq

/-! ### All rounds -/

/-- An entry behind another one is a mistake. -/
def State.noteSecond (hasEntry : Bool) (i : Item) (s : State) : State :=
  match i.entry? with
  | some f =>
    if hasEntry then { s with recorded := s.recorded ++ [⟨.secondEntry, f.name.span⟩] } else s
  | none => s

@[simp]
theorem State.stream_noteSecond (b : Bool) (i : Item) (s : State) :
    (s.noteSecond b i).stream = s.stream := by
  rw [noteSecond]
  split
  next => split <;> rfl
  next => rfl

@[simp]
theorem State.loops_noteSecond (b : Bool) (i : Item) (s : State) :
    (s.noteSecond b i).loops = s.loops := by
  rw [noteSecond]
  split
  next => split <;> rfl
  next => rfl

section Runs

variable {n : Nat} {b : Bool}

theorem run_itemsUpTo_end (hs : s.kind = .endOfFile) : itemsUpTo names n b s = .ok [] s := by
  cases n with
  | zero => rfl
  | succ n => rw [itemsUpTo, run_currentKind, if_pos hs, run_pure]

theorem run_itemsUpTo_broken (hs : s.kind ≠ .endOfFile)
    (h : recovering (item names) skipItem s = .ok none t) :
    itemsUpTo names (n + 1) b s = itemsUpTo names n b t := by
  rw [itemsUpTo, run_currentKind, if_neg hs, run_bind h]

theorem run_itemsUpTo_some {i : Item} (hs : s.kind ≠ .endOfFile)
    (h : recovering (item names) skipItem s = .ok (some i) t) :
    itemsUpTo names (n + 1) b s =
      (itemsUpTo names n (b || i.entry?.isSome) >>= fun is => pure (i :: is))
        (t.noteSecond b i) := by
  rw [itemsUpTo, run_currentKind, if_neg hs, run_bind h]
  cases i with
  | entry f => cases b <;> rfl
  | _ => cases b <;> rfl

end Runs

/-- There is an entry among some items. -/
def anyEntry (is : List Item) : Bool :=
  is.any fun i => i.entry?.isSome

theorem anyEntry_cons (i : Item) (is : List Item) :
    anyEntry (i :: is) = (i.entry?.isSome || anyEntry is) :=
  List.any_cons

/-- How many entries there are among some items. -/
def entryCount (is : List Item) : Nat :=
  (is.filterMap Item.entry?).length

theorem entryCount_cons (i : Item) (is : List Item) :
    entryCount (i :: is) = i.entry?.isSome.toNat + entryCount is := by
  rw [entryCount, List.filterMap_cons]
  cases i.entry? with
  | none => exact (Nat.zero_add _).symm
  | some => exact Nat.add_comm _ _

theorem anyEntry_le (is : List Item) : (anyEntry is).toNat ≤ entryCount is := by
  induction is with
  | nil => exact Nat.le_refl _
  | cons i is ih =>
    rw [anyEntry_cons, entryCount_cons]
    cases i.entry?.isSome with
    | true => exact Nat.le_add_right _ _
    | false => simpa using ih

theorem entryCount_append (is js : List Item) :
    entryCount (is ++ js) = entryCount is + entryCount js := by
  rw [entryCount, List.filterMap_append, List.length_append]
  rfl

/-- What is said about an entry is not noted, and nothing is said about the first one. -/
theorem recorded_noteSecond (b : Bool) (i : Item) (s : State) :
    ∃ ds, (s.noteSecond b i).recorded = s.recorded ++ ds ∧ noted ds = [] ∧
      (b.toNat + i.entry?.isSome.toNat ≤ 1 → ds = []) := by
  rw [State.noteSecond]
  cases i.entry? with
  | none => exact ⟨[], by simp, rfl, fun _ => rfl⟩
  | some f =>
    cases b with
    | false => exact ⟨[], by simp, rfl, fun _ => rfl⟩
    | true => exact ⟨_, rfl, by simp [noted, Cause.name], fun h => by simp at h⟩

theorem grown_noteSecond (b b' : Bool) (i : Item) :
    Grown (b'.toNat + i.entry?.isSome.toNat ≤ 1) t t' (t.noteSecond b i) (t'.noteSecond b' i) := by
  obtain ⟨ds, hds, hnoted, -⟩ := recorded_noteSecond b i t
  obtain ⟨ds', hds', hnoted', hnone⟩ := recorded_noteSecond b' i t'
  exact ⟨ds, ds', hds, hds', hnoted'.trans hnoted.symm, fun _ hf => hnone hf⟩

theorem Beside.noteSecond {depth : Nat} (b b' : Bool) (i : Item) (h : Beside rest depth t t') :
    Beside rest depth (t.noteSecond b i) (t'.noteSecond b' i) :=
  ⟨⟨by simpa using h.tokens, by simpa using h.loops, by simpa using h.inside,
    by simpa using h.nested, h.border⟩, by simpa using h.previous⟩

/-- A run on a text, and a run on the text with more items behind: the second reads the items that
the first reads, goes on at the border, and adds mistakes of the same names up to there. -/
theorem itemsUpTo_append (names : Names) {n n' : Nat} (b b' : Bool) (h : Facing rest 0 s s')
    (hb : ¬ beginsItem s.kind → Beside rest 0 s s') (hn : s.stream.tokens.length < n)
    (hn' : s'.stream.tokens.length < n') :
    ∃ is t t' m, itemsUpTo names n b s = .ok is t ∧ t'.stream.tokens = rest ∧
      t'.loops = s.loops ∧ rest.length < m ∧ Grown (b'.toNat + entryCount is ≤ 1) s s' t t' ∧
      ∀ more u, itemsUpTo names m (b' || anyEntry is) t' = .ok more u →
        itemsUpTo names n' b' s' = .ok (is ++ more) u := by
  induction n generalizing s s' b b' n' with
  | zero => exact absurd hn (Nat.not_lt_zero _)
  | succ n ih =>
    by_cases hs : s.kind = .endOfFile
    · have hnil := h.tokens_eq_nil hs
      have htokens : s'.stream.tokens = rest := by
        rw [h.tokens, hnil]
        rfl
      refine ⟨[], s, s', n', run_itemsUpTo_end hs, htokens, h.loops, ?_, .refl, ?_⟩
      · rwa [h.tokens, hnil] at hn'
      · simp [anyEntry]
    · obtain ⟨found, t, t', hp, hp', ht, hlt, -⟩ := round_abreast names h hs hb
      have hs' : s'.kind ≠ .endOfFile := by rwa [h.kind_eq hs]
      obtain ⟨n', rfl⟩ := Nat.exists_eq_succ_of_ne_zero (Nat.ne_zero_of_lt hn')
      have hlt' : t'.stream.tokens.length < n' := by
        rw [ht.beside.tokens, List.length_append]
        rw [h.tokens, List.length_append] at hn'
        omega
      cases found with
      | none =>
        obtain ⟨is, u, u', m, hrun, htokens, hloops, hm, hgrown, hmore⟩ :=
          ih b b' ht.beside.toFacing (fun _ => ht.beside) (by omega) hlt'
        refine ⟨is, u, u', m, (run_itemsUpTo_broken hs hp).trans hrun, htokens,
          hloops.trans ht.loops, hm, (ht.grown _).trans hgrown, fun more v hv => ?_⟩
        exact (run_itemsUpTo_broken hs' hp').trans (hmore more v hv)
      | some i =>
        have hnoted := ht.beside.noteSecond b b' i
        obtain ⟨is, u, u', m, hrun, htokens, hloops, hm, hgrown, hmore⟩ :=
          ih (b || i.entry?.isSome) (b' || i.entry?.isSome) hnoted.toFacing (fun _ => hnoted)
            (by simpa using Nat.lt_of_lt_of_le hlt (Nat.le_of_lt_succ hn)) (by simpa using hlt')
        refine ⟨i :: is, u, u', m, ?_, htokens, ?_, hm, ?_, fun more v hv => ?_⟩
        · rw [run_itemsUpTo_some hs hp, run_bind hrun, run_pure]
        · simpa [ht.loops] using hloops
        · rw [entryCount_cons]
          refine ((ht.grown _).trans ((grown_noteSecond b b' i).mono fun hf => ?_)).trans
            (hgrown.mono fun hf => ?_)
          · omega
          · have hor : (b' || i.entry?.isSome).toNat ≤ b'.toNat + i.entry?.isSome.toNat := by
              cases b' <;> cases i.entry?.isSome <;> simp
            omega
        · rw [anyEntry_cons, ← Bool.or_assoc] at hv
          rw [run_itemsUpTo_some hs' hp', run_bind (hmore more v hv), run_pure]
          rfl

/-! ### The texts of items -/

/-- The text of one item: it begins with a keyword that begins items, no other one stands outside of
its blocks, and these are nested. -/
structure ItemText (ts : List Token) : Prop where
  trivia : ∀ t ∈ ts, t.kind.isTrivia = false
  inside : ∀ t ∈ ts, t.kind ≠ .endOfFile
  begins : ts.head?.any fun t => beginsItem t.kind
  nested : depthAfter? 0 ts = some 0
  alone : ∀ i (h : i < ts.length), 0 < i → depthAfter? 0 (ts.take i) = some 0 →
    beginsItem ts[i].kind = false

/-- The text is that of an entry. -/
def writesEntry (ts : List Token) : Bool :=
  (ts.map Token.kind).take 2 == [.keyword .fwunc, .keyword .mainuwu]

/-- The items that are read from tokens. -/
def itemsOf (names : Names) (tokens : List Token) : List Item :=
  match items names (.ofTokens tokens) with
  | .ok is _ => is
  | .error _ _ => []

/-- Before an end token that is not trivia the tokens are read as they are. -/
theorem tokens_ofTokens {e : Token} (he : e.kind = .endOfFile)
    (h : ∀ t ∈ ts, t.kind.isTrivia = false) :
    (State.ofTokens (ts ++ [e])).stream.tokens = ts := by
  have hfilter : ts.filter (fun t => !t.kind.isTrivia) = ts :=
    List.filter_eq_self.mpr fun t ht => by rw [h t ht]; rfl
  have hend : [e].filter (fun t => !t.kind.isTrivia) = [e] := by simp [he, Kind.isTrivia]
  simp only [State.ofTokens, Stream.ofTokens, List.filter_append, hfilter, hend]
  simp [he]

theorem run_items {is : List Item}
    (h : itemsUpTo names (s.stream.tokens.length + 1) false s = .ok is t) :
    ∃ u ds, items names s = .ok is u ∧ u.recorded = t.recorded ++ ds ∧ noted ds = [] ∧
      (0 < entryCount is → ds = []) := by
  have hrun : items names s =
      (if (is.filterMap Item.entry?).isEmpty then
        record ⟨.noEntry, t.stream.current.span⟩ >>= fun _ => pure is else pure is) t := by
    rw [items, run_bound, run_bind h]
    split <;> rfl
  rw [hrun]
  split
  next hempty =>
    refine ⟨_, _, rfl, rfl, by simp [noted, Cause.name], fun hpos => ?_⟩
    rw [entryCount, List.isEmpty_iff.mp hempty] at hpos
    exact absurd hpos (Nat.lt_irrefl 0)
  next => exact ⟨t, [], rfl, by simp, rfl, fun _ => rfl⟩

theorem syntaxMistakes_eq {tokens : List Token} {is : List Item}
    (h : items names (.ofTokens tokens) = .ok is t) :
    Program.syntaxMistakes names tokens = t.recorded := by
  have hresult : (∃ p, Program.ofTokens tokens names = .ok p ∧ t.recorded = []) ∨
      Program.ofTokens tokens names = .error t.recorded := by
    simp only [Program.ofTokens, h]
    split
    next hnone _ => exact .inl ⟨_, rfl, hnone⟩
    next => exact .inr rfl
  rw [Program.syntaxMistakes]
  obtain ⟨p, hp, hnone⟩ | hp := hresult
  · rw [hp, hnone]
  · rw [hp]

/-! ### One text -/

/-- An item begins with its keyword, and is an entry if it begins like one. -/
theorem outcome_item : Outcome (item names) s (fun i _ => beginsItem s.kind ∧
    i.entry?.isSome = (s.kind == .keyword .fwunc && s.stream.peek.kind == .keyword .mainuwu))
    fun _ => True := by
  rw [item, outcome_bind, outcome_currentKind]
  split
  next hk =>
    rw [hk, outcome_bind]
    exact outcome_always (fun _ _ => ⟨rfl, rfl⟩) fun _ => trivial
  next hk =>
    rw [hk, outcome_bind]
    exact outcome_always (fun _ _ => ⟨rfl, rfl⟩) fun _ => trivial
  next hk =>
    rw [hk]
    change Outcome (function names >>= fun f => pure
      (if s.stream.peek.kind == .keyword .mainuwu then Item.entry f else Item.function f)) s _ _
    rw [outcome_bind]
    refine outcome_always (fun f t => ?_) fun _ => trivial
    change _ ∧ _
    cases s.stream.peek.kind == .keyword .mainuwu <;> exact ⟨rfl, rfl⟩
  next => trivial

theorem writesEntry_tokens (s : State) : writesEntry s.stream.tokens =
    (s.kind == .keyword .fwunc && s.stream.peek.kind == .keyword .mainuwu) := by
  rw [writesEntry, State.kind, Stream.current, Stream.peek]
  rcases s.stream.tokens with _ | ⟨t, _ | ⟨u, us⟩⟩
  · rfl
  · simp [endToken]
  · simp

section

variable {n : Nat} {b : Bool} {is : List Item}

theorem recorded_itemsUpTo (h : Facing [] 0 s s) (hb : ¬ beginsItem s.kind → Beside [] 0 s s)
    (hn : s.stream.tokens.length < n) (hrun : itemsUpTo names n b s = .ok is t) :
    ∃ ds, t.recorded = s.recorded ++ ds := by
  obtain ⟨is', t', -, -, hrun', -, -, -, ⟨ds, -, hds, -⟩, -⟩ :=
    itemsUpTo_append names b b h hb hn hn
  rw [hrun] at hrun'
  cases hrun'
  exact ⟨ds, hds⟩

/-- Where nothing is noted the first item is read, and the others after it. -/
theorem exists_item (h : Facing [] 0 s s) (hs : s.kind ≠ .endOfFile)
    (hb : ¬ beginsItem s.kind → Beside [] 0 s s) (hn : s.stream.tokens.length < n + 1)
    (hrun : itemsUpTo names (n + 1) b s = .ok is t)
    (hclean : noted t.recorded = noted s.recorded) :
    ∃ i u js, item names s = .ok i u ∧ Passed [] 0 s s u u ∧
      u.stream.tokens.length < s.stream.tokens.length ∧
      itemsUpTo names n (b || i.entry?.isSome) (u.noteSecond b i) = .ok js t ∧ is = i :: js ∧
      noted t.recorded = noted (u.noteSecond b i).recorded := by
  obtain ⟨found, u, u', hp, hp', hu, hlt, hitem⟩ := round_abreast names h hs hb
  rw [hp] at hp'
  cases hp'
  obtain ⟨ds, ds', hds, -, hall⟩ := hu.mistakes
  -- Whatever the round records is noted in the end.
  have hround {v : State} {es fs : List Diagnostic} (hv : v.recorded = u.recorded ++ es)
      (ht : t.recorded = v.recorded ++ fs) :
      u.recorded = s.recorded ∧ noted t.recorded = noted v.recorded := by
    have hnone : noted ds = [] ∧ noted es = [] ∧ noted fs = [] := by
      rw [ht, hv, hds] at hclean
      simpa [and_assoc] using hclean
    rw [ht, hds, eq_nil_of_noted hall.ordinary hnone.1, noted_append, hnone.2.2]
    simp
  cases found with
  | none =>
    rw [run_itemsUpTo_broken hs hp] at hrun
    obtain ⟨fs, hfs⟩ := recorded_itemsUpTo hu.beside.toFacing (fun _ => hu.beside) (by omega) hrun
    obtain ⟨i, hi, -⟩ := hitem (hround (List.append_nil _).symm hfs).1
    cases hi
  | some i =>
    rw [run_itemsUpTo_some hs hp] at hrun
    have hnoted := hu.beside.noteSecond b b i
    have hlt' : (u.noteSecond b i).stream.tokens.length < n := by
      rw [State.stream_noteSecond]
      omega
    obtain ⟨es, hes, -⟩ := recorded_noteSecond b i u
    obtain ⟨js, v, -, -, hjs, -, -, -, ⟨fs, -, hfs, -⟩, -⟩ := itemsUpTo_append names
      (b || i.entry?.isSome) (b || i.entry?.isSome) hnoted.toFacing (fun _ => hnoted) hlt' hlt'
    rw [run_bind hjs, run_pure] at hrun
    cases hrun
    obtain ⟨hsame, hlast⟩ := hround hes hfs
    obtain ⟨j, hj, hrun⟩ := hitem hsame
    cases hj
    exact ⟨i, u, js, hrun, hu, hlt, hjs, rfl, hlast⟩

end

section Texts

variable {e : Token} (he : e.kind = .endOfFile)


namespace ItemText

/-- Behind the first token of an item, outside of its blocks, no other item begins. -/
theorem not_begins (h : ItemText ts) (hs : s.stream.tokens <:+ ts)
    (hlt : s.stream.tokens.length < ts.length) (hnested : depthAfter? 0 s.stream.tokens = some 0)
    (hk : s.kind ≠ .endOfFile) : ¬ beginsItem s.kind := by
  obtain ⟨before, hbefore⟩ := hs
  have hpos : 0 < before.length := by
    rw [← hbefore, List.length_append] at hlt
    omega
  have hdepth : depthAfter? 0 before = some 0 := by
    have hn := h.nested
    rw [← hbefore, depthAfter?_append] at hn
    obtain ⟨d, hd, hrest⟩ := Option.bind_eq_some_iff.mp hn
    obtain rfl : 0 = d := depthAfter?_of_nested hnested hrest
    exact hd
  rw [State.tokens_eq_cons hk] at hbefore
  subst hbefore
  have halone := h.alone before.length (by simp) hpos (by simpa using hdepth)
  rw [List.getElem_append_right (Nat.le_refl _)] at halone
  simpa using halone

include he in
theorem facing (h : ItemText ts) (hs : s'.stream.tokens = ts ++ rest) (hloops : s'.loops = 0)
    (hrest : ∀ t ∈ rest.head?, beginsItem t.kind) :
    Facing rest 0 (.ofTokens (ts ++ [e])) s' ∧ beginsItem (State.ofTokens (ts ++ [e])).kind := by
  have htokens := tokens_ofTokens he h.trivia
  refine ⟨⟨by rw [hs, htokens], hloops, by rw [htokens]; exact h.inside,
    by rw [htokens]; exact h.nested, hrest⟩, ?_⟩
  have hbegins := h.begins
  rw [State.kind, Stream.current, htokens]
  cases ts with
  | nil => cases hbegins
  | cons t ts => simpa using hbegins

include he in
/-- The run on the text of an item, with other items behind. -/
theorem exists_run (names : Names) {n : Nat} (b : Bool) (h : ItemText ts)
    (hs : s'.stream.tokens = ts ++ rest) (hloops : s'.loops = 0)
    (hrest : ∀ t ∈ rest.head?, beginsItem t.kind) (hn : s'.stream.tokens.length < n) :
    ∃ t' m ds, t'.stream.tokens = rest ∧ t'.loops = 0 ∧ rest.length < m ∧
      t'.recorded = s'.recorded ++ ds ∧
      noted ds = noted (Program.syntaxMistakes names (ts ++ [e])) ∧
      (noted ds = [] → b.toNat + entryCount (itemsOf names (ts ++ [e])) ≤ 1 → ds = []) ∧
      ∀ more u, itemsUpTo names m (b || anyEntry (itemsOf names (ts ++ [e]))) t' =
        .ok more u → itemsUpTo names n b s' = .ok (itemsOf names (ts ++ [e]) ++ more) u := by
  obtain ⟨hfacing, hbegins⟩ := h.facing he hs hloops hrest
  obtain ⟨is, t, t', m, hrun, htokens, hl, hm, ⟨ds, ds', hds, hds', hnoted, hnone⟩, hmore⟩ :=
    itemsUpTo_append names false b hfacing (fun hb => absurd hbegins hb)
      (Nat.lt_succ_self _) hn
  obtain ⟨u, es, hitems, hes, hes', -⟩ := run_items hrun
  have hof : itemsOf names (ts ++ [e]) = is := by rw [itemsOf, hitems]
  rw [hof, syntaxMistakes_eq hitems, hes, hds]
  have hall : noted ((State.ofTokens (ts ++ [e])).recorded ++ ds ++ es) = noted ds := by
    rw [noted_append, hes', List.append_nil]
    rfl
  rw [hall]
  exact ⟨t', m, ds', htokens, hl, hm, hds', hnoted, fun hn' => hnone (hnoted ▸ hn'), hmore⟩

include he in
/-- The text of an item in which nothing is noted is read as one item. -/
theorem exists_itemsOf (h : ItemText ts)
    (hclean : noted (Program.syntaxMistakes names (ts ++ [e])) = []) :
    ∃ i, itemsOf names (ts ++ [e]) = [i] ∧ i.entry?.isSome = writesEntry ts := by
  have htokens := tokens_ofTokens he h.trivia
  obtain ⟨hfacing, hbegins⟩ := h.facing he (htokens.trans (List.append_nil ts).symm) rfl nofun
  have hne : (State.ofTokens (ts ++ [e])).kind ≠ .endOfFile := by
    intro hk
    rw [hk] at hbegins
    cases hbegins
  obtain ⟨is, t, -, -, hrun, -⟩ := itemsUpTo_append names false false hfacing
    (fun hb => absurd hbegins hb) (Nat.lt_succ_self _) (Nat.lt_succ_self _)
  obtain ⟨w, es, hitems, hes, hes', -⟩ := run_items hrun
  have hnone : noted t.recorded = [] := by
    rw [syntaxMistakes_eq hitems, hes, noted_append, hes', List.append_nil] at hclean
    exact hclean
  obtain ⟨i, u, js, hi, hu, hlt, hjs, rfl, hlast⟩ := exists_item hfacing hne
    (fun hb => absurd hbegins hb) (Nat.lt_succ_self _) hrun hnone
  have hjs' : js = [] := by
    have hb := hu.beside.noteSecond false false i
    by_cases hk : (u.noteSecond false i).kind = .endOfFile
    · rw [run_itemsUpTo_end hk] at hjs
      cases hjs
      rfl
    · -- Another round would find no item to begin with.
      obtain ⟨n, hn⟩ := Nat.exists_eq_succ_of_ne_zero (Nat.ne_zero_of_lt hlt)
      rw [hn] at hjs
      obtain ⟨j, v, -, hj, -⟩ := exists_item hb.toFacing hk (fun _ => hb)
        (by rw [State.stream_noteSecond]; omega) hjs hlast
      refine absurd (Outcome.of_ok outcome_item hj).1 (h.not_begins ?_ ?_ hb.nested hk)
      · simpa [htokens] using hu.suffix
      · simpa [htokens] using hlt
  refine ⟨i, by rw [itemsOf, hitems, hjs'], ?_⟩
  rw [(Outcome.of_ok outcome_item hi).2, ← writesEntry_tokens, htokens]

end ItemText

/-! ### All texts -/

theorem border_flatten {segments : List (List Token)} (h : ∀ ts ∈ segments, ItemText ts) :
    ∀ t ∈ segments.flatten.head?, beginsItem t.kind := by
  cases segments with
  | nil => nofun
  | cons ts segments =>
    have hbegins := (h ts List.mem_cons_self).begins
    intro t ht
    cases ts with
    | nil => cases hbegins
    | cons u us =>
      obtain rfl : u = t := by simpa using ht
      simpa using hbegins

/-- The items of texts one after the other are those of each. -/
theorem run_flatten (names : Names) {ends : List Token → Token}
    (hends : ∀ ts, (ends ts).kind = .endOfFile) {segments : List (List Token)}
    (h : ∀ ts ∈ segments, ItemText ts) {n : Nat} (b : Bool)
    (hs : s.stream.tokens = segments.flatten) (hloops : s.loops = 0)
    (hn : s.stream.tokens.length < n) :
    ∃ u ds, itemsUpTo names n b s =
        .ok (segments.flatMap fun ts => itemsOf names (ts ++ [ends ts])) u ∧
      u.recorded = s.recorded ++ ds ∧
      noted ds = segments.flatMap (fun ts =>
        noted (Program.syntaxMistakes names (ts ++ [ends ts]))) ∧
      (noted ds = [] →
        b.toNat + entryCount (segments.flatMap fun ts => itemsOf names (ts ++ [ends ts])) ≤ 1 →
        ds = []) := by
  induction segments generalizing s n b with
  | nil =>
    have hk : s.kind = .endOfFile := by
      rw [State.kind, Stream.current, hs]
      rfl
    exact ⟨s, [], run_itemsUpTo_end hk, by simp, rfl, fun _ _ => rfl⟩
  | cons ts segments ih =>
    rw [List.forall_mem_cons] at h
    obtain ⟨t, m, ds, htokens, hl, hm, hds, hnoted, hnone, hmore⟩ :=
      h.1.exists_run (hends ts) names b (hs.trans List.flatten_cons) hloops (border_flatten h.2) hn
    obtain ⟨u, es, hrun, hes, hnoted', hnone'⟩ := ih h.2
      (b || anyEntry (itemsOf names (ts ++ [ends ts]))) htokens hl (by rwa [htokens])
    refine ⟨u, ds ++ es, ?_, by rw [hes, hds, List.append_assoc], ?_, fun hn hf => ?_⟩
    · rw [List.flatMap_cons]
      exact hmore _ _ hrun
    · rw [noted_append, hnoted, hnoted', List.flatMap_cons]
    · rw [noted_append, List.append_eq_nil_iff] at hn
      rw [List.flatMap_cons, entryCount_append] at hf
      have hor := anyEntry_le (itemsOf names (ts ++ [ends ts]))
      have hflag : (b || anyEntry (itemsOf names (ts ++ [ends ts]))).toNat ≤
          b.toNat + (anyEntry (itemsOf names (ts ++ [ends ts]))).toNat := by
        cases b <;> simp
      rw [hnone hn.1 (by omega), hnone' hn.2 (by omega)]
      rfl

/-- Where each text is read as one item, there are as many entries as texts of entries. -/
theorem entryCount_flatMap {segments : List (List Token)} {read : List Token → List Item}
    (h : ∀ ts ∈ segments, ∃ i, read ts = [i] ∧ i.entry?.isSome = writesEntry ts) :
    entryCount (segments.flatMap read) = segments.countP writesEntry := by
  induction segments with
  | nil => rfl
  | cons ts segments ih =>
    rw [List.forall_mem_cons] at h
    obtain ⟨i, hi, hentry⟩ := h.1
    rw [List.flatMap_cons, hi, List.singleton_append, entryCount_cons, ih h.2, hentry, Nat.add_comm]
    cases hw : writesEntry ts <;> simp [hw]

end Texts

end Grammar

open Grammar

/-- Items are read on their own. For texts of one item each, the mistakes found in all of them
together are those found in each, one text after the other, but for mistakes about the entry. Where
there are none and exactly one text is an entry, the program is accepted, and its parts are the
items of the texts in order, one of each. -/
theorem Program.items_isolated (names : Names) (ends : List Token → Token)
    (hends : ∀ ts, (ends ts).kind = .endOfFile) {segments : List (List Token)}
    (h : ∀ ts ∈ segments, ItemText ts) :
    noted (Program.syntaxMistakes names (segments.flatten ++ [ends segments.flatten])) =
        segments.flatMap (fun ts => noted (Program.syntaxMistakes names (ts ++ [ends ts]))) ∧
      ((∀ ts ∈ segments, noted (Program.syntaxMistakes names (ts ++ [ends ts])) = []) →
        segments.countP writesEntry = 1 →
        (∀ ts ∈ segments, ∃ i, itemsOf names (ts ++ [ends ts]) = [i] ∧
          i.entry?.isSome = writesEntry ts) ∧
        ∃ p, Program.ofTokens (segments.flatten ++ [ends segments.flatten]) names = .ok p ∧
          let is := segments.flatMap fun ts => itemsOf names (ts ++ [ends ts])
          p.globals = is.filterMap Item.global? ∧ p.functions = is.filterMap Item.function? ∧
          p.classes = is.filterMap Item.class? ∧ [p.entry] = is.filterMap Item.entry?) := by
  have htrivia : ∀ t ∈ segments.flatten, t.kind.isTrivia = false := by
    intro t ht
    obtain ⟨ts, hts, ht⟩ := List.mem_flatten.mp ht
    exact (h ts hts).trivia t ht
  have htokens := tokens_ofTokens (hends segments.flatten) htrivia
  obtain ⟨t, ds, hrun, hds, hnoted, hnone⟩ :=
    run_flatten names hends h false htokens rfl (Nat.lt_succ_self _)
  obtain ⟨u, es, hitems, hes, hes', hfirst⟩ := run_items hrun
  have hrecorded : u.recorded = ds ++ es := by
    rw [hes, hds]
    rfl
  have hsingle (hclean : ∀ ts ∈ segments,
      noted (Program.syntaxMistakes names (ts ++ [ends ts])) = []) (ts : List Token)
      (hts : ts ∈ segments) : ∃ i, itemsOf names (ts ++ [ends ts]) = [i] ∧
        i.entry?.isSome = writesEntry ts :=
    (h ts hts).exists_itemsOf (hends ts) (hclean ts hts)
  refine ⟨?_, fun hclean hone => ⟨hsingle hclean, ?_⟩⟩
  · rw [syntaxMistakes_eq hitems, hrecorded, noted_append, hes', List.append_nil, hnoted]
  · have hcount : entryCount (segments.flatMap fun ts => itemsOf names (ts ++ [ends ts])) = 1 :=
      (entryCount_flatMap (hsingle hclean)).trans hone
    have hds' : ds = [] := by
      refine hnone (hnoted.trans ?_) (by simp [hcount])
      exact List.flatMap_eq_nil_iff.mpr hclean
    have hu : u.recorded = [] := by
      rw [hrecorded, hds', hfirst (by omega)]
      rfl
    obtain ⟨f, hf⟩ := List.length_eq_one_iff.mp hcount
    simp only [Program.ofTokens, hitems, hu, hf]
    exact ⟨_, rfl, rfl, rfl, rfl, rfl⟩

/-- A global, an entry and a class with a property. -/
def threeItems : List (List Token) :=
  let kinds : List (List Kind) := [
    [.keyword .gwobaw, .identifier 0, .symbol .dash, .keyword .kun, .symbol .terminator],
    [.keyword .fwunc, .keyword .mainuwu, .symbol .dash, .keyword .san, .symbol .openParen,
      .symbol .closeParen, .symbol .doubleOpenBracket, .symbol .doubleCloseBracket],
    [.keyword .cwass, .classId 0, .symbol .openParen, .symbol .closeParen,
      .symbol .doubleOpenBracket, .identifier 1, .symbol .dash, .keyword .chan, .symbol .terminator,
      .symbol .doubleCloseBracket]]
  kinds.map fun ks => ks.map fun k => ⟨k, k.spelling, .point ⟨0, 0⟩⟩

theorem threeItems_isolated :
    (∀ ts ∈ threeItems, ItemText ts) ∧
      ∃ p, Program.ofTokens (threeItems.flatten ++ [endToken (.point ⟨0, 0⟩)]) .empty = .ok p ∧
        p.globals.length = 1 ∧ p.functions.length = 0 ∧ p.classes.length = 1 := by
  have hitems : ∀ ts ∈ threeItems, ItemText ts := by
    have htexts : ∀ ts ∈ threeItems, (∀ t ∈ ts, t.kind.isTrivia = false) ∧
        (∀ t ∈ ts, t.kind ≠ .endOfFile) ∧ (ts.head?.any fun t => Stream.beginsItem t.kind) ∧
        depthAfter? 0 ts = some 0 ∧ ∀ i (h : i < ts.length), 0 < i →
          depthAfter? 0 (ts.take i) = some 0 → Stream.beginsItem ts[i].kind = false := by
      decide +kernel
    intro ts hts
    obtain ⟨htrivia, hinside, hbegins, hnested, halone⟩ := htexts ts hts
    exact ⟨htrivia, hinside, hbegins, hnested, halone⟩
  obtain ⟨-, p, hp, hglobals, hfunctions, hclasses, -⟩ :=
    (Program.items_isolated .empty (fun _ => endToken (.point ⟨0, 0⟩)) (fun _ => rfl) hitems).2
      (by decide +kernel) (by decide +kernel)
  refine ⟨hitems, p, hp, ?_, ?_, ?_⟩
  · rw [hglobals]
    decide +kernel
  · rw [hfunctions]
    decide +kernel
  · rw [hclasses]
    decide +kernel

end Uwu
