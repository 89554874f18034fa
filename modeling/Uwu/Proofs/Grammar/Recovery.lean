import Uwu.Proofs.Grammar.Progress

/-! A broken statement or member leaves the blocks around it alone: a block ends at the bracket
that matches the one it begins with, whatever stands between the two. -/

namespace Uwu.Grammar

/-- The tokens behind the bracket that closes a block, from `depth` blocks inside of it; none if the
end comes first. -/
def afterBlock : (depth : Nat) → List Token → Option (List Token)
  | _, [] => none
  | depth, t :: ts =>
    match t.kind with
    | .endOfFile => none
    | .symbol .doubleOpenBracket => afterBlock (depth + 1) ts
    | .symbol .doubleCloseBracket => if depth = 0 then some ts else afterBlock (depth - 1) ts
    | _ => afterBlock depth ts

section Brackets

variable {t : Token} {ts rest : List Token} {depth : Nat}

theorem afterBlock_plain (h : isPlain t.kind) : afterBlock depth (t :: ts) = afterBlock depth ts := by
  obtain ⟨he, ho, hc⟩ := isPlain_iff.mp h
  rw [afterBlock]
  split
  next hk => exact absurd hk he
  next hk => exact absurd hk ho
  next hk => exact absurd hk hc
  next => rfl

theorem afterBlock_open (h : t.kind = .symbol .doubleOpenBracket) :
    afterBlock depth (t :: ts) = afterBlock (depth + 1) ts := by
  rw [afterBlock, h]

theorem afterBlock_close (h : t.kind = .symbol .doubleCloseBracket) :
    afterBlock (depth + 1) (t :: ts) = afterBlock depth ts := by
  simp [afterBlock, h]

theorem afterBlock_end (h : t.kind = .symbol .doubleCloseBracket) :
    afterBlock 0 (t :: ts) = some ts := by
  simp [afterBlock, h]

/-- A way out of several blocks first leads out of the inner ones. -/
theorem afterBlock_add (inner outer : Nat) (ts : List Token) :
    afterBlock (outer + inner + 1) ts = (afterBlock inner ts).bind (afterBlock outer) := by
  induction ts generalizing inner with
  | nil => rfl
  | cons t ts ih =>
    rw [afterBlock, afterBlock]
    split
    next => rfl
    next => exact ih (inner + 1)
    next =>
      cases inner with
      | zero => rfl
      | succ inner => exact ih inner
    next => exact ih inner

/-- Where a block begins inside of another one, both are closed. -/
theorem afterBlock_of_open (ho : t.kind = .symbol .doubleOpenBracket)
    (h : afterBlock 0 (t :: ts) = some rest) :
    ∃ mid, afterBlock 0 ts = some mid ∧ afterBlock 0 mid = some rest := by
  rw [afterBlock_open ho] at h
  have hadd := afterBlock_add 0 0 ts
  rw [h] at hadd
  exact Option.bind_eq_some_iff.mp hadd.symm

end Brackets

/-! ### Skipping a statement -/

section Skip

variable {stop previous : Span} {depth : Nat} {ts rest : List Token}

theorem skipStatementFrom_suffix :
    (Stream.skipStatementFrom stop depth previous ts).tokens <:+ ts := by
  fun_induction Stream.skipStatementFrom stop depth previous ts with
  | case1 | case2 | case6 => exact List.suffix_rfl
  | case3 | case7 => exact List.suffix_cons _ _
  | case4 _ _ _ _ _ _ ih | case5 _ _ _ _ _ ih | case8 _ _ _ _ _ _ ih | case9 _ _ _ _ _ _ _ _ ih =>
    exact ih.trans (List.suffix_cons _ _)

theorem skipStatement_suffix (t u : State) :
    (skipStatement t u).stream.tokens <:+ u.stream.tokens :=
  skipStatementFrom_suffix

theorem skipItemFrom_suffix :
    (Stream.skipItemFrom stop depth previous ts).tokens <:+ ts := by
  fun_induction Stream.skipItemFrom stop depth previous ts with
  | case1 | case2 => exact List.suffix_rfl
  | case3 _ _ _ _ _ _ ih | case4 _ _ _ _ _ _ ih | case5 _ _ _ _ _ _ _ ih =>
    exact ih.trans (List.suffix_cons _ _)

theorem skipItem_suffix (t u : State) : (skipItem t u).stream.tokens <:+ u.stream.tokens := by
  simp only [skipItem]
  split
  next =>
    have htail : u.stream.skipItem.advance.tokens = u.stream.skipItem.tokens.tail :=
      State.tokens_next { u with stream := u.stream.skipItem }
    rw [htail]
    exact (List.tail_suffix _).trans skipItemFrom_suffix
  next => exact skipItemFrom_suffix

/-- Inside of a block a token at least is skipped. -/
theorem skipStatementFrom_suffix_tail {t : Token} (h : insideBlock t.kind) :
    (Stream.skipStatementFrom stop 0 previous (t :: ts)).tokens <:+ ts := by
  unfold Stream.skipStatementFrom
  split
  next hk => simp [hk, insideBlock] at h
  next => exact List.suffix_rfl
  next => exact skipStatementFrom_suffix
  next hk => simp [hk, insideBlock] at h
  next => exact skipStatementFrom_suffix

/-- A skip goes past no bracket that closes a block around it. -/
theorem afterBlock_skipStatementFrom (h : afterBlock depth ts = some rest) :
    afterBlock 0 (Stream.skipStatementFrom stop depth previous ts).tokens = some rest := by
  fun_induction Stream.skipStatementFrom stop depth previous ts with
  | case1 => cases h
  | case2 _ _ _ _ hk => simp [afterBlock, hk] at h
  | case3 _ _ _ hk => rwa [afterBlock_plain (by rw [hk]; rfl)] at h
  | case4 _ _ _ _ hk _ ih => exact ih (by rwa [afterBlock_plain (by rw [hk]; rfl)] at h)
  | case5 _ _ _ _ hk ih => exact ih (by rwa [afterBlock_open hk] at h)
  | case6 => exact h
  | case7 _ _ _ hk => rwa [afterBlock_close hk] at h
  | case8 _ _ _ hk _ _ ih => exact ih (by rwa [afterBlock_close hk] at h)
  | case9 _ _ _ _ he _ ho hc ih =>
    exact ih (by rwa [afterBlock_plain (isPlain_iff.mpr ⟨he, ho, hc⟩)] at h)

end Skip

/-! ### The journey inside of a block -/

/-- Tokens are read from the front, the loops around stay counted, and the way out of the block
stays as it is. -/
structure Keeps (s t : State) : Prop where
  loops : t.loops = s.loops
  suffix : t.stream.tokens <:+ s.stream.tokens
  closing {rest : List Token} :
    afterBlock 0 s.stream.tokens = some rest → afterBlock 0 t.stream.tokens = some rest

instance : Journey Keeps where
  refl _ := ⟨rfl, List.suffix_rfl, id⟩
  trans h h' := ⟨h'.loops.trans h.loops, h'.suffix.trans h.suffix, h'.closing ∘ h.closing⟩
  next {s} hs := by
    refine ⟨rfl, ?_, fun hc => ?_⟩
    · rw [s.tokens_next]
      exact List.tail_suffix _
    · rwa [State.tokens_eq_cons (isPlain_iff.mp hs).1, afterBlock_plain hs] at hc
  record _ _ := ⟨rfl, List.suffix_rfl, id⟩
  insideLoop h := ⟨by simp [h.loops], h.suffix, h.closing⟩

/-- Where no item can follow, the block closes. -/
theorem next_of_afterBlock {s : State} {rest : List Token} (hs : ¬ insideBlock s.kind)
    (h : afterBlock 0 s.stream.tokens = some rest) :
    s.kind = .symbol .doubleCloseBracket ∧ s.next.stream.tokens = rest := by
  have he : s.kind ≠ .endOfFile := by
    intro he
    cases ht : s.stream.tokens with
    | nil => simp [ht, afterBlock] at h
    | cons t ts =>
      have hk : t.kind = .endOfFile := by simpa [State.kind, Stream.current, ht] using he
      simp [ht, afterBlock, hk] at h
  have hc : s.kind = .symbol .doubleCloseBracket := by simpa [insideBlock, he] using hs
  rw [State.tokens_eq_cons he, afterBlock_end hc] at h
  exact ⟨hc, Option.some.inj h⟩

section Blocks

variable {α : Type} {item : Parse α} {s : State} (hitem : ∀ t, Reads Keeps 1 item t)
include hitem

/-- A round of a block takes a token, be its item broken or not. -/
theorem outcome_recovering_item (h : insideBlock s.kind) :
    Outcome (recovering item skipStatement) s
      (fun _ t => Keeps s t ∧ t.stream.tokens.length < s.stream.tokens.length) fun _ => False := by
  refine outcome_recovering (Outcome.mono (hitem s) (fun _ _ ht => ht) fun t ht d => ?_)
  refine ⟨⟨ht.loops, skipStatementFrom_suffix.trans ht.suffix,
    fun hc => afterBlock_skipStatementFrom (ht.closing hc)⟩, ?_⟩
  cases Nat.lt_or_ge t.stream.tokens.length s.stream.tokens.length with
  | inl hlt => exact Nat.lt_of_le_of_lt skipStatementFrom_suffix.length_le hlt
  | inr hge =>
    -- A broken item that took nothing leaves a token that the skip takes.
    have hs : s.stream.tokens = s.stream.current :: s.next.stream.tokens :=
      State.tokens_eq_cons fun he => by simp [he, insideBlock] at h
    have hsame : t.stream.tokens = s.stream.tokens := ht.suffix.eq_of_length_le hge
    have hskip : (Stream.skipStatementFrom t.stream.stop 0 t.stream.previous
        t.stream.tokens).tokens <:+ s.next.stream.tokens := by
      rw [hsame, hs]
      exact skipStatementFrom_suffix_tail h
    rw [hs]
    exact Nat.lt_succ_of_le hskip.length_le

/-- The rounds of a block end where it ends. -/
theorem outcome_rounds {n : Nat} (hn : s.stream.tokens.length < n) :
    Outcome (upTo insideBlock (recovering item skipStatement) n) s
      (fun _ t => Keeps s t ∧ ¬ insideBlock t.kind) fun _ => False := by
  induction n generalizing s with
  | zero => exact absurd hn (Nat.not_lt_zero _)
  | succ n ih =>
    rw [upTo, outcome_bind, outcome_currentKind]
    split
    next h =>
      rw [outcome_bind]
      refine Outcome.mono (outcome_recovering_item hitem h) (fun x t ht => ?_) fun _ => id
      rw [outcome_bind]
      refine Outcome.mono (ih (by omega)) (fun xs u hu => ?_) fun _ => id
      exact ⟨Journey.trans ht.1 hu.1, hu.2⟩
    next h => exact ⟨Journey.refl s, h⟩

/-- The rounds of a block that is closed end at the bracket that closes it. -/
theorem outcome_many_recovering {rest : List Token} (h : afterBlock 0 s.stream.tokens = some rest) :
    Outcome (many insideBlock (recovering item skipStatement)) s
      (fun _ t => Keeps s t ∧ t.kind = .symbol .doubleCloseBracket ∧ t.next.stream.tokens = rest)
      fun _ => False := by
  rw [many, outcome_bind, outcome_bound]
  refine Outcome.mono (outcome_rounds hitem (Nat.lt_succ_self _)) (fun _ t ht => ?_) fun _ => id
  obtain ⟨hk, htail⟩ := next_of_afterBlock ht.2 (ht.1.closing h)
  exact ⟨ht.1, hk, htail⟩

end Blocks

section Statements

variable {s : State} {rest : List Token}

theorem outcome_blockOf {stmt : Parse Stmt} (hstmt : ∀ t, Reads Keeps 1 stmt t)
    (hs : s.kind = .symbol .doubleOpenBracket) :
    Outcome (blockOf stmt) s
      (fun _ u => ∃ t, Keeps s.next t ∧ t.kind = .symbol .doubleCloseBracket ∧ u = t.next)
      fun t => Keeps s.next t ∧ t.kind = .endOfFile := by
  rw [blockOf, outcome_bind, outcome_expectSymbol, if_pos hs, outcome_bind, many, outcome_bind,
    outcome_bound]
  refine Outcome.mono (outcome_rounds hstmt (Nat.lt_succ_self _)) (fun _ t ht => ?_) fun _ => False.elim
  rw [outcome_bind, outcome_expectSymbol]
  split
  next hc => exact ⟨t, ht.1, hc, rfl⟩
  next hc => exact ⟨ht.1, by simpa [insideBlock, hc] using ht.2⟩

theorem keeps_blockOf {stmt : Parse Stmt} (hstmt : ∀ t, Reads Keeps 1 stmt t) :
    Reads Keeps 1 (blockOf stmt) s := by
  cases Decidable.em (s.kind = .symbol .doubleOpenBracket) with
  | inr hs =>
    rw [Reads, blockOf, outcome_bind, outcome_expectSymbol, if_neg hs]
    exact Journey.refl s
  | inl hs =>
    have hopen : s.stream.tokens = s.stream.current :: s.next.stream.tokens :=
      State.tokens_eq_cons (by rw [hs]; simp)
    have hsuffix : s.next.stream.tokens <:+ s.stream.tokens := by
      rw [hopen]
      exact List.suffix_cons _ _
    refine Outcome.mono (outcome_blockOf hstmt hs) ?_ ?_
    · rintro _ _ ⟨t, ht, hc, rfl⟩
      have htail : t.next.stream.tokens <:+ s.next.stream.tokens := by
        rw [t.tokens_next]
        exact (List.tail_suffix _).trans ht.suffix
      refine ⟨⟨ht.loops, htail.trans hsuffix, fun hrest => ?_⟩, ?_⟩
      · rw [hopen] at hrest
        obtain ⟨mid, hmid, hrest⟩ := afterBlock_of_open hs hrest
        rwa [(next_of_afterBlock (by simp [insideBlock, hc]) (ht.closing hmid)).2]
      · rw [hopen, List.length_cons]
        exact Nat.succ_le_succ htail.length_le
    · rintro t ⟨ht, he⟩
      refine ⟨ht.loops, ht.suffix.trans hsuffix, fun hrest => ?_⟩
      rw [hopen] at hrest
      obtain ⟨mid, hmid, -⟩ := afterBlock_of_open hs hrest
      have hc := (next_of_afterBlock (by simp [insideBlock, he]) (ht.closing hmid)).1
      cases he.symm.trans hc

/-- A block that is closed is read to its end, and no further. -/
theorem outcome_blockOf_closed {stmt : Parse Stmt} (hstmt : ∀ t, Reads Keeps 1 stmt t)
    (hs : s.kind = .symbol .doubleOpenBracket)
    (h : afterBlock 0 s.next.stream.tokens = some rest) :
    Outcome (blockOf stmt) s (fun _ u => u.stream.tokens = rest ∧ u.loops = s.loops)
      fun _ => False := by
  refine Outcome.mono (outcome_blockOf hstmt hs) ?_ ?_
  · rintro _ _ ⟨t, ht, hc, rfl⟩
    exact ⟨(next_of_afterBlock (by simp [insideBlock, hc]) (ht.closing h)).2, ht.loops⟩
  · rintro t ⟨ht, he⟩
    have hc := (next_of_afterBlock (by simp [insideBlock, he]) (ht.closing h)).1
    cases he.symm.trans hc

variable (names : Names)

theorem keeps_stmtWithin (n : Nat) : Reads Keeps 1 (stmtWithin names n) s := by
  induction n generalizing s with
  | zero => exact reads_failNoStmt
  | succ n ih => exact reads_stmt names fun _ => keeps_blockOf fun _ => ih

theorem keeps_statement : Reads Keeps 1 (statement names) s :=
  reads_bound_bind.mpr (keeps_stmtWithin names _)

theorem keeps_classMember : Reads Keeps 1 (classMember names) s :=
  reads_classMember fun _ => keeps_blockOf fun _ => keeps_statement names

end Statements

/-! ### Places in a token list -/

/-- How far on the bracket stands that closes a block, from `depth` blocks inside of it. -/
def closer? : (depth : Nat) → List Token → Option Nat
  | _, [] => none
  | depth, t :: ts =>
    match t.kind with
    | .symbol .doubleOpenBracket => (closer? (depth + 1) ts).map (· + 1)
    | .symbol .doubleCloseBracket =>
      if depth = 0 then some 0 else (closer? (depth - 1) ts).map (· + 1)
    | _ => (closer? depth ts).map (· + 1)

/-- Where the block is closed that begins at `i`, if one does. Only brackets of blocks count. -/
def closing? (tokens : List Token) (i : Nat) : Option Nat :=
  match tokens.drop i with
  | [] => none
  | t :: ts =>
    if t.kind = .symbol .doubleOpenBracket then (closer? 0 ts).map (i + 1 + ·) else none

/-- A parser of `tokens` that stands at `i`. -/
def State.At (tokens : List Token) (i : Nat) (s : State) : Prop :=
  s.stream.tokens = (Stream.ofTokens tokens).tokens.drop i

section Places

variable {tokens ts ends : List Token} {depth k i m : Nat}

theorem closer?_ends (h : ∀ t ∈ ends, t.kind = .endOfFile) : closer? depth ends = none := by
  induction ends generalizing depth with
  | nil => rfl
  | cons t ts ih =>
    rw [List.forall_mem_cons] at h
    simp [closer?, h.1, ih h.2]

/-- Before the end the bracket that closes a block is the way out of it. -/
theorem afterBlock_of_closer? (hts : ∀ t ∈ ts, t.kind ≠ .endOfFile)
    (hends : ∀ t ∈ ends, t.kind = .endOfFile) (h : closer? depth (ts ++ ends) = some k) :
    k < ts.length ∧ afterBlock depth ts = some (ts.drop (k + 1)) := by
  induction ts generalizing depth k with
  | nil =>
    rw [List.nil_append, closer?_ends hends] at h
    cases h
  | cons t ts ih =>
    rw [List.forall_mem_cons] at hts
    have further {d : Nat} (hd : afterBlock depth (t :: ts) = afterBlock d ts)
        (hk : (closer? d (ts ++ ends)).map (· + 1) = some k) :
        k < ts.length + 1 ∧ afterBlock depth (t :: ts) = some (ts.drop k) := by
      obtain ⟨j, hj, rfl⟩ := Option.map_eq_some_iff.mp hk
      obtain ⟨hlt, ha⟩ := ih hts.2 hj
      exact ⟨by omega, hd.trans ha⟩
    rw [List.cons_append, closer?] at h
    rw [List.length_cons, List.drop_succ_cons]
    split at h
    next ho => exact further (afterBlock_open ho) h
    next hc =>
      cases depth with
      | zero =>
        cases h
        exact ⟨by omega, afterBlock_end hc⟩
      | succ depth => exact further (afterBlock_close hc) h
    next ho hc => exact further (afterBlock_plain (isPlain_iff.mpr ⟨hts.1, ho, hc⟩)) h

/-- Without trivia the tokens are read as they are, up to the end. -/
theorem exists_ends (htrivia : ∀ t ∈ tokens, t.kind.isTrivia = false)
    (hend : ∀ t ∈ tokens.dropLast, t.kind ≠ .endOfFile) :
    ∃ init ends, tokens = init ++ ends ∧ (Stream.ofTokens tokens).tokens = init ∧
      (∀ t ∈ init, t.kind ≠ .endOfFile) ∧ ∀ t ∈ ends, t.kind = .endOfFile := by
  have hfilter : tokens.filter (fun t => !t.kind.isTrivia) = tokens :=
    List.filter_eq_self.mpr fun t ht => by rw [htrivia t ht]; rfl
  simp only [Stream.ofTokens, hfilter]
  cases hl : tokens.getLast? with
  | none => exact ⟨[], [], by simp_all⟩
  | some last =>
    have hsplit : tokens = tokens.dropLast ++ [last] := by
      obtain ⟨init, rfl⟩ := List.getLast?_eq_some_iff.mp hl
      simp
    simp only
    split
    next hk => exact ⟨_, [last], hsplit, rfl, hend, by simpa using hk⟩
    next hk =>
      refine ⟨tokens, [], (List.append_nil _).symm, rfl, ?_, by simp⟩
      rw [hsplit]
      simpa [or_imp, forall_and] using ⟨hend, hk⟩

/-- The first token of a block and what is behind it. -/
theorem afterBlock_of_closing? {init : List Token} (hinit : ∀ t ∈ init, t.kind ≠ .endOfFile)
    (hends : ∀ t ∈ ends, t.kind = .endOfFile) (h : closing? (init ++ ends) i = some m) :
    m < init.length ∧ afterBlock 0 (init.drop (i + 1)) = some (init.drop (m + 1)) ∧
      ∃ t, init.drop i = t :: init.drop (i + 1) ∧ t.kind = .symbol .doubleOpenBracket := by
  unfold closing? at h
  split at h
  next => cases h
  next t ts hdrop =>
    split at h
    next hk =>
      obtain ⟨k, hk', rfl⟩ := Option.map_eq_some_iff.mp h
      have hlt : i < init.length := by
        refine Nat.lt_of_not_le fun hle => ?_
        rw [List.drop_append, List.drop_eq_nil_of_le hle, List.nil_append] at hdrop
        have ht : t ∈ ends := List.mem_of_mem_drop (hdrop ▸ List.mem_cons_self)
        cases (hends t ht).symm.trans hk
      rw [List.drop_append_of_le_length (Nat.le_of_lt hlt), List.drop_eq_getElem_cons hlt] at hdrop
      obtain ⟨rfl, rfl⟩ := List.cons.inj hdrop
      have hrest : ∀ t ∈ init.drop (i + 1), t.kind ≠ .endOfFile :=
        fun t ht => hinit t (List.mem_of_mem_drop ht)
      obtain ⟨hklt, hafter⟩ := afterBlock_of_closer? hrest hends hk'
      rw [List.length_drop] at hklt
      rw [List.drop_drop] at hafter
      exact ⟨by omega, hafter, _, List.drop_eq_getElem_cons hlt, hk⟩
    next => cases h

end Places

/-- Recovery is exact. Where the block that begins at `i` is closed at `m`, its parser succeeds and
stops behind `m`, and a class body that begins behind `i` stops at `m`, whatever stands between. -/
theorem recovery_exact (names : Names) {tokens : List Token} {i m : Nat}
    (htrivia : ∀ t ∈ tokens, t.kind.isTrivia = false)
    (hend : ∀ t ∈ tokens.dropLast, t.kind ≠ .endOfFile) (hm : closing? tokens i = some m) :
    (∀ s : State, s.At tokens i → ∃ b t,
      codeBlock names s = .ok b t ∧ t.At tokens (m + 1) ∧ t.loops = s.loops) ∧
    ∀ s : State, s.At tokens (i + 1) → ∃ members t,
      many insideBlock (recovering (classMember names) skipStatement) s = .ok members t ∧
        t.At tokens m ∧ t.loops = s.loops := by
  obtain ⟨init, ends, happend, hstream, hinit, hends⟩ := exists_ends htrivia hend
  rw [happend] at hm
  obtain ⟨hlt, hafter, first, hdrop, hopen⟩ := afterBlock_of_closing? hinit hends hm
  simp only [State.At, hstream]
  refine ⟨fun s hs => ?_, fun s hs => ?_⟩
  · rw [hdrop] at hs
    have hk : s.kind = .symbol .doubleOpenBracket := by
      rwa [State.kind, Stream.current, hs]
    refine (outcome_blockOf_closed (fun _ => keeps_statement names) hk ?_).exists_ok
    rwa [s.tokens_next, hs]
  · obtain ⟨members, t, hrun, ht, hc, hrest⟩ :=
      (outcome_many_recovering (fun _ => keeps_classMember names) (hs ▸ hafter)).exists_ok
    have hcons : t.stream.tokens = t.stream.current :: init.drop (m + 1) := by
      rw [← hrest]
      exact State.tokens_eq_cons (by rw [hc]; simp)
    have hlength : t.stream.tokens.length = init.length - m := by
      rw [hcons, List.length_cons, List.length_drop]
      omega
    have hsuffix : t.stream.tokens <:+ init := ht.suffix.trans (hs ▸ List.drop_suffix _ _)
    refine ⟨members, t, hrun, ?_, ht.loops⟩
    rw [List.suffix_iff_eq_drop.mp hsuffix, hlength]
    congr 1
    omega

/-- A block with a broken one inside, and a bracket too many behind it. -/
def brokenBlock : List Token :=
  let kinds : List Kind := [.symbol .doubleOpenBracket, .keyword .iwf, .symbol .doubleOpenBracket,
    .symbol .terminator, .symbol .doubleCloseBracket, .symbol .closeParen,
    .symbol .doubleCloseBracket, .symbol .doubleCloseBracket, .endOfFile]
  kinds.map fun k => ⟨k, k.spelling, .point ⟨0, 0⟩⟩

theorem brokenBlock_recovers : ∃ b t, codeBlock .empty (.ofTokens brokenBlock) = .ok b t ∧
    t.At brokenBlock 7 ∧ t.loops = 0 :=
  (recovery_exact .empty (by decide) (by decide)
    (by decide : closing? brokenBlock 0 = some 6)).1 (.ofTokens brokenBlock) rfl

end Uwu.Grammar
