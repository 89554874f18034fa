import Uwu.Proofs.Lexeme.Run
import Uwu.Proofs.Lexeme.Shape
import Uwu.Proofs.Stages

/-! Whether the parts of interpolated strings close what they open. A reader remembers one open
interpolation only, the last one: a string that starts another one inside of it makes it forget
those around. -/

namespace Uwu

/-! ### Open interpolations -/

/-- One token on, where `stack` holds the lines of the interpolations that are open, the innermost
first, and `start` adds another one. A part that closes needs one that is open on its line; at the
end of a line none is left open. -/
def Token.interpolate (start : Nat → List Nat → List Nat) (stack : List Nat) (t : Token) :
    Option (List Nat) :=
  match t.kind with
  | .stringPartStart => some (start t.span.start.line stack)
  | .stringPartMid => if stack.head? = some t.span.start.line then some stack else none
  | .stringPartEnd => if stack.head? = some t.span.start.line then some stack.tail else none
  | .newline | .endOfFile => if stack = [] then some [] else none
  | _ => some stack

/-- The interpolations that are open behind tokens. -/
def openAfter (start : Nat → List Nat → List Nat) (stack : List Nat) (ts : List Token) :
    Option (List Nat) :=
  ts.foldlM (Token.interpolate start) stack

/-- Every start is closed on its line, and nothing else is. -/
def Balanced (ts : List Token) : Prop :=
  openAfter List.cons [] ts = some []

instance (ts : List Token) : Decidable (Balanced ts) :=
  inferInstanceAs (Decidable (_ = _))

/-- To remember the last start only. -/
def onlyLast (line : Nat) (_ : List Nat) : List Nat :=
  [line]

/-- A start stands before the next end. -/
def Reopens (ts : List Token) : Prop :=
  ∃ inner t behind, ts = inner ++ t :: behind ∧ t.kind = .stringPartStart ∧
    ∀ u ∈ inner, u.kind ≠ .stringPartEnd

/-- A start stands between a start and the next end. -/
def Nested (ts : List Token) : Prop :=
  ∃ before t behind, ts = before ++ t :: behind ∧ t.kind = .stringPartStart ∧ Reopens behind

section

variable {start : Nat → List Nat → List Nat} {stack : List Nat} {t : Token} {ts us : List Token}

theorem openAfter_cons :
    openAfter start stack (t :: ts) =
      (t.interpolate start stack).bind fun stack => openAfter start stack ts :=
  List.foldlM_cons

theorem openAfter_append :
    openAfter start stack (ts ++ us) =
      (openAfter start stack ts).bind fun stack => openAfter start stack us :=
  List.foldlM_append

theorem reopens_cons :
    Reopens (t :: ts) ↔ t.kind = .stringPartStart ∨ (t.kind ≠ .stringPartEnd ∧ Reopens ts) := by
  constructor
  · rintro ⟨inner, u, behind, heq, hu, hinner⟩
    cases inner with
    | nil =>
      cases heq
      exact .inl hu
    | cons v inner =>
      cases heq
      obtain ⟨hv, hinner⟩ := List.forall_mem_cons.1 hinner
      exact .inr ⟨hv, inner, u, behind, rfl, hu, hinner⟩
  · rintro (ht | ⟨ht, inner, u, behind, rfl, hu, hinner⟩)
    · exact ⟨[], t, ts, rfl, ht, List.forall_mem_nil _⟩
    · exact ⟨t :: inner, u, behind, rfl, hu, List.forall_mem_cons.2 ⟨ht, hinner⟩⟩

theorem not_reopens_nil : ¬Reopens [] := by
  rintro ⟨inner, u, behind, heq, -⟩
  cases inner <;> cases heq

theorem nested_cons :
    Nested (t :: ts) ↔ (t.kind = .stringPartStart ∧ Reopens ts) ∨ Nested ts := by
  constructor
  · rintro ⟨before, u, behind, heq, hu, hre⟩
    cases before with
    | nil =>
      cases heq
      exact .inl ⟨hu, hre⟩
    | cons v before =>
      cases heq
      exact .inr ⟨before, u, behind, rfl, hu, hre⟩
  · rintro (⟨ht, hre⟩ | ⟨before, u, behind, rfl, hu, hre⟩)
    · exact ⟨[], t, ts, rfl, ht, hre⟩
    · exact ⟨t :: before, u, behind, rfl, hu, hre⟩

theorem not_nested_nil : ¬Nested [] := by
  rintro ⟨before, u, behind, heq, -⟩
  cases before <;> cases heq

end

/-- What is forgotten is never closed. -/
theorem openAfter_ne_nil {last rest : List Nat} {ts : List Token}
    (h : openAfter onlyLast last ts = some []) (hrest : rest ≠ []) :
    openAfter List.cons (last ++ rest) ts ≠ some [] := by
  induction ts generalizing last rest with
  | nil =>
    cases h
    exact fun heq => hrest (Option.some.inj heq)
  | cons t ts ih =>
    rw [openAfter_cons] at h ⊢
    obtain ⟨last', ht, h⟩ := Option.bind_eq_some_iff.1 h
    unfold Token.interpolate at ht ⊢
    split at ht
    next hk =>
      cases ht
      exact ih h (List.append_ne_nil_of_right_ne_nil _ hrest)
    next =>
      split at ht
      next hhead =>
        cases ht
        rw [List.head?_append, hhead, Option.some_or, if_pos rfl]
        exact ih h hrest
      next => cases ht
    next =>
      split at ht
      next hhead =>
        cases ht
        have hne : last ≠ [] := by
          rintro rfl
          cases hhead
        rw [List.head?_append, hhead, Option.some_or, if_pos rfl, Option.bind_some,
          List.tail_append_of_ne_nil hne]
        exact ih h hrest
      next => cases ht
    case h_4 | h_5 =>
      split at ht
      next hnil =>
        rw [if_neg (List.append_ne_nil_of_right_ne_nil _ hrest)]
        rintro ⟨⟩
      next => cases ht
    next =>
      cases ht
      exact ih h hrest

/-- Where one start at most is remembered, no other one is forgotten exactly if none is nested. -/
theorem openAfter_cons_iff {last : List Nat} {ts : List Token} (hlast : last.length ≤ 1)
    (h : openAfter onlyLast last ts = some []) :
    openAfter List.cons last ts = some [] ↔ ¬Nested ts ∧ (last ≠ [] → ¬Reopens ts) := by
  induction ts generalizing last with
  | nil => exact iff_of_true h ⟨not_nested_nil, fun _ => not_reopens_nil⟩
  | cons t ts ih =>
    rw [openAfter_cons] at h ⊢
    rw [nested_cons, reopens_cons]
    obtain ⟨last', ht, h⟩ := Option.bind_eq_some_iff.1 h
    unfold Token.interpolate at ht ⊢
    split at ht
    next hk =>
      cases ht
      cases last with
      | nil =>
        have hone : (onlyLast t.span.start.line []).length ≤ 1 := Nat.le_refl 1
        rw [Option.bind_some, show [t.span.start.line] = onlyLast t.span.start.line [] from rfl,
          ih hone h]
        simp [hk, onlyLast, and_comm]
      | cons n last =>
        refine iff_of_false (openAfter_ne_nil h (List.cons_ne_nil _ _)) fun hno => ?_
        exact hno.2 (List.cons_ne_nil _ _) (.inl hk)
    next hk =>
      split at ht
      next hhead =>
        cases ht
        rw [if_pos hhead, Option.bind_some, ih hlast h]
        simp [hk]
      next => cases ht
    next hk =>
      split at ht
      next hhead =>
        cases ht
        have htail : last.tail = [] := List.eq_nil_of_length_eq_zero (by
          rw [List.length_tail]
          omega)
        have hzero : last.tail.length ≤ 1 := by rw [htail]; exact Nat.zero_le 1
        rw [if_pos hhead, Option.bind_some, ih hzero h, htail]
        simp [hk]
      next => cases ht
    case h_4 hk | h_5 hk =>
      split at ht
      next hnil =>
        cases ht
        have hzero : ([] : List Nat).length ≤ 1 := Nat.zero_le 1
        rw [if_pos hnil, Option.bind_some, ih hzero h]
        simp [hk, hnil]
      next => cases ht
    next hstart _ hend _ _ =>
      cases ht
      have hstart : t.kind ≠ .stringPartStart := hstart
      have hend : t.kind ≠ .stringPartEnd := hend
      rw [Option.bind_some, ih hlast h]
      simp [hstart, hend]

theorem balanced_iff_of_onlyLast {ts : List Token} (h : openAfter onlyLast [] ts = some []) :
    Balanced ts ↔ ¬Nested ts := by
  have hnone : ([] : List Nat).length ≤ 1 := Nat.zero_le 1
  rw [Balanced, openAfter_cons_iff hnone h]
  simp

/-! ### Readings -/

namespace Lexeme

/-- The line of the interpolation that is open, if one is. -/
def State.openOn (line : Nat) (st : State) : List Nat :=
  if st.interpolating then [line] else []

/-- The lexeme does not end in a newline. -/
def EndsSolid (text : List Char) (w : Nat) : Prop :=
  (text.take w).getLast? ≠ some '\n'

theorem endsSolid_takeWhile {p : Char → Bool} (hp : p '\n' = false) (text : List Char) :
    EndsSolid text (text.takeWhile p).length := by
  rw [EndsSolid, take_length_takeWhile]
  intro hlast
  have hchar := List.all_eq_true.1 List.all_takeWhile '\n' (List.mem_of_getLast? hlast)
  cases hp.symm.trans hchar

theorem endsSolid_of_isClosing {text : List Char} {w : Nat}
    (h : ∀ x ∈ (text.take w).getLast?, isClosing x) : EndsSolid text w := by
  intro hlast
  cases h _ hlast

/-- Kinds that open or close an interpolation, or let none stay open. -/
def interpolates : Kind → Bool
  | .stringPartStart | .stringPartMid | .stringPartEnd | .newline | .endOfFile => true
  | _ => false

theorem interpolate_of_not {start : Nat → List Nat → List Nat} {stack : List Nat} {t : Token}
    (h : interpolates t.kind = false) : t.interpolate start stack = some stack := by
  unfold Token.interpolate
  cases hk : t.kind <;> first | rfl | (rw [hk] at h; cases h)

/-- What an accepted lexeme on a line does to the flag, and how it ends. -/
structure Carries (line : Nat) (text : List Char) (st : State) (kind : Kind) (w : Nat)
    (st' : State) : Prop where
  part : ∀ t : Token, t.kind = kind → t.span.start.line = line →
    t.interpolate onlyLast (st.openOn line) = some (st'.openOn line)
  solid : EndsSolid text w

variable {line w : Nat} {text : List Char} {st st' : State} {kind : Kind} {c : Char}
  {cs : List Char}

theorem carries_of_not (hk : interpolates kind = false)
    (hst : st'.interpolating = st.interpolating) (hsolid : EndsSolid text w) :
    Carries line text st kind w st' where
  part t ht _ := by
    rw [interpolate_of_not (ht ▸ hk), State.openOn, State.openOn, hst]
  solid := hsolid

theorem carries_readNumber (h : readNumber text = .accepted kind w) :
    Carries line text st kind w st := by
  have hn : checkFollower (numeral text).1 (numeral text).2 text = .accepted kind w := h
  obtain ⟨rfl, rfl, -⟩ := checkFollower_eq_accepted hn
  refine carries_of_not ?_ rfl (endsSolid_of_isClosing fun x hx => ?_)
  · rcases numeral_kind text with hk | hk <;> rw [hk] <;> rfl
  · exact isClosing_of_digit (numeral_chars _ x (List.mem_of_getLast? hx))

theorem carries_readWord {before : List (List Char)}
    (h : readWord before text st = (.accepted kind w, st')) :
    Carries line text st kind w st' := by
  simp only [readWord] at h
  split at h
  next k v hk =>
    obtain ⟨hr, rfl⟩ := Prod.mk.inj h
    obtain ⟨rfl, rfl, -⟩ := checkFollower_eq_accepted hr
    obtain ⟨hne, hlast⟩ := doubleKeyword?_eq_some hk
    refine carries_of_not rfl rfl (endsSolid_of_isClosing fun x hx => getLast?_keyword hne x ?_)
    rwa [hlast] at hx
  next =>
    have hsolid := endsSolid_takeWhile (p := isWordChar) rfl text
    split at h
    next k hk =>
      obtain ⟨hr, rfl⟩ := Prod.mk.inj h
      obtain ⟨rfl, rfl, -⟩ := checkFollower_eq_accepted hr
      exact carries_of_not rfl rfl hsolid
    next =>
      rw [readName] at h
      split at h
      next => cases (Prod.mk.inj h).1
      next =>
        obtain ⟨⟨names', k⟩, hn⟩ : ∃ q, nameKind st.names (afterClassKeyword before)
          (String.ofList (text.takeWhile isWordChar)) = q := ⟨_, rfl⟩
        have hname := (nameKind_eq hn).1
        rw [hn] at h
        obtain ⟨hr, rfl⟩ := Prod.mk.inj h
        obtain ⟨rfl, rfl, -⟩ := checkFollower_eq_accepted hr
        refine carries_of_not ?_ rfl hsolid
        cases kind <;> first | rfl | cases hname

theorem endsSolid_segment {n : Nat} {e : Char} (h : segmentEnd? 0 cs = some (n, e)) :
    EndsSolid (c :: cs) (n + 2) := by
  rw [EndsSolid, getLast?_segment h]
  rintro ⟨⟩
  cases (segmentEnd?_eq_some h).2

/-- A start forgets the one that is open. -/
theorem carries_readString (h : readString (c :: cs) st = (.accepted kind w, st')) :
    Carries line (c :: cs) st kind w st' := by
  simp only [readString, List.tail_cons] at h
  split at h
  next hend =>
    obtain ⟨hr, rfl⟩ := Prod.mk.inj h
    obtain ⟨rfl, rfl, -⟩ := checkFollower_eq_accepted hr
    exact carries_of_not rfl rfl (endsSolid_segment hend)
  next hend =>
    obtain ⟨hr, rfl⟩ := Prod.mk.inj h
    obtain ⟨rfl, rfl, -⟩ := checkFollower_eq_accepted hr
    refine ⟨fun t hk hline => ?_, endsSolid_segment hend⟩
    rw [Token.interpolate, hk, hline]
    rfl
  next => cases (Prod.mk.inj h).1

theorem carries_readStringPart (hst : st.interpolating)
    (h : readStringPart (c :: cs) st = (.accepted kind w, st')) :
    Carries line (c :: cs) st kind w st' := by
  have hopen : st.openOn line = [line] := if_pos hst
  simp only [readStringPart, List.tail_cons] at h
  split at h
  next hend =>
    obtain ⟨hr, rfl⟩ := Prod.mk.inj h
    obtain ⟨rfl, rfl, -⟩ := checkFollower_eq_accepted hr
    refine ⟨fun t hk hline => ?_, endsSolid_segment hend⟩
    rw [Token.interpolate, hk, hline, hopen]
    exact if_pos rfl
  next hend =>
    obtain ⟨hr, rfl⟩ := Prod.mk.inj h
    obtain ⟨rfl, rfl, -⟩ := checkFollower_eq_accepted hr
    refine ⟨fun t hk hline => ?_, endsSolid_segment hend⟩
    rw [Token.interpolate, hk, hline, hopen]
    exact if_pos rfl
  next => cases (Prod.mk.inj h).1

theorem carries_readSymbol (h : readSymbol text st = (.accepted kind w, st')) :
    Carries line text st kind w st' := by
  rw [readSymbol] at h
  split at h
  next =>
    obtain ⟨hr, rfl⟩ := Prod.mk.inj h
    obtain ⟨rfl, rfl, -⟩ := checkFollower_eq_accepted hr
    exact carries_of_not rfl rfl (endsSolid_takeWhile rfl text)
  next =>
    split at h
    next s hs =>
      obtain ⟨hr, rfl⟩ := Prod.mk.inj h
      obtain ⟨rfl, rfl, -⟩ := checkFollower_eq_accepted hr
      refine carries_of_not rfl rfl (endsSolid_of_isClosing ?_)
      rw [symbolAt?_eq_some hs]
      exact fun x hx => (getLast?_spelling s x hx).1
    next => cases (Prod.mk.inj h).1

theorem carries_read {before : List (List Char)} (hc : c ≠ '\n')
    (h : read before c cs st = (.accepted kind w, st')) : Carries line (c :: cs) st kind w st' := by
  simp only [read, if_neg hc] at h
  split at h
  next =>
    obtain ⟨hr, rfl⟩ := Prod.mk.inj h
    obtain ⟨rfl, rfl, -⟩ := checkFollower_eq_accepted hr
    exact carries_of_not rfl rfl (endsSolid_takeWhile rfl _)
  next =>
    split at h
    next => exact carries_readString h
    next =>
      split at h
      next hst => exact carries_readStringPart hst.2 h
      next =>
        split at h
        next =>
          obtain ⟨hr, rfl⟩ := Prod.mk.inj h
          exact carries_readNumber hr
        next =>
          split at h
          next => exact carries_readWord h
          next => exact carries_readSymbol h

/-- A newline is a lexeme of its own, and lets nothing stay open. -/
theorem eq_of_read_newline {before : List (List Char)}
    (h : read before '\n' cs st = (.accepted kind w, st')) :
    kind = .newline ∧ st'.interpolating = false := by
  have hkind := read_newline before cs st
  rw [h] at hkind
  cases hkind
  rw [read, if_pos rfl] at h
  obtain ⟨-, rfl⟩ := Prod.mk.inj h
  exact ⟨rfl, rfl⟩

/-! ### Lines -/

/-- The lexemes of a line without a mistake carry the flag from one to the next. -/
theorem openAfter_linePieces {n : Nat} {earlier : List (List Char)} (text : List Char) (skip : Nat)
    (passed : List Char) (st : State)
    (hd : (linePieces n earlier skip passed text st).1.filterMap Piece.diagnostic? = []) :
    openAfter onlyLast (st.openOn n)
        ((linePieces n earlier skip passed text st).1.filterMap Piece.token?) =
      some ((linePieces n earlier skip passed text st).2.openOn n) := by
  induction text generalizing skip passed st with
  | nil => rfl
  | cons c cs ih =>
    cases skip with
    | succ skip => exact ih skip (c :: passed) st hd
    | zero =>
      obtain ⟨kind, w, st', hr, -, hopen, heq, hd⟩ := exists_accepted hd
      have hpart (t : Token) (hk : t.kind = kind) (hline : t.span.start.line = n) :
          t.interpolate onlyLast (st.openOn n) = some (st'.openOn n) := by
        by_cases hc : c = '\n'
        · subst hc
          obtain ⟨rfl, hst'⟩ := eq_of_read_newline hr
          have hst : st.openOn n = [] := if_neg fun hst => hopen ⟨rfl, hst⟩
          rw [Token.interpolate, hk, hst, State.openOn, hst']
          rfl
        · exact (carries_read hc hr).part t hk hline
      rw [heq, List.filterMap_cons, Piece.token?, openAfter_cons, hpart _ rfl rfl]
      exact ih w (c :: passed) st' hd

theorem linePieces_of_length_le {n : Nat} {earlier : List (List Char)} {text : List Char}
    {skip : Nat} (passed : List Char) (h : text.length ≤ skip) :
    linePieces n earlier skip passed text st = ([], st) := by
  induction text generalizing skip passed with
  | nil => rfl
  | cons c cs ih =>
    cases skip with
    | zero => cases h
    | succ skip => exact ih (c :: passed) (Nat.le_of_succ_le_succ h)

/-- At the end of a line that a newline ends, none is open. -/
theorem interpolating_linePieces {n : Nat} {earlier : List (List Char)} (text : List Char)
    (skip : Nat) (passed : List Char) (st : State)
    (hd : (linePieces n earlier skip passed text st).1.filterMap Piece.diagnostic? = [])
    (hskip : skip < text.length) (hnewline : text.getLast? = some '\n') :
    (linePieces n earlier skip passed text st).2.interpolating = false := by
  induction text generalizing skip passed st with
  | nil => cases hskip
  | cons c cs ih =>
    have hbehind (hne : cs ≠ []) : cs.getLast? = some '\n' := by
      rwa [List.getLast?_cons_of_ne_nil hne] at hnewline
    cases skip with
    | succ skip =>
      have hlt : skip < cs.length := Nat.lt_of_succ_lt_succ hskip
      exact ih skip (c :: passed) st hd hlt (hbehind (List.ne_nil_of_length_pos (by omega)))
    | zero =>
      obtain ⟨kind, w, st', hr, hle, -, heq, hd⟩ := exists_accepted hd
      rw [heq]
      by_cases hlt : w < cs.length
      · exact ih w (c :: passed) st' hd hlt (hbehind (List.ne_nil_of_length_pos (by omega)))
      · -- The last lexeme is the newline.
        have hc : c = '\n' := Decidable.byContradiction fun hc => by
          have hcarries : Carries n (c :: cs) st kind (w + 1) st' := carries_read hc hr
          refine hcarries.solid ?_
          rwa [List.take_of_length_le (by rw [List.length_cons]; omega)]
        subst hc
        rw [linePieces_of_length_le _ (Nat.le_of_not_lt hlt)]
        exact (eq_of_read_newline hr).2

/-! ### Documents -/

/-- Every line but the last ends in a newline. -/
def Terminated : Document → Prop
  | [] | [_] => True
  | l :: l' :: ls => l.getLast? = some '\n' ∧ Terminated (l' :: ls)

theorem Terminated.tail {l : List Char} {ls : Document} (h : Terminated (l :: ls)) :
    Terminated ls := by
  cases ls with
  | nil => trivial
  | cons => exact h.2

theorem openAfter_pieces {n : Nat} {earlier : List (List Char)} {ls : Document} {st : State}
    (hls : Terminated ls) (hd : (pieces n earlier ls st).1.filterMap Piece.diagnostic? = [])
    (hst : st.interpolating = false) (hlast : (pieces n earlier ls st).2.interpolating = false) :
    openAfter onlyLast [] ((pieces n earlier ls st).1.filterMap Piece.token?) = some [] := by
  induction ls generalizing n earlier st with
  | nil => rfl
  | cons l ls ih =>
    have hnone {st : State} (h : st.interpolating = false) : st.openOn n = [] :=
      if_neg (Bool.not_eq_true _ ▸ h)
    simp only [pieces, List.filterMap_append, List.append_eq_nil_iff] at hd hlast ⊢
    have hline := openAfter_linePieces l 0 [] st hd.1
    have hbetween : (linePieces n earlier 0 [] l st).2.interpolating = false := by
      cases ls with
      | nil => exact hlast
      | cons =>
        refine interpolating_linePieces l 0 [] st hd.1 (List.length_pos_iff.2 ?_) hls.1
        rintro rfl
        cases hls.1
    rw [hnone hst, hnone hbetween] at hline
    rw [openAfter_append, hline]
    exact ih hls.tail hd.2 hbetween hlast

theorem terminated_split (cs : List Char) : Terminated (Document.split cs) := by
  induction cs with
  | nil => trivial
  | cons c cs ih =>
    rw [Document.split]
    split
    next hc =>
      subst hc
      cases hs : Document.split cs with
      | nil => trivial
      | cons l ls => exact ⟨rfl, hs ▸ ih⟩
    next =>
      cases hs : Document.split cs with
      | nil => trivial
      | cons l ls =>
        rw [hs] at ih
        cases ls with
        | nil => trivial
        | cons l' ls =>
          refine ⟨?_, ih.2⟩
          rw [List.getLast?_cons, ih.1]
          rfl

end Lexeme

theorem interpolate_reclassify (start : Nat → List Nat → List Nat) (stack : List Nat)
    (names : Names) (t : Token) :
    (t.reclassify names).interpolate start stack = t.interpolate start stack := by
  rw [Token.reclassify]
  split
  next id hk =>
    have hplain : t.interpolate start stack = some stack :=
      Lexeme.interpolate_of_not (by rw [hk]; rfl)
    rw [hplain]
    split
    next => rfl
    next => exact hplain
  next => rfl

namespace Lexed

/-- In a text without mistakes every part but a start closes the last interpolation that is open, on
its line, and none stays open behind the last one. -/
theorem openAfter_ofLines {source : String} {names : Names}
    (h : (ofLines (splitLines source) names).diagnostics = []) :
    openAfter onlyLast [] (ofLines (splitLines source) names).tokens = some [] := by
  rw [diagnostics_ofLines, List.append_eq_nil_iff] at h
  obtain ⟨hpieces, hend⟩ := h
  have hlast : (pieces (splitLines source) names).2.interpolating = false := by
    rw [← Bool.not_eq_true]
    intro hopen
    rw [if_pos hopen] at hend
    cases hend
  have hls : Lexeme.Terminated (Document.ofStrings (splitLines source)) := by
    rw [Document.ofStrings_splitLines]
    exact Lexeme.terminated_split _
  have htokens := Lexeme.openAfter_pieces hls hpieces rfl hlast
  rw [tokens_ofLines, openAfter_append, openAfter, List.foldlM_map]
  simp only [interpolate_reclassify]
  change (openAfter onlyLast [] _).bind _ = _
  rw [pieces, htokens]
  rfl

/-- In a text without mistakes the interpolations are balanced exactly if none is nested in another
one. Nested or not, every part that ends or goes on with one has it open on its line. -/
theorem balanced_iff (source : String) (names : Names)
    (h : (ofLines (splitLines source) names).diagnostics = []) :
    openAfter onlyLast [] (ofLines (splitLines source) names).tokens = some [] ∧
      (Balanced (ofLines (splitLines source) names).tokens ↔
        ¬Nested (ofLines (splitLines source) names).tokens) :=
  have hlast := openAfter_ofLines h
  ⟨hlast, balanced_iff_of_onlyLast hlast⟩

/-- A string with two interpolations, one of them with a string in it. -/
def stringInside : String :=
  "x = \"a |y & \"b\"| c |z[0]| d\"~\n"

theorem stringInside_balanced :
    (ofLines (splitLines stringInside) .empty).diagnostics = [] ∧
      Balanced (ofLines (splitLines stringInside) .empty).tokens ∧
      ¬Nested (ofLines (splitLines stringInside) .empty).tokens := by
  have hs : stringInside.toList = _ := toList_of_eq rfl
  have hread : (ofLines (splitLines stringInside) .empty).diagnostics = [] ∧
      Balanced (ofLines (splitLines stringInside) .empty).tokens := by
    rw [ofLines_splitLines hs]
    decide +kernel
  exact ⟨hread.1, hread.2, (balanced_iff _ _ hread.1).2.1 hread.2⟩

/-- A string that starts an interpolation inside of another one, which nothing closes. -/
def startInside : String :=
  "\"a |\"b |c| d\"~\n"

theorem startInside_notBalanced :
    (ofLines (splitLines startInside) .empty).diagnostics = [] ∧
      ¬Balanced (ofLines (splitLines startInside) .empty).tokens := by
  have hs : startInside.toList = _ := toList_of_eq rfl
  rw [ofLines_splitLines hs]
  decide +kernel

end Lexed

end Uwu
