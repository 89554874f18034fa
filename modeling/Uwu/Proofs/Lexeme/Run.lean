import Uwu.Proofs.Lexeme.Tiling

/-! Runs: how a document in which nothing is rejected is read, one lexeme after the other. -/

namespace Uwu

namespace Lexeme

/-- The text `rest` is read into tokens, nothing in it is rejected, and no string is open at the end
of a line. Texts are given line by line; of what is before, the lines are given backwards and the
line of the place comes first. -/
inductive Run : (before rest : List (List Char)) → State → List Token → State → Prop where
  | done {before : List (List Char)} {st : State} : Run before [] st [] st
  | wrap {before rest : List (List Char)} {st last : State} {ts : List Token}
      (behind : Run ([] :: before) rest st ts last) : Run before ([] :: rest) st ts last
  | token {passed : List Char} {earlier rest : List (List Char)} {c : Char} {cs : List Char}
      {st st' last : State} {t : Token} {w : Nat} {ts : List Token}
      (hread : read (passed :: earlier) c cs st = (.accepted t.kind w, st'))
      (hlexeme : t.lexeme.toList = (c :: cs).take w) (hopen : ¬(c = '\n' ∧ st.interpolating))
      (behind : Run ((((c :: cs).take w).reverse ++ passed) :: earlier)
        ((c :: cs).drop w :: rest) st' ts last) :
      Run (passed :: earlier) ((c :: cs) :: rest) st (t :: ts) last

/-- What a line without a mistake begins with: a lexeme, and if it is a newline, nothing is open. -/
theorem exists_accepted {n : Nat} {earlier : List (List Char)} {passed : List Char} {c : Char}
    {cs : List Char} {st : State}
    (hd : (linePieces n earlier 0 passed (c :: cs) st).1.filterMap Piece.diagnostic? = []) :
    ∃ kind w st', read (passed :: earlier) c cs st = (.accepted kind (w + 1), st') ∧
      w ≤ cs.length ∧ ¬(c = '\n' ∧ st.interpolating) ∧
      linePieces n earlier 0 passed (c :: cs) st =
        (.token ⟨kind, String.ofList ((c :: cs).take (w + 1)), .ofWidth ⟨n, passed.length⟩ (w + 1)⟩ ::
          (linePieces n earlier w (c :: passed) cs st').1,
        (linePieces n earlier w (c :: passed) cs st').2) ∧
      (linePieces n earlier w (c :: passed) cs st').1.filterMap Piece.diagnostic? = [] := by
  have hwithin := within_read (passed :: earlier) c cs st
  have hpos := hwithin.pos
  have hle := hwithin.le
  obtain ⟨⟨r, st'⟩, hr⟩ : ∃ q, read (passed :: earlier) c cs st = q := ⟨_, rfl⟩
  simp only [linePieces, hr] at hd hpos hle ⊢
  have hopen : ¬(c = '\n' ∧ st.interpolating = true) := by
    intro hopen
    simp [hopen, openString, Piece.diagnostic?] at hd
  rw [if_neg hopen] at hd ⊢
  cases r with
  | rejected cause w => cases hd
  | accepted kind w =>
    obtain ⟨v, rfl⟩ := Nat.exists_eq_succ_of_ne_zero (Nat.ne_of_gt hpos)
    exact ⟨kind, v, st', rfl, Nat.le_of_succ_le_succ hle, hopen, rfl, hd⟩

variable {rest : List (List Char)} {ts : List Token} {last : State}

/-- The run over a line, behind `skip` characters that belong to the piece before. -/
theorem run_linePieces {n : Nat} {earlier : List (List Char)} (text : List Char) (skip : Nat)
    (passed : List Char) (st : State) (hskip : skip ≤ text.length)
    (hd : (linePieces n earlier skip passed text st).1.filterMap Piece.diagnostic? = [])
    (behind : Run ([] :: (text.reverse ++ passed) :: earlier) rest
      (linePieces n earlier skip passed text st).2 ts last) :
    Run (((text.take skip).reverse ++ passed) :: earlier) (text.drop skip :: rest) st
      ((linePieces n earlier skip passed text st).1.filterMap Piece.token? ++ ts) last := by
  induction text generalizing skip passed st with
  | nil =>
    have hzero : skip = 0 := by simpa using hskip
    subst hzero
    exact .wrap behind
  | cons c cs ih =>
    have hpassed : (c :: cs).reverse ++ passed = cs.reverse ++ c :: passed := by simp
    rw [hpassed] at behind
    cases skip with
    | succ skip =>
      rw [List.take_succ_cons, List.reverse_cons, List.append_assoc, List.drop_succ_cons]
      exact ih skip (c :: passed) st (Nat.le_of_succ_le_succ hskip) hd behind
    | zero =>
      obtain ⟨kind, w, st', hr, hle, hopen, heq, hd⟩ := exists_accepted hd
      rw [heq] at behind ⊢
      refine .token hr String.toList_ofList hopen ?_
      rw [List.take_succ_cons, List.reverse_cons, List.append_assoc, List.drop_succ_cons]
      exact ih w (c :: passed) st' hle hd behind

theorem run_pieces {n : Nat} {earlier : List (List Char)} (ls : Document) (st : State)
    (hd : (pieces n earlier ls st).1.filterMap Piece.diagnostic? = []) :
    Run ([] :: earlier) ls st ((pieces n earlier ls st).1.filterMap Piece.token?)
      (pieces n earlier ls st).2 := by
  induction ls generalizing n earlier st with
  | nil => exact .done
  | cons l ls ih =>
    simp only [pieces, List.filterMap_append, List.append_eq_nil_iff] at hd ⊢
    refine run_linePieces l 0 [] st (Nat.zero_le _) hd.1 ?_
    rw [List.append_nil]
    exact ih _ hd.2

end Lexeme

/-- Lines without a mistake are read in one run. -/
theorem Lexed.exists_run {lines : List String} {names : Names}
    (h : (ofLines lines names).diagnostics = []) :
    ∃ ts last, Lexeme.Run [[]] (Document.ofStrings lines) (.initial names) ts last ∧
      (ofLines lines names).names = last.names ∧
      (ofLines lines names).tokens = ts.map (Token.reclassify last.names) ++
        [⟨.endOfFile, "", .point (Document.ofStrings lines).endPosition⟩] := by
  rw [diagnostics_ofLines, List.append_eq_nil_iff] at h
  exact ⟨_, _, Lexeme.run_pieces _ _ h.1, rfl, tokens_ofLines lines names⟩

end Uwu
