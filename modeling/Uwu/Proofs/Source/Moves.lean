import Mathlib.Order.Monotone.Basic
import Uwu.Proofs.Lexeme.Tiling

/-! Moves of a cursor are sums. A cursor has an offset, the number of characters before it; a step
forward adds one to it and a step back takes one away, whatever empty lines are between. -/

namespace Uwu

namespace Position

protected theorem lt_irrefl (p : Position) : ¬p < p := by
  rw [lt_def]
  omega

protected theorem not_lt_of_le {p q : Position} (h : p ≤ q) : ¬q < p := by
  rw [le_def] at h
  rw [lt_def]
  omega

protected theorem lt_trichotomy (p q : Position) : p < q ∨ p = q ∨ q < p := by
  obtain ⟨m, a⟩ := p
  obtain ⟨n, b⟩ := q
  simp only [lt_def, mk.injEq]
  omega

end Position

namespace Document

variable {d : Document} {p q : Position} {n : Nat} {l : List Char}

/-! ### Offsets -/

/-- The text from the beginning of the document to a place. -/
def textBefore (d : Document) (p : Position) : List Char :=
  (d.take p.line).flatten ++ (d[p.line]?.getD []).take p.column

/-- The number of characters before a place. -/
def offset (d : Document) (p : Position) : Nat :=
  (d.textBefore p).length

/-- The number of characters before a line. -/
def lineOffset (d : Document) (n : Nat) : Nat :=
  (d.take n).flatten.length

theorem textBefore_append_textFrom (d : Document) (p : Position) :
    d.textBefore p ++ d.textFrom p = d.flatten := by
  have hdrop : d.drop p.line = d[p.line]?.toList ++ d.drop (p.line + 1) := by
    cases h : d[p.line]? with
    | none =>
      have hle := List.getElem?_eq_none_iff.1 h
      simp [List.drop_eq_nil_iff.2 hle, List.drop_eq_nil_iff.2 (Nat.le_succ_of_le hle)]
    | some l =>
      obtain ⟨hlt, rfl⟩ := List.getElem?_eq_some_iff.1 h
      exact List.drop_eq_getElem_cons hlt
  have hline : d[p.line]?.getD [] = d[p.line]?.toList.flatten := by
    cases d[p.line]? <;> simp
  calc d.textBefore p ++ d.textFrom p
      = (d.take p.line).flatten ++ (d[p.line]?.getD [] ++ (d.drop (p.line + 1)).flatten) := by
        rw [textBefore, textFrom, List.append_assoc, ← List.append_assoc (List.take _ _),
          List.take_append_drop]
    _ = (d.take p.line ++ d.drop p.line).flatten := by
        rw [hline, ← List.flatten_append, ← hdrop, ← List.flatten_append]
    _ = d.flatten := by rw [List.take_append_drop]

theorem lineOffset_succ (hl : d[n]? = some l) :
    d.lineOffset (n + 1) = d.lineOffset n + l.length := by
  rw [lineOffset, List.take_add_one, hl, Option.toList_some, List.flatten_append,
    List.length_append, lineOffset, List.flatten_singleton]

theorem lineOffset_le_succ (d : Document) (n : Nat) : d.lineOffset n ≤ d.lineOffset (n + 1) := by
  rw [lineOffset, lineOffset, List.take_add_one, List.flatten_append, List.length_append]
  exact Nat.le_add_right _ _

theorem lineOffset_mono (d : Document) : Monotone d.lineOffset :=
  monotone_nat_of_le_succ d.lineOffset_le_succ

/-- Within its line a place is as far behind its beginning as its column says. -/
theorem offset_eq (hl : d[p.line]? = some l) (hc : p.column ≤ l.length) :
    d.offset p = d.lineOffset p.line + p.column := by
  rw [offset, textBefore, hl, Option.getD_some, List.length_append, List.length_take,
    Nat.min_eq_left hc, lineOffset]

/-! ### Where a cursor stands -/

theorem isSome_charAt? :
    (d.charAt? p).isSome ↔ ∃ l, d[p.line]? = some l ∧ p.column < l.length := by
  rw [charAt?]
  cases d[p.line]? <;> simp

/-- A character, or the place behind the last one. -/
def IsStop (d : Document) (p : Position) : Prop :=
  (d.charAt? p).isSome ∨ p = d.endPosition

theorem offset_endPosition (d : Document) : d.offset d.endPosition = d.flatten.length := by
  rw [offset, ← textBefore_append_textFrom d d.endPosition, List.length_append, endPosition_eq]
  have hnil : d.textFrom ⟨d.length - 1, (d[d.length - 1]?.getD []).length⟩ = [] := by
    rw [textFrom, List.drop_length, List.drop_eq_nil_iff.2 (by dsimp only; omega)]
    rfl
  rw [hnil, List.length_nil, Nat.add_zero]

theorem offset_lt_length (hp : (d.charAt? p).isSome) : d.offset p < d.flatten.length := by
  obtain ⟨l, hl, hc⟩ := isSome_charAt?.1 hp
  have hpos : 0 < (d.textFrom p).length := by
    rw [textFrom, hl, List.length_append, Option.getD_some, List.length_drop]
    omega
  rw [offset, ← textBefore_append_textFrom d p, List.length_append]
  omega

theorem IsStop.offset_le (hp : d.IsStop p) : d.offset p ≤ d.flatten.length := by
  rcases hp with hp | rfl
  · exact Nat.le_of_lt (offset_lt_length hp)
  · exact Nat.le_of_eq (offset_endPosition d)

theorem IsStop.offset_eq (hp : d.IsStop p) : d.offset p = d.lineOffset p.line + p.column := by
  rcases hp with hp | rfl
  · obtain ⟨l, hl, hc⟩ := isSome_charAt?.1 hp
    exact Document.offset_eq hl (Nat.le_of_lt hc)
  · rw [offset, textBefore, List.length_append, List.length_take, lineOffset]
    have hend : d.endPosition.column = (d[d.endPosition.line]?.getD []).length := by
      rw [endPosition_eq]
    rw [hend, Nat.min_self]

theorem IsStop.line_le (hp : d.IsStop p) : p.line ≤ d.length := by
  rcases hp with hp | rfl
  · obtain ⟨l, hl, -⟩ := isSome_charAt?.1 hp
    exact Nat.le_of_lt (List.getElem?_eq_some_iff.1 hl).1
  · rw [endPosition_eq]
    exact Nat.sub_le _ _

theorem IsStop.isSome_iff (hp : d.IsStop p) :
    (d.charAt? p).isSome ↔ d.offset p < d.flatten.length := by
  refine ⟨offset_lt_length, fun hlt => hp.resolve_right ?_⟩
  rintro rfl
  rw [offset_endPosition] at hlt
  exact Nat.lt_irrefl _ hlt

theorem atEnd_endPosition (d : Document) : d.atEnd d.endPosition := by
  rw [endPosition_eq, atEnd]
  simp only [Nat.le_refl, decide_true, Bool.and_true, Bool.or_eq_true, decide_eq_true_eq,
    beq_iff_eq]
  omega

theorem atEnd_eq_false (hp : (d.charAt? p).isSome) : d.atEnd p = false := by
  obtain ⟨l, hl, hc⟩ := isSome_charAt?.1 hp
  obtain ⟨hline, -⟩ := List.getElem?_eq_some_iff.1 hl
  simp only [atEnd, hl, Option.getD_some, Bool.or_eq_false_iff, decide_eq_false_iff_not,
    Bool.and_eq_false_iff]
  exact ⟨by omega, .inr (by omega)⟩

theorem IsStop.atEnd_iff (hp : d.IsStop p) : d.atEnd p ↔ d.offset p = d.flatten.length := by
  have hle := hp.offset_le
  rcases hp with hp | rfl
  · have hlt := offset_lt_length hp
    rw [atEnd_eq_false hp]
    refine iff_of_false Bool.false_ne_true (by omega)
  · exact iff_of_true (atEnd_endPosition d) (offset_endPosition d)

/-- Reading order is the order of the offsets. -/
theorem offset_lt_of_lt (hp : (d.charAt? p).isSome) (hq : d.IsStop q) (h : p < q) :
    d.offset p < d.offset q := by
  obtain ⟨l, hl, hc⟩ := isSome_charAt?.1 hp
  rw [IsStop.offset_eq (.inl hp), hq.offset_eq]
  rcases (Position.lt_def p q).1 h with hline | ⟨hline, hcolumn⟩
  · have hmono := d.lineOffset_mono hline
    rw [Nat.succ_eq_add_one, lineOffset_succ hl] at hmono
    omega
  · rw [hline]
    omega

theorem lt_endPosition_of_isSome (hp : (d.charAt? p).isSome) : p < d.endPosition := by
  obtain ⟨l, hl, hc⟩ := isSome_charAt?.1 hp
  exact lt_endPosition hl hc

theorem offset_lt_iff (hp : d.IsStop p) (hq : d.IsStop q) : p < q ↔ d.offset p < d.offset q := by
  have forward {p q : Position} (hp : d.IsStop p) (hq : d.IsStop q) (h : p < q) :
      d.offset p < d.offset q := by
    rcases hp with hp | rfl
    · exact offset_lt_of_lt hp hq h
    · rcases hq with hq | rfl
      · have hlt := lt_endPosition_of_isSome hq
        rw [Position.lt_def] at h hlt
        omega
      · exact absurd h (Position.lt_irrefl _)
  refine ⟨forward hp hq, fun hlt => ?_⟩
  rcases Position.lt_trichotomy p q with h | rfl | h
  · exact h
  · exact absurd hlt (Nat.lt_irrefl _)
  · exact absurd (forward hq hp h) (Nat.lt_asymm hlt)

/-- An offset belongs to one place only. -/
theorem eq_of_offset_eq (hp : d.IsStop p) (hq : d.IsStop q) (h : d.offset p = d.offset q) :
    p = q := by
  rcases Position.lt_trichotomy p q with hlt | heq | hlt
  · exact absurd h (Nat.ne_of_lt ((offset_lt_iff hp hq).1 hlt))
  · exact heq
  · exact absurd h (Nat.ne_of_gt ((offset_lt_iff hq hp).1 hlt))

/-! ### Steps forward -/

/-- A place that ran off its line is moved to a character or to the end, and no character is passed
over. -/
theorem isStop_wrap {ls : List (List Char)} {n c : Nat} (hls : d.drop n = ls) (hne : ls ≠ [])
    (hlast : ∀ l, ls = [l] → c ≤ l.length) :
    d.IsStop (wrap ls ⟨n, c⟩) ∧
      ((∀ l ∈ ls.head?, c ≤ l.length) →
        d.lineOffset (wrap ls ⟨n, c⟩).line + (wrap ls ⟨n, c⟩).column = d.lineOffset n + c) := by
  induction ls generalizing n c with
  | nil => exact absurd rfl hne
  | cons l ls ih =>
    have hl : d[n]? = some l := by
      rw [← List.head?_drop, hls, List.head?_cons]
    have hdrop : d.drop (n + 1) = ls := by
      rw [← List.drop_drop, hls, List.drop_succ_cons, List.drop_zero]
    cases ls with
    | nil =>
      refine ⟨?_, fun _ => rfl⟩
      have hc := hlast l rfl
      rcases Nat.lt_or_eq_of_le hc with hlt | rfl
      · exact .inl (isSome_charAt?.2 ⟨l, hl, hlt⟩)
      · right
        have hlen := congrArg List.length hls
        rw [List.length_drop, List.length_singleton] at hlen
        obtain rfl : n = d.length - 1 := by omega
        rw [endPosition_eq, hl]
        rfl
    | cons l' ls =>
      rw [wrap]
      split
      next hlt => exact ⟨.inl (isSome_charAt?.2 ⟨l, hl, hlt⟩), fun _ => rfl⟩
      next hnot =>
        -- The line is left behind as a whole, and the next one is entered at its beginning.
        have hrest := ih (c := 0) hdrop (List.cons_ne_nil _ _) fun _ _ => Nat.zero_le _
        refine ⟨hrest.1, fun hfit => ?_⟩
        have hc : c = l.length :=
          Nat.le_antisymm (hfit l rfl) (Nat.le_of_not_lt hnot)
        rw [hrest.2 fun _ _ => Nat.zero_le _, lineOffset_succ hl, hc, Nat.add_zero]

/-- Wherever a step forward begins, it leads to a character or to the end. -/
theorem isStop_next? (h : d.next? p = some q) : d.IsStop q := by
  rw [next?] at h
  split at h
  · cases h
  next hend =>
    cases h
    simp only [atEnd, Bool.or_eq_true, decide_eq_true_eq, Bool.and_eq_true, beq_iff_eq,
      not_or, not_and, Nat.not_le] at hend
    refine (isStop_wrap rfl ?_ fun l hl => ?_).1
    · exact fun hnil => absurd (List.drop_eq_nil_iff.1 hnil) (Nat.not_le.2 hend.1)
    · have hlen := congrArg List.length hl
      rw [List.length_drop, List.length_singleton] at hlen
      have hcolumn := hend.2 (by omega)
      rw [← List.head?_drop, hl, List.head?_cons, Option.getD_some] at hcolumn
      exact hcolumn

theorem offset_next? (hp : (d.charAt? p).isSome) (h : d.next? p = some q) :
    d.offset q = d.offset p + 1 := by
  obtain ⟨l, hl, hc⟩ := isSome_charAt?.1 hp
  have hstop := isStop_next? h
  have hhead : (d.drop p.line).head? = some l := by rw [List.head?_drop, hl]
  rw [next?, if_neg (by rw [atEnd_eq_false hp]; exact Bool.false_ne_true)] at h
  cases h
  have hwrap := (isStop_wrap (d := d) (n := p.line) (c := p.column + 1) rfl (fun hnil => by
    rw [hnil] at hhead
    cases hhead) fun l' hl' => by
      rw [hl'] at hhead
      cases hhead
      exact hc).2
  rw [hstop.offset_eq, IsStop.offset_eq (.inl hp), hwrap, Nat.add_assoc]
  intro l' hl'
  rw [hhead] at hl'
  cases hl'
  exact hc

theorem next?_eq_none_iff (hp : d.IsStop p) :
    d.next? p = none ↔ d.offset p = d.flatten.length := by
  rw [next?, ← hp.atEnd_iff]
  split
  next h => exact iff_of_true rfl h
  next h => exact iff_of_false (Option.some_ne_none _) h

/-! ### Steps back -/

/-- Before a line, the last character of the nearest line that has one. -/
theorem find?_lines (n : Nat) (hn : n ≤ d.length) :
    match ((d.take n).zipIdx.reverse.find? fun (l, _) => !l.isEmpty) with
    | none => d.lineOffset n = 0
    | some (l, i) =>
      d[i]? = some l ∧ 0 < l.length ∧ d.lineOffset i + l.length = d.lineOffset n := by
  induction n with
  | zero => rfl
  | succ n ih =>
    have hl : d[n]? = some d[n] := List.getElem?_eq_getElem hn
    have hlen : (d.take n).length = n := List.length_take_of_le (Nat.le_of_succ_le hn)
    rw [List.take_add_one, hl, Option.toList_some, List.zipIdx_append, List.reverse_append, hlen,
      Nat.zero_add, List.zipIdx_singleton, List.reverse_singleton, List.singleton_append,
      List.find?_cons, lineOffset_succ hl]
    cases hempty : d[n] with
    | nil =>
      simpa using ih (Nat.le_of_succ_le hn)
    | cons c cs =>
      rw [hempty] at hl
      exact ⟨hl, Nat.zero_lt_succ _, rfl⟩

theorem offset_previous? (hp : d.IsStop p) (h : d.previous? p = some q) :
    (d.charAt? q).isSome ∧ d.offset q + 1 = d.offset p := by
  have hoffset := hp.offset_eq
  rw [previous?] at h
  split at h
  next c hc =>
    cases h
    have hq : (d.charAt? ⟨p.line, c⟩).isSome := by
      rcases hp with hp | rfl
      · obtain ⟨l, hl, hlt⟩ := isSome_charAt?.1 hp
        exact isSome_charAt?.2 ⟨l, hl, by dsimp only; omega⟩
      · rw [endPosition_eq] at hc ⊢
        cases hl : d[d.length - 1]? with
        | none => rw [hl] at hc; cases hc
        | some l =>
          rw [hl] at hc
          refine isSome_charAt?.2 ⟨l, hl, ?_⟩
          dsimp only [Option.getD_some] at hc ⊢
          omega
    refine ⟨hq, ?_⟩
    rw [IsStop.offset_eq (.inl hq), hoffset, hc]
    rfl
  next hc =>
    obtain ⟨⟨l, i⟩, hfind, rfl⟩ := Option.map_eq_some_iff.1 h
    have hlines := find?_lines (d := d) p.line hp.line_le
    rw [hfind] at hlines
    obtain ⟨hl, hpos, hsum⟩ := hlines
    have hq : (d.charAt? ⟨i, l.length - 1⟩).isSome :=
      isSome_charAt?.2 ⟨l, hl, Nat.sub_lt hpos Nat.one_pos⟩
    refine ⟨hq, ?_⟩
    rw [IsStop.offset_eq (.inl hq), hoffset, hc, ← hsum]
    dsimp only
    omega

theorem previous?_eq_none_iff (hp : d.IsStop p) : d.previous? p = none ↔ d.offset p = 0 := by
  constructor
  · intro h
    rw [previous?] at h
    split at h
    next => cases h
    next hc =>
      have hlines := find?_lines (d := d) p.line hp.line_le
      rw [Option.map_eq_none_iff.1 h] at hlines
      rw [hp.offset_eq, hlines, hc]
  · intro h
    by_contra hne
    obtain ⟨q, hq⟩ := Option.ne_none_iff_exists'.1 hne
    have hsum := (offset_previous? hp hq).2
    omega

/-! ### Runs -/

theorem moveForward_stop (hp : d.IsStop p) (n : Nat) :
    d.IsStop (d.moveForward n p).1 ∧
      d.offset (d.moveForward n p).1 = min (d.offset p + n) d.flatten.length ∧
      (d.moveForward n p).2 = decide (d.offset (d.moveForward n p).1 < d.flatten.length) := by
  have hle := hp.offset_le
  induction n generalizing p with
  | zero =>
    refine ⟨hp, (Nat.min_eq_left hle).symm, ?_⟩
    have hend := hp.atEnd_iff
    simp only [moveForward]
    cases hatEnd : d.atEnd p with
    | true => simp [hend.1 hatEnd]
    | false =>
      have hne : d.offset p ≠ d.flatten.length := fun h => by
        rw [hend.2 h] at hatEnd
        cases hatEnd
      exact (decide_eq_true (Nat.lt_of_le_of_ne hle hne)).symm
  | succ n ih =>
    rw [moveForward]
    split
    next hnext =>
      have hend := (next?_eq_none_iff hp).1 hnext
      refine ⟨hp, ?_, ?_⟩
      · dsimp only
        omega
      · simp [hend]
    next q hnext =>
      have hq := isStop_next? hnext
      -- From the end no step leads on, so this one began at a character and adds exactly one.
      have hchar : (d.charAt? p).isSome := hp.isSome_iff.2 (by
        have hne := mt (next?_eq_none_iff hp).2 (by rw [hnext]; exact Option.some_ne_none _)
        omega)
      obtain ⟨hstop, hoffset, hmoved⟩ := ih hq hq.offset_le
      rw [offset_next? hchar hnext] at hoffset
      exact ⟨hstop, by rw [hoffset]; omega, hmoved⟩

theorem moveBack_stop (hp : d.IsStop p) (n : Nat) :
    d.IsStop (d.moveBack n p).1 ∧ d.offset (d.moveBack n p).1 = d.offset p - n ∧
      (d.moveBack n p).2 = decide (n ≤ d.offset p) := by
  induction n generalizing p with
  | zero => exact ⟨hp, rfl, by simp [moveBack]⟩
  | succ n ih =>
    rw [moveBack]
    split
    next hprevious =>
      have hzero := (previous?_eq_none_iff hp).1 hprevious
      exact ⟨hp, by dsimp only; omega, by simp [hzero]⟩
    next q hprevious =>
      obtain ⟨hchar, hsum⟩ := offset_previous? hp hprevious
      obtain ⟨hstop, hoffset, hmoved⟩ := ih (.inl hchar)
      refine ⟨hstop, by omega, ?_⟩
      rw [hmoved, ← hsum]
      simp

/-! ### Cursors -/

/-- A place where a cursor is on a character or is at the end, having moved there forward from a
character or from the beginning. -/
def IsCursor (d : Document) (p : Position) : Prop :=
  (d.charAt? p).isSome ∨
    d.atEnd p ∧ ∃ q n, ((d.charAt? q).isSome ∨ q = ⟨0, 0⟩) ∧ (d.moveForward n q).1 = p

/-- The end that a cursor reaches is the place behind the last character. -/
theorem isStop_moveForward_zero (hend : d.atEnd (d.moveForward n ⟨0, 0⟩).1) :
    d.IsStop (d.moveForward n ⟨0, 0⟩).1 := by
  have start (hend : d.atEnd ⟨0, 0⟩) : d.IsStop ⟨0, 0⟩ := by
    right
    simp only [atEnd, Bool.or_eq_true, Bool.and_eq_true, decide_eq_true_eq, beq_iff_eq] at hend
    rw [endPosition_eq]
    rcases hend with hnil | ⟨hone, hempty⟩
    · rw [List.eq_nil_of_length_eq_zero (Nat.le_zero.1 hnil)]
      rfl
    · rw [← hone]
      exact congrArg _ (Nat.le_zero.1 hempty).symm
  cases n with
  | zero => exact start hend
  | succ n =>
    rw [moveForward] at hend ⊢
    split at hend
    next => exact start hend
    next q hnext => exact (moveForward_stop (isStop_next? hnext) n).1

theorem exists_moveForward_endPosition (d : Document) :
    ∃ n, (d.moveForward n ⟨0, 0⟩).1 = d.endPosition := by
  cases hnext : d.next? ⟨0, 0⟩ with
  | none =>
    have hend : d.atEnd ⟨0, 0⟩ := by
      rw [next?] at hnext
      split at hnext
      next hend => exact hend
      next => cases hnext
    have hstop : d.IsStop ⟨0, 0⟩ := isStop_moveForward_zero (n := 0) hend
    refine ⟨0, eq_of_offset_eq hstop (.inr rfl) ?_⟩
    rw [offset_endPosition]
    exact hstop.atEnd_iff.1 hend
  | some q =>
    have hq := isStop_next? hnext
    refine ⟨d.flatten.length - d.offset q + 1, ?_⟩
    have hle := hq.offset_le
    obtain ⟨hstop, hoffset, -⟩ := moveForward_stop hq (d.flatten.length - d.offset q)
    simp only [moveForward, hnext]
    refine eq_of_offset_eq hstop (.inr rfl) ?_
    rw [offset_endPosition]
    omega

theorem isCursor_iff : d.IsCursor p ↔ d.IsStop p := by
  constructor
  · rintro (hchar | ⟨hend, q, n, hq | rfl, rfl⟩)
    · exact .inl hchar
    · exact (moveForward_stop (.inl hq) n).1
    · exact isStop_moveForward_zero hend
  · rintro (hchar | rfl)
    · exact .inl hchar
    · obtain ⟨n, hn⟩ := d.exists_moveForward_endPosition
      exact .inr ⟨d.atEnd_endPosition, ⟨0, 0⟩, n, .inr rfl, hn⟩

/-- A move adds to the offset of a cursor or takes away from it, up to the ends of the text, and so
a move and the move back cancel. -/
theorem moves_by_offset (hp : d.IsCursor p) (n : Nat) :
    (d.IsCursor (d.moveForward n p).1 ∧
      d.offset (d.moveForward n p).1 = min (d.offset p + n) d.flatten.length ∧
      (d.moveForward n p).2 = decide (min (d.offset p + n) d.flatten.length < d.flatten.length)) ∧
    (d.IsCursor (d.moveBack n p).1 ∧ d.offset (d.moveBack n p).1 = d.offset p - n ∧
      (d.moveBack n p).2 = decide (n ≤ d.offset p)) ∧
    (d.offset p + n ≤ d.flatten.length → (d.moveBack n (d.moveForward n p).1).1 = p) ∧
    (n ≤ d.offset p → (d.moveForward n (d.moveBack n p).1).1 = p) := by
  simp only [isCursor_iff] at hp ⊢
  have hle := hp.offset_le
  obtain ⟨hforward, hsum, hmoved⟩ := moveForward_stop hp n
  obtain ⟨hback, hdifference, hall⟩ := moveBack_stop hp n
  refine ⟨⟨hforward, hsum, by rw [hmoved, hsum]⟩, ⟨hback, hdifference, hall⟩, fun h => ?_,
    fun h => ?_⟩
  · obtain ⟨hstop, hoffset, -⟩ := moveBack_stop hforward n
    exact eq_of_offset_eq hstop hp (by omega)
  · obtain ⟨hstop, hoffset, -⟩ := moveForward_stop hback n
    exact eq_of_offset_eq hstop hp (by omega)

/-- Back from behind an empty last line to the first character, and forward again. -/
theorem emptyLines_moved :
    IsCursor [[], ['a', '\n'], [], ['b'], []] ⟨4, 0⟩ ∧
      moveBack [[], ['a', '\n'], [], ['b'], []] 3 ⟨4, 0⟩ = (⟨1, 0⟩, true) ∧
      (moveForward [[], ['a', '\n'], [], ['b'], []] 3
        (moveBack [[], ['a', '\n'], [], ['b'], []] 3 ⟨4, 0⟩).1).1 = ⟨4, 0⟩ := by
  have hend : IsCursor [[], ['a', '\n'], [], ['b'], []] ⟨4, 0⟩ := isCursor_iff.2 (.inr rfl)
  exact ⟨hend, by decide, (moves_by_offset hend 3).2.2.2 (by decide)⟩

end Document

end Uwu
