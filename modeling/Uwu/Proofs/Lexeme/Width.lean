import Uwu.Lexeme.Pieces

/-! The width of a lexeme. Whatever stands at a place, its reading passes over at
least one character and stays within the line. -/

namespace Uwu.Lexeme

/-! ### Widths of the parts -/

theorem segmentEnd?_lt {run n : Nat} {cs : List Char} {e : Char}
    (h : segmentEnd? run cs = some (n, e)) : n < cs.length := by
  induction cs generalizing run n with
  | nil => simp [segmentEnd?] at h
  | cons c cs ih =>
    rw [segmentEnd?] at h
    split at h
    · simp only [Option.some.injEq, Prod.mk.injEq] at h
      rw [← h.1]
      exact Nat.zero_lt_succ _
    · obtain ⟨m, hm, hn⟩ := Option.map_eq_some_iff.1 h
      simp only [Prod.mk.injEq] at hn
      have hlt := ih (n := m.1) (by rw [hm, ← hn.2])
      rw [List.length_cons]
      omega

theorem length_takeWhile_le (p : Char → Bool) (cs : List Char) :
    (cs.takeWhile p).length ≤ cs.length :=
  (List.takeWhile_prefix p).length_le

/-- Every character of the spelling takes at least one of the text. -/
theorem gapWidth?_bounds {spelling text : List Char} {w : Nat}
    (h : gapWidth? spelling text = some w) : spelling.length ≤ w ∧ w ≤ text.length := by
  induction spelling generalizing text w with
  | nil =>
    simp only [gapWidth?, Option.some.injEq] at h
    subst h
    exact ⟨Nat.le_refl _, Nat.zero_le _⟩
  | cons s ss ih =>
    by_cases hs : s = ' '
    · simp only [gapWidth?, hs, if_true] at h
      split at h
      · cases h
      next hgap =>
        obtain ⟨v, hv, rfl⟩ := Option.map_eq_some_iff.1 h
        have hrest := ih hv
        have hpos : 0 < (text.takeWhile Text.isGap).length := by
          rw [List.isEmpty_iff] at hgap
          exact List.length_pos_iff.2 hgap
        have hsum := congrArg List.length
          (List.takeWhile_append_dropWhile (p := Text.isGap) (l := text))
        rw [List.length_append] at hsum
        rw [List.length_cons]
        omega
    · cases text with
      | nil => simp [gapWidth?, hs] at h
      | cons c cs =>
        simp only [gapWidth?, hs, if_false] at h
        split at h
        · obtain ⟨v, hv, rfl⟩ := Option.map_eq_some_iff.1 h
          have hrest := ih hv
          simp only [List.length_cons]
          omega
        · cases h

theorem doubleKeyword?_bounds {text : List Char} {k : Keyword} {w : Nat}
    (h : doubleKeyword? text = some (k, w)) : 0 < w ∧ w ≤ text.length := by
  obtain ⟨k', hk', h⟩ := List.exists_of_findSome?_eq_some h
  split at h
  · cases h
  next v hv =>
    split at h
    · cases h
    · cases h
      have hb := gapWidth?_bounds hv
      have hne : 0 < k.spelling.toList.length := by
        simp only [Keyword.doubles, List.mem_cons, List.not_mem_nil, or_false] at hk'
        rcases hk' with rfl | rfl <;> decide
      omega

theorem numeral_bounds {c : Char} {cs : List Char} (hc : c.isDigit) :
    0 < (numeral (c :: cs)).2 ∧ (numeral (c :: cs)).2 ≤ (c :: cs).length := by
  have hpos : 0 < ((c :: cs).takeWhile Char.isDigit).length := by
    simp [hc]
  have hle := length_takeWhile_le Char.isDigit (c :: cs)
  simp only [numeral]
  split
  next rest hrest =>
    have hlen := congrArg List.length hrest
    simp only [List.length_drop, List.length_cons] at hlen hpos hle ⊢
    have hfraction := length_takeWhile_le Char.isDigit rest
    split <;> dsimp only <;> omega
  next => exact ⟨hpos, hle⟩

theorem numeral_kind_ne (text : List Char) : (numeral text).1 ≠ .endOfFile := by
  simp only [numeral]
  split
  · split <;> simp
  · simp

theorem symbolAt?_bounds {n : Nat} {text : List Char} {s : Symbol}
    (h : symbolAt? n text = some s) : 0 < s.spelling.length ∧ s.spelling.length ≤ text.length := by
  have hs := List.find?_some h
  simp only [Bool.and_eq_true] at hs
  have hle := (List.isPrefixOf_iff_prefix.1 hs.1).length_le
  rw [String.length_toList] at hle
  refine ⟨?_, hle⟩
  cases s <;> decide

theorem restWidth_pos {c : Char} {cs : List Char} (hc : c ≠ '\n') : 0 < restWidth (c :: cs) := by
  simp [restWidth, hc]

theorem restWidth_le (text : List Char) : restWidth text ≤ text.length :=
  length_takeWhile_le _ _

/-! ### Readings -/

/-- A reading that makes progress, stays within `text` and never gives an end token. -/
structure Reading.Within (text : List Char) (r : Reading) : Prop where
  pos : 0 < r.width
  le : r.width ≤ text.length
  kind_ne : ∀ kind w, r = .accepted kind w → kind ≠ .endOfFile

theorem width_checkFollower (kind : Kind) (w : Nat) (text : List Char) :
    (checkFollower kind w text).width = w := by
  rw [checkFollower]
  split
  · split <;> rfl
  · rfl

theorem eq_of_checkFollower_eq_accepted {kind kind' : Kind} {w w' : Nat} {text : List Char}
    (h : checkFollower kind w text = .accepted kind' w') : kind' = kind := by
  rw [checkFollower] at h
  split at h
  · split at h
    · cases h
      rfl
    · cases h
  · cases h
    rfl

theorem within_checkFollower {kind : Kind} {w : Nat} {text : List Char} (hk : kind ≠ .endOfFile)
    (hpos : 0 < w) (hle : w ≤ text.length) : (checkFollower kind w text).Within text where
  pos := by rwa [width_checkFollower]
  le := by rwa [width_checkFollower]
  kind_ne kind' w' h := by rwa [eq_of_checkFollower_eq_accepted h]

theorem within_rejected {cause : Cause} {w : Nat} {text : List Char} (hpos : 0 < w)
    (hle : w ≤ text.length) : (Reading.rejected cause w).Within text :=
  ⟨hpos, hle, fun _ _ h => by cases h⟩

theorem within_readNumber {c : Char} {cs : List Char} (hc : c.isDigit) :
    (readNumber (c :: cs)).Within (c :: cs) := by
  have hb : 0 < (numeral (c :: cs)).2 ∧ (numeral (c :: cs)).2 ≤ (c :: cs).length :=
    numeral_bounds hc
  exact within_checkFollower (numeral_kind_ne _) hb.1 hb.2

theorem within_readName {before : List (List Char)} {word text : List Char} {st : State}
    (hpos : 0 < word.length) (hle : word.length ≤ text.length) :
    (readName before word text st).1.Within text := by
  rw [readName]
  split
  · exact within_rejected hpos hle
  · refine within_checkFollower ?_ hpos hle
    rw [nameKind]
    split
    · simp
    · split <;> simp

theorem within_readWord {before : List (List Char)} {c : Char} {cs : List Char} {st : State}
    (hc : isWordStart c) : (readWord before (c :: cs) st).1.Within (c :: cs) := by
  have hchar : isWordChar c := by
    simp only [isWordStart, isWordChar, Char.isAlphanum, Bool.or_eq_true] at hc ⊢
    rcases hc with h | h
    · exact .inl (.inl h)
    · exact .inr h
  have hpos : 0 < ((c :: cs).takeWhile isWordChar).length := by
    simp [hchar]
  have hle := length_takeWhile_le isWordChar (c :: cs)
  simp only [readWord]
  split
  next k w h =>
    have hb := doubleKeyword?_bounds h
    exact within_checkFollower (by simp) hb.1 hb.2
  next =>
    split
    · exact within_checkFollower (by simp) hpos hle
    · exact within_readName hpos hle

theorem within_readUnterminated {c : Char} {cs : List Char} {st : State} (hc : c ≠ '\n') :
    (readUnterminated (c :: cs) st).1.Within (c :: cs) :=
  within_rejected (restWidth_pos hc) (restWidth_le _)

/-- A segment with the delimiters at its ends. -/
theorem within_segment {kind : Kind} {c e : Char} {cs : List Char} {n : Nat}
    (hk : kind ≠ .endOfFile) (h : segmentEnd? 0 cs = some (n, e)) :
    (checkFollower kind (n + 2) (c :: cs)).Within (c :: cs) := by
  have hlt := segmentEnd?_lt h
  exact within_checkFollower hk (by omega) (by rw [List.length_cons]; omega)

theorem within_readString {c : Char} {cs : List Char} {st : State} (hc : c ≠ '\n') :
    (readString (c :: cs) st).1.Within (c :: cs) := by
  simp only [readString, List.tail_cons]
  split
  next n h => exact within_segment (by simp) h
  next n _ _ h => exact within_segment (by simp) h
  next => exact within_readUnterminated hc

theorem within_readStringPart {c : Char} {cs : List Char} {st : State} (hc : c ≠ '\n') :
    (readStringPart (c :: cs) st).1.Within (c :: cs) := by
  simp only [readStringPart, List.tail_cons]
  split
  next n h => exact within_segment (by simp) h
  next n _ _ h => exact within_segment (by simp) h
  next => exact within_readUnterminated hc

theorem within_readSymbol {c : Char} {cs : List Char} {st : State} (hc : c ≠ '\n') :
    (readSymbol (c :: cs) st).1.Within (c :: cs) := by
  rw [readSymbol]
  split
  · exact within_checkFollower (by simp) (restWidth_pos hc) (restWidth_le _)
  · split
    next s h =>
      have hb := symbolAt?_bounds h
      exact within_checkFollower (by simp) hb.1 hb.2
    next => exact within_rejected (by omega) (by simp)

/-- Every reading passes over at least one character and stays within its line. -/
theorem within_read (before : List (List Char)) (c : Char) (cs : List Char) (st : State) :
    (read before c cs st).1.Within (c :: cs) := by
  simp only [read]
  split
  next => exact within_checkFollower (by simp) (by omega) (by simp)
  next hnewline =>
    split
    next hblank =>
      refine within_checkFollower (by simp) ?_ (length_takeWhile_le _ _)
      simp [hblank]
    next =>
      split
      · exact within_readString hnewline
      · split
        · exact within_readStringPart hnewline
        · split
          next hdigit => exact within_readNumber hdigit
          next =>
            split
            next hword => exact within_readWord hword
            next => exact within_readSymbol hnewline

/-- A newline is always a token. -/
theorem read_newline (before : List (List Char)) (cs : List Char) (st : State) :
    (read before '\n' cs st).1 = .accepted .newline 1 := by
  simp [read, checkFollower, Kind.followers?]

end Uwu.Lexeme
