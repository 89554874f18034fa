import Uwu.Diagnostic.Excerpt
import Uwu.Proofs.Lexeme.Shape
import Uwu.Proofs.Source.Lines

/-! An excerpt shows a line of the text and a caret below one of its characters:

```text
  |
2 | x-chan = "5"~
  | ---------^
```

The line is shown without its indent, and the caret is moved to the left by as much. -/

namespace Uwu

namespace Text

variable {cs : List Char}

theorem trimEnd_cons (c : Char) (cs : List Char) :
    trimEnd (c :: cs) = if trimEnd cs = [] ∧ isSpace c then [] else c :: trimEnd cs := by
  simp only [trimEnd, List.reverse_cons, List.dropWhile_append, List.reverse_eq_nil_iff,
    List.isEmpty_iff]
  by_cases hnil : cs.reverse.dropWhile isSpace = []
  · cases hc : isSpace c <;> simp [hnil, hc]
  · simp [hnil]

theorem trimEnd_isPrefix (cs : List Char) : trimEnd cs <+: cs := by
  have hsuffix := List.dropWhile_suffix (p := isSpace) (l := cs.reverse)
  rwa [← List.reverse_prefix, List.reverse_reverse] at hsuffix

theorem trimEnd_append_singleton {c : Char} (hc : isSpace c) (cs : List Char) :
    trimEnd (cs ++ [c]) = trimEnd cs := by
  rw [trimEnd, List.reverse_append, List.reverse_singleton, List.singleton_append,
    List.dropWhile_cons_of_pos hc, trimEnd]

/-- Trimming at the end does not reach the text in front of what it leaves. -/
theorem trimEnd_drop {n : Nat} (h : n ≤ (trimEnd cs).length) :
    trimEnd (cs.drop n) = (trimEnd cs).drop n := by
  induction cs generalizing n with
  | nil => rw [List.drop_nil]; exact List.drop_nil.symm
  | cons c cs ih =>
    cases n with
    | zero => rfl
    | succ n =>
      rw [trimEnd_cons] at h ⊢
      split at h
      next => cases h
      next hc =>
        rw [if_neg hc, List.drop_succ_cons, List.drop_succ_cons]
        exact ih (Nat.le_of_succ_le_succ h)

/-- A newline at the end is trimmed with the white space in front of it. -/
theorem newline_not_mem_trimEnd (h : ∃ w, '\n' ∉ w ∧ (cs = w ∨ cs = w ++ ['\n'])) :
    '\n' ∉ trimEnd cs := by
  obtain ⟨w, hw, rfl | rfl⟩ := h
  · exact fun hmem => hw ((trimEnd_isPrefix _).subset hmem)
  · rw [trimEnd_append_singleton (by decide)]
    exact fun hmem => hw ((trimEnd_isPrefix _).subset hmem)

theorem toList_padStart (width : Nat) (fill : Char) (s : String) :
    (padStart width fill s).toList = List.replicate (width - s.length) fill ++ s.toList := by
  rw [padStart, String.toList_append, String.toList_ofList]

end Text

open Text (isGap padStart trimEnd)

namespace Diagnostic

/-- What an excerpt shows of the line that a diagnostic is on: the line with its number, a caret
under the place, and the note. -/
def shownLine (d : Diagnostic) (line : String) : String :=
  let number := toString (d.span.start.line + 1)
  let bar := padStart (number.length + 2) ' ' "|"
  let caret := padStart (caretWidth line.toList d.span.start.column) '-' "^"
  let sign := padStart (number.length + 2) ' ' "="
  let note := (d.cause.note?.map fun note => s!"{sign} note: {note}\n").getD ""
  s!"{bar}\n{number} | {excerptText line.toList}\n{bar} {caret}\n{note}"

theorem excerpt_eq {d : Diagnostic} {lines : List String} {line : String} (file : String)
    (h : lineAt? lines d.span.start = some line) :
    d.excerpt file lines =
      s!"{d.headline}-> {file}:{d.span.start.shown}\n" ++ d.shownLine line := by
  have hself (s : String) : toString s = s := rfl
  rw [excerpt, h, shownLine]
  cases d.cause.note? <;> simp [String.append_assoc, hself]

end Diagnostic

/-! ### The lines of an excerpt -/

section Columns

variable {c : Char} {before behind : List Char}

/-- A character that stands in one run only is in the columns of that run. -/
theorem getElem?_run (hbefore : c ∉ before) (hbehind : c ∉ behind) (n i : Nat) :
    (before ++ (List.replicate n c ++ behind))[i]? = some c ↔
      before.length ≤ i ∧ i < before.length + n := by
  rcases Nat.lt_or_ge i before.length with hi | hi
  · rw [List.getElem?_append_left hi]
    refine iff_of_false (fun h => hbefore (List.mem_of_getElem? h)) ?_
    omega
  · rw [List.getElem?_append_right hi, and_iff_right hi]
    rcases Nat.lt_or_ge (i - before.length) n with hn | hn
    · rw [List.getElem?_append_left (by rwa [List.length_replicate]),
        List.getElem?_replicate_of_lt hn]
      exact iff_of_true rfl (by omega)
    · rw [List.getElem?_append_right (by rwa [List.length_replicate])]
      refine iff_of_false (fun h => hbehind (List.mem_of_getElem? h)) ?_
      omega

theorem getElem?_mark (hbefore : c ∉ before) (hbehind : c ∉ behind) (i : Nat) :
    (before ++ c :: behind)[i]? = some c ↔ i = before.length := by
  have hrun := getElem?_run hbefore hbehind 1 i
  rw [List.replicate_one, List.singleton_append] at hrun
  rw [hrun]
  omega

end Columns

namespace Diagnostic

/-- The three lines of an excerpt: their bars are in the column `bar`. Two columns behind it begins
the text that is shown, which is the line without its indent and up to its last character that is
not white space. The dashes run from there to the caret, which is below the character in the column
`column` of the line. -/
structure Underlines (l : List Char) (indent column bar : Nat)
    (gutter excerpt caret : List Char) : Prop where
  single : '\n' ∉ gutter ∧ '\n' ∉ excerpt ∧ '\n' ∉ caret
  gutterBar : ∀ i, gutter[i]? = some '|' ↔ i = bar
  excerptBar : excerpt[bar]? = some '|' ∧ ∀ i < bar, excerpt[i]? ≠ some '|'
  caretBar : ∀ i, caret[i]? = some '|' ↔ i = bar
  shown : ∀ i, indent ≤ i → i < (trimEnd l).length →
    excerpt[bar + 2 + (i - indent)]? = l[i]?
  ends : excerpt.length = bar + 2 + ((trimEnd l).length - indent)
  dashes : ∀ i, caret[i]? = some '-' ↔ bar + 2 ≤ i ∧ i < bar + 2 + (column - indent)
  mark : ∀ i, caret[i]? = some '^' ↔ i = bar + 2 + (column - indent)

variable {l number text : List Char} {indent column : Nat}

def gutterLine (number : List Char) : List Char :=
  List.replicate (number.length + 1) ' ' ++ ['|']

def textLine (number text : List Char) : List Char :=
  number ++ ' ' :: '|' :: ' ' :: text

def caretLine (number : List Char) (n : Nat) : List Char :=
  gutterLine number ++ ' ' :: (List.replicate n '-' ++ ['^'])

theorem length_gutterLine : (gutterLine number).length = number.length + 2 := by
  rw [gutterLine, List.length_append, List.length_replicate, List.length_singleton]

theorem not_mem_gutterLine {c : Char} (hspace : c ≠ ' ') (hbar : c ≠ '|') :
    c ∉ gutterLine number := by
  simp [gutterLine, List.mem_replicate, hspace, hbar]

theorem getElem?_gutterLine (i : Nat) :
    (gutterLine number)[i]? = some '|' ↔ i = number.length + 1 := by
  rw [gutterLine, getElem?_mark (by simp [List.mem_replicate]) List.not_mem_nil,
    List.length_replicate]

theorem getElem?_textLine (i : Nat) :
    (textLine number text)[number.length + 1 + 2 + i]? = text[i]? := by
  rw [textLine, List.getElem?_append_right (by omega)]
  have hi : number.length + 1 + 2 + i - number.length = i + 3 := by omega
  rw [hi]
  rfl

/-- A number has no bar. -/
theorem bar_textLine (hnumber : ∀ c ∈ number, c.isDigit) :
    (textLine number text)[number.length + 1]? = some '|' ∧
      ∀ i < number.length + 1, (textLine number text)[i]? ≠ some '|' := by
  have hfirst : '|' ∉ number ++ [' '] := by
    rw [List.mem_append, List.mem_singleton]
    rintro (hmem | hspace)
    · exact absurd (hnumber _ hmem) (by decide)
    · cases hspace
  have hsplit : textLine number text = (number ++ [' ']) ++ '|' :: ' ' :: text := by
    rw [textLine, List.append_assoc, List.singleton_append]
  have hlength : (number ++ [' ']).length = number.length + 1 := List.length_append
  constructor
  · rw [hsplit, List.getElem?_append_right (Nat.le_of_eq hlength), hlength, Nat.sub_self]
    rfl
  · intro i hi hbar
    rw [hsplit, List.getElem?_append_left (hlength ▸ hi)] at hbar
    exact hfirst (List.mem_of_getElem? hbar)

theorem bar_caretLine (n i : Nat) :
    (caretLine number n)[i]? = some '|' ↔ i = number.length + 1 := by
  have hsplit : caretLine number n = List.replicate (number.length + 1) ' ' ++
      '|' :: ' ' :: (List.replicate n '-' ++ ['^']) := by
    rw [caretLine, gutterLine, List.append_assoc, List.singleton_append]
  rw [hsplit, getElem?_mark (by simp [List.mem_replicate]) (by simp [List.mem_replicate]),
    List.length_replicate]

theorem dashes_caretLine (n i : Nat) :
    (caretLine number n)[i]? = some '-' ↔
      number.length + 1 + 2 ≤ i ∧ i < number.length + 1 + 2 + n := by
  have hsplit : caretLine number n =
      (gutterLine number ++ [' ']) ++ (List.replicate n '-' ++ ['^']) := by
    rw [caretLine, List.append_assoc, List.singleton_append]
  have hbefore : '-' ∉ gutterLine number ++ [' '] := by
    rw [List.mem_append, List.mem_singleton]
    exact fun h => h.elim (not_mem_gutterLine (by decide) (by decide)) (by decide)
  rw [hsplit, getElem?_run hbefore (by decide), List.length_append, length_gutterLine]
  rfl

theorem mark_caretLine (n i : Nat) :
    (caretLine number n)[i]? = some '^' ↔ i = number.length + 1 + 2 + n := by
  have hsplit : caretLine number n =
      (gutterLine number ++ ' ' :: List.replicate n '-') ++ ['^'] := by
    rw [caretLine, List.append_assoc, List.cons_append]
  have hbefore : '^' ∉ gutterLine number ++ ' ' :: List.replicate n '-' := by
    rw [List.mem_append, List.mem_cons, List.mem_replicate]
    rintro (hmem | hspace | ⟨-, hdash⟩)
    · exact not_mem_gutterLine (by decide) (by decide) hmem
    · cases hspace
    · cases hdash
  rw [hsplit, getElem?_mark hbefore List.not_mem_nil, List.length_append, length_gutterLine,
    List.length_cons, List.length_replicate]
  omega

theorem underlines (hnewline : '\n' ∉ trimEnd l) (hnumber : ∀ c ∈ number, c.isDigit) :
    Underlines l indent column (number.length + 1) (gutterLine number)
      (textLine number ((trimEnd l).drop indent)) (caretLine number (column - indent)) where
  single := by
    have hgutter : '\n' ∉ gutterLine number := not_mem_gutterLine (by decide) (by decide)
    refine ⟨hgutter, ?_, ?_⟩
    · simp only [textLine, List.mem_append, List.mem_cons]
      rintro (hmem | hspace | hbar | hspace | hmem)
      · exact absurd (hnumber _ hmem) (by decide)
      · cases hspace
      · cases hbar
      · cases hspace
      · exact hnewline (List.mem_of_mem_drop hmem)
    · simp [caretLine, List.mem_replicate, hgutter]
  gutterBar := getElem?_gutterLine
  excerptBar := bar_textLine hnumber
  caretBar := bar_caretLine _
  shown i hi htrim := by
    obtain ⟨rest, hrest⟩ := Text.trimEnd_isPrefix l
    have hline : l[i]? = (trimEnd l)[i]? := by
      rw [← List.getElem?_append_left htrim, hrest]
    rw [getElem?_textLine, List.getElem?_drop, Nat.add_sub_cancel' hi, hline]
  ends := by
    rw [textLine, List.length_append, List.length_cons, List.length_cons, List.length_cons,
      List.length_drop]
    omega
  dashes := dashes_caretLine _
  mark := mark_caretLine _

theorem toList_shownLine (d : Diagnostic) (line : String) :
    ∃ note, (d.shownLine line).toList =
      gutterLine (toString (d.span.start.line + 1)).toList ++ '\n' ::
        (textLine (toString (d.span.start.line + 1)).toList (excerptText line.toList).toList ++
          '\n' :: (caretLine (toString (d.span.start.line + 1)).toList
            (d.span.start.column - (line.toList.takeWhile isGap).length) ++ '\n' :: note)) := by
  have hself (s : String) : toString s = s := rfl
  have hbar : "|".length = 1 := rfl
  have hcaret : "^".length = 1 := rfl
  rw [shownLine]
  generalize toString (d.span.start.line + 1) = number
  generalize (d.cause.note?.map _).getD "" = note
  refine ⟨note.toList, ?_⟩
  simp [hself, hbar, hcaret, Text.toList_padStart, gutterLine, textLine, caretLine, caretWidth,
    String.length_toList]

/-- Below a place on a line, behind the indent and in front of the white space at its end, the caret
is in the column in which the excerpt shows the character at the place. -/
theorem caret_under_character {source : String} {d : Diagnostic} {line : String} (file : String)
    (hline : lineAt? (splitLines source) d.span.start = some line)
    (hindent : (line.toList.takeWhile isGap).length ≤ d.span.start.column)
    (hcolumn : d.span.start.column < (trimEnd line.toList).length) :
    ∃ gutter excerpt caret note,
      (d.excerpt file (splitLines source)).toList =
        s!"{d.headline}-> {file}:{d.span.start.shown}\n".toList ++
          (gutter ++ '\n' :: (excerpt ++ '\n' :: (caret ++ '\n' :: note))) ∧
      Underlines line.toList (line.toList.takeWhile isGap).length d.span.start.column
        ((toString (d.span.start.line + 1)).length + 1) gutter excerpt caret := by
  obtain ⟨note, hshown⟩ := d.toList_shownLine line
  have htext : (excerptText line.toList).toList =
      (trimEnd line.toList).drop (line.toList.takeWhile isGap).length := by
    rw [excerptText, String.toList_ofList, ← Lexeme.drop_length_takeWhile,
      Text.trimEnd_drop (Nat.le_of_lt (Nat.lt_of_le_of_lt hindent hcolumn))]
  -- Only in a line of a text does every newline stand at the end, where it is trimmed.
  have hmem : line.toList ∈ Document.split source.toList := by
    rw [lineAt?, splitLines, List.getElem?_map] at hline
    obtain ⟨l, hl, rfl⟩ := Option.map_eq_some_iff.1 hline
    rw [String.toList_ofList]
    exact List.mem_of_getElem? hl
  have hnewline := Text.newline_not_mem_trimEnd ((Document.ofText_split _).exists_body _ hmem)
  have hnumber : ∀ c ∈ (toString (d.span.start.line + 1)).toList, c.isDigit := by
    rw [Nat.toString_eq_repr, Nat.toList_repr]
    exact fun c hc => Nat.isDigit_of_mem_toDigits (by decide) (by decide) hc
  refine ⟨_, _, _, note, ?_, underlines hnewline hnumber⟩
  rw [excerpt_eq file hline, String.toList_append, hshown, htext]

/-- Nine empty lines, and a tenth that is indented. -/
def indented : String := "\n\n\n\n\n\n\n\n\n\t  x-chan = \"5\"~ \n"

def indentedMistake : Diagnostic := ⟨.typeMismatch "chan" "senpai", ⟨⟨9, 12⟩, ⟨9, 14⟩⟩⟩

theorem indented_underlined :
    lineAt? (splitLines indented) indentedMistake.span.start = some "\t  x-chan = \"5\"~ \n" ∧
      ∃ gutter excerpt caret note,
        (indentedMistake.excerpt "main.uwu" (splitLines indented)).toList =
          s!"{indentedMistake.headline}-> main.uwu:10:13\n".toList ++
            (gutter ++ '\n' :: (excerpt ++ '\n' :: (caret ++ '\n' :: note))) ∧
        Underlines "\t  x-chan = \"5\"~ \n".toList 3 12 3 gutter excerpt caret := by
  have hline : lineAt? (splitLines indented) indentedMistake.span.start =
      some "\t  x-chan = \"5\"~ \n" := by decide +kernel
  exact ⟨hline, caret_under_character "main.uwu" hline (by decide +kernel) (by decide +kernel)⟩

end Diagnostic

end Uwu
