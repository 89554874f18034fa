import Uwu.Proofs.Grammar.Words
import Uwu.Proofs.Lexeme.Numbering

/-! How a line is read that holds one string: texts with escapes, and names between bars. -/

namespace Uwu

open Grammar (escape escapeChar delimited)

/-! ### The line -/

/-- A name between bars, and the text behind it. -/
structure Interpolation where
  name : String
  text : String

/-- The word is a name wherever it is read, unless it is one of a class. -/
def isPlainName (word : String) : Bool :=
  word.toList.head?.any Lexeme.isWordStart && word.toList.all Lexeme.isWordChar &&
    (Keyword.ofWord? word).isNone

/-- What stands behind a delimiter, up to the quote that ends the string. -/
def quotedTail (text : String) : List Interpolation → List Char
  | [] => escape text ++ ['"']
  | i :: is => escape text ++ '|' :: (i.name.toList ++ '|' :: quotedTail i.text is)

def quotedLine (text : String) (is : List Interpolation) : String :=
  String.ofList ('"' :: (quotedTail text is ++ ['~', '\n']))

/-! ### Its words -/

def Names.nameWord (names : Names) (name : String) : Word :=
  ⟨.identifier ((names.identifiers.id? name).getD 0), name⟩

/-- The words of the parts behind the first one. -/
def partWords (names : Names) (text : String) : List Interpolation → List Word
  | [] => [⟨.stringPartEnd, delimited '|' '"' text⟩]
  | i :: is =>
    ⟨.stringPartMid, delimited '|' '|' text⟩ :: names.nameWord i.name :: partWords names i.text is

def quotedWords (names : Names) (text : String) : List Interpolation → List Word
  | [] => [⟨.stringLiteral, delimited '"' '"' text⟩]
  | i :: is =>
    ⟨.stringPartStart, delimited '"' '|' text⟩ :: names.nameWord i.name :: partWords names i.text is

namespace Lexeme

/-! ### The end of a text -/

theorem segmentEnd?_escapeChar (c : Char) {run n : Nat} {cs : List Char} {e : Char}
    (hrun : run % 2 = 0) (h : ∀ run, run % 2 = 0 → segmentEnd? run cs = some (n, e)) :
    segmentEnd? run (escapeChar c ++ cs) = some ((escapeChar c).length + n, e) := by
  have hodd : (run + 1) % 2 = 1 := by omega
  have hzero := h 0 rfl
  have htwo := h (run + 1 + 1) (by omega)
  unfold escapeChar
  split
  case h_6 hslash hquote hbar _ _ =>
    have hends : isSegmentEnd c = false := by
      simpa [isSegmentEnd] using And.intro (fun h => hquote h) fun h => hbar h
    have hslash : c ≠ '\\' := fun h => hslash h
    simp [segmentEnd?, hends, hslash, hzero, Nat.add_comm]
  all_goals simp [segmentEnd?, isSegmentEnd, hodd, hzero, htwo]; omega

/-- Escapes hide every quote and every bar of a text. -/
theorem segmentEnd?_escape (text : String) {e : Char} (he : isSegmentEnd e) (cs : List Char)
    (run : Nat) (hrun : run % 2 = 0) :
    segmentEnd? run (escape text ++ e :: cs) = some ((escape text).length, e) := by
  rw [escape]
  induction text.toList generalizing run with
  | nil => simp [segmentEnd?, he, hrun]
  | cons c t ih =>
    rw [List.flatMap_cons, List.append_assoc, segmentEnd?_escapeChar c hrun ih, List.length_append]

theorem newline_not_mem_escape (text : String) : '\n' ∉ escape text := by
  rw [escape, List.mem_flatMap]
  rintro ⟨c, -, hc⟩
  unfold escapeChar at hc
  split at hc
  case h_6 _ _ _ hnewline _ => exact hnewline (List.mem_singleton.1 hc).symm
  all_goals simp at hc

/-! ### The readings -/

theorem checkFollower_of_mem {kind : Kind} {w : Nat} {text : List Char} {c : Char}
    (hc : text[w]? = some c) (hallowed : ∀ allowed ∈ kind.followers?, c ∈ allowed) :
    checkFollower kind w text = .accepted kind w := by
  rw [checkFollower, hc]
  split
  next c' allowed hc' hk =>
    cases hc'
    rw [if_pos (by simpa using hallowed allowed hk)]
  next => rfl

theorem checkFollower_of_followers?_eq_none {kind : Kind} (h : kind.followers? = none) (w : Nat)
    (text : List Char) : checkFollower kind w text = .accepted kind w := by
  rw [checkFollower, h]
  split <;> trivial

variable {line : Nat} {earlier : List (List Char)} {passed : List Char} {st : State}

/-- What no lexeme but a word begins with. -/
theorem ne_of_isWordStart {c : Char} (h : isWordStart c) :
    c ≠ '\n' ∧ Text.isInlineBlank c = false ∧ c ≠ '"' ∧ c ≠ '|' ∧ c.isDigit = false := by
  refine ⟨?_, ?_, ?_, ?_, ?_⟩
  · rintro rfl
    cases h
  · cases hb : Text.isInlineBlank c with
    | false => rfl
    | true =>
      rcases isBlank_iff.1 (isBlank_of_isInlineBlank hb) with rfl | rfl | rfl | rfl <;> cases h
  · rintro rfl
    cases h
  · rintro rfl
    cases h
  · cases hd : c.isDigit with
    | false => rfl
    | true =>
      simp only [Char.isDigit, Bool.and_eq_true, decide_eq_true_eq] at hd
      change (decide ('A'.val ≤ c.val ∧ c.val ≤ 'Z'.val) ||
        (decide ('a'.val ≤ c.val) && decide (c.val ≤ 'z'.val)) || c == '_') = true at h
      simp only [Bool.or_eq_true, Bool.and_eq_true, decide_eq_true_eq, beq_iff_eq] at h
      rcases h with (h | h) | rfl
      · exact absurd (UInt32.le_trans h.1 hd.2) (by decide)
      · exact absurd (UInt32.le_trans h.1 hd.2) (by decide)
      · exact absurd hd.2 (by decide)

theorem read_of_isWordStart {before : List (List Char)} {c : Char} {cs : List Char}
    (hc : isWordStart c) : read before c cs st = readWord before (c :: cs) st := by
  obtain ⟨hnewline, hblank, hquote, hbar, hdigit⟩ := ne_of_isWordStart hc
  simp [read, hnewline, hblank, hquote, hbar, hdigit, hc]

/-- No keyword of two words where a single word ends at a character that is no gap. -/
theorem gapWidth?_eq_none {spelling word : List Char} {b : Char} (hgap : ' ' ∈ spelling)
    (hmem : b ∉ spelling) (hb : Text.isGap b = false) (hword : ∀ x ∈ word, isWordChar x)
    (cs : List Char) : gapWidth? spelling (word ++ b :: cs) = none := by
  induction spelling generalizing word with
  | nil => cases hgap
  | cons s ss ih =>
    by_cases hs : s = ' '
    · have hnone : (word ++ b :: cs).takeWhile Text.isGap = [] := by
        cases word with
        | nil => simp [hb]
        | cons x xs =>
          have hx : Text.isGap x = false := by
            cases hb : Text.isGap x with
            | false => rfl
            | true =>
              have hx := hword x List.mem_cons_self
              have hcases : x = ' ' ∨ x = '\t' := by simpa [Text.isGap] using hb
              rcases hcases with rfl | rfl <;> cases hx
          simp [hx]
      simp [gapWidth?, hs, hnone]
    · have hgap : ' ' ∈ ss := (List.mem_cons.1 hgap).resolve_left (Ne.symm hs)
      rw [List.mem_cons, not_or] at hmem
      cases word with
      | nil => simp [gapWidth?, hs, Ne.symm hmem.1]
      | cons x xs =>
        have hrest := ih hgap hmem.2 fun y hy => hword y (List.mem_cons_of_mem _ hy)
        simp only [List.cons_append, gapWidth?, hs, if_false]
        split
        next => rw [hrest]; rfl
        next => rfl

theorem doubleKeyword?_eq_none {word : List Char} {b : Char} (hend : isWordChar b = false)
    (hb : Text.isGap b = false) (hword : ∀ x ∈ word, isWordChar x) (cs : List Char) :
    doubleKeyword? (word ++ b :: cs) = none := by
  have hspellings : ∀ k ∈ Keyword.doubles, ' ' ∈ k.spelling.toList ∧
      k.spelling.toList.all fun x => isWordChar x || Text.isGap x := by
    decide
  rw [doubleKeyword?, List.findSome?_eq_none_iff]
  intro k hk
  have hmem : b ∉ k.spelling.toList := by
    intro hmem
    simpa [hend, hb] using List.all_eq_true.1 (hspellings k hk).2 b hmem
  rw [gapWidth?_eq_none (hspellings k hk).1 hmem hb hword]

theorem length_delimited (first last : Char) (text : String) :
    (delimited first last text).length = (escape text).length + 2 := by
  rw [← String.length_toList, delimited, String.toList_ofList, List.length_cons, List.length_append]
  rfl

theorem read_string (before : List (List Char)) (text : String) (cs : List Char) (st : State) :
    read before '"' (escape text ++ '"' :: '~' :: cs) st =
      (.accepted .stringLiteral (delimited '"' '"' text).length, st) := by
  have hend := segmentEnd?_escape text (e := '"') rfl ('~' :: cs) 0 rfl
  have hnext :
      ('"' :: (escape text ++ '"' :: '~' :: cs))[(escape text).length + 2]? = some '~' := by
    simp
  change readString ('"' :: (escape text ++ '"' :: '~' :: cs)) st = _
  rw [readString, List.tail_cons, hend, length_delimited]
  exact congrArg (·, st) (checkFollower_of_mem hnext (by decide))

theorem read_stringPartStart (before : List (List Char)) (text : String) (cs : List Char)
    (st : State) : read before '"' (escape text ++ '|' :: cs) st =
      (.accepted .stringPartStart (delimited '"' '|' text).length,
        { st with interpolating := true }) := by
  have hend := segmentEnd?_escape text (e := '|') rfl cs 0 rfl
  change readString ('"' :: (escape text ++ '|' :: cs)) st = _
  rw [readString, List.tail_cons, hend, length_delimited]
  exact congrArg (·, _) (checkFollower_of_followers?_eq_none rfl _ _)

theorem read_stringPartMid (before : List (List Char)) (text : String) (cs : List Char)
    {st : State} (hst : st.interpolating) : read before '|' (escape text ++ '|' :: cs) st =
      (.accepted .stringPartMid (delimited '|' '|' text).length, st) := by
  have hend := segmentEnd?_escape text (e := '|') rfl cs 0 rfl
  have hpart : read before '|' (escape text ++ '|' :: cs) st =
      readStringPart ('|' :: (escape text ++ '|' :: cs)) st := by
    simp [read, hst, Text.isInlineBlank, Text.isGap]
  rw [hpart, readStringPart, List.tail_cons, hend, length_delimited]
  exact congrArg (·, _) (checkFollower_of_followers?_eq_none rfl _ _)

theorem read_stringPartEnd (before : List (List Char)) (text : String) (cs : List Char)
    {st : State} (hst : st.interpolating) : read before '|' (escape text ++ '"' :: '~' :: cs) st =
      (.accepted .stringPartEnd (delimited '|' '"' text).length,
        { st with interpolating := false }) := by
  have hend := segmentEnd?_escape text (e := '"') rfl ('~' :: cs) 0 rfl
  have hnext :
      ('|' :: (escape text ++ '"' :: '~' :: cs))[(escape text).length + 2]? = some '~' := by
    simp
  have hpart : read before '|' (escape text ++ '"' :: '~' :: cs) st =
      readStringPart ('|' :: (escape text ++ '"' :: '~' :: cs)) st := by
    simp [read, hst, Text.isInlineBlank, Text.isGap]
  rw [hpart, readStringPart, List.tail_cons, hend, length_delimited]
  exact congrArg (·, _) (checkFollower_of_mem hnext (by decide))

theorem followers?_of_isName {kind : Kind} (h : kind.isName) :
    kind.followers? = some Follower.afterClose := by
  cases kind <;> first | rfl | cases h

/-- A name is read up to a character that may follow one. -/
theorem read_plainName {name : String} (hname : isPlainName name) (before : List (List Char))
    {b : Char} (hend : isWordChar b = false) (hb : Text.isGap b = false)
    (hfollow : b ∈ Follower.afterClose) (cs : List Char) (st : State) :
    ∃ c t, name.toList = c :: t ∧ c ≠ '\n' ∧
      read before c (t ++ b :: cs) st =
        (.accepted (nameKind st.names (afterClassKeyword before) name).2 name.length,
          { st with names := (nameKind st.names (afterClassKeyword before) name).1 }) := by
  rw [isPlainName, Bool.and_eq_true, Bool.and_eq_true, List.all_eq_true] at hname
  obtain ⟨⟨hstart, hall⟩, hkeyword⟩ := hname
  obtain ⟨c, hc, hstart⟩ := (Option.any_eq_true _ _).1 hstart
  obtain ⟨t, ht⟩ := List.head?_eq_some_iff.1 hc
  refine ⟨c, t, ht, (ne_of_isWordStart hstart).1, ?_⟩
  have hword : (name.toList ++ b :: cs).takeWhile isWordChar = name.toList := by
    rw [List.takeWhile_append_of_pos hall]
    simp [hend]
  have hfollower : (name.toList ++ b :: cs)[name.toList.length]? = some b := by simp
  have hlonger : ¬ (name.toList ++ b :: cs).length ≤ name.toList.length := by
    rw [List.length_append, List.length_cons]
    omega
  have hkind := (nameKind_eq (Prod.eta
    (nameKind st.names (afterClassKeyword before) name)).symm).1
  rw [read_of_isWordStart hstart, ← List.cons_append, ← ht, readWord, hword,
    doubleKeyword?_eq_none hend hb hall, String.ofList_toList, Option.isNone_iff_eq_none.1 hkeyword]
  simp only [readName, hlonger, if_false, String.ofList_toList]
  rw [checkFollower_of_mem hfollower, String.length_toList]
  rw [followers?_of_isName hkind]
  rintro _ ⟨⟩
  exact hfollow

/-- Behind a bar a word is no name of a new class. -/
theorem read_name {name : String} (hname : isPlainName name) (passed : List Char)
    (earlier : List (List Char)) (cs : List Char) {st : State} (hst : st.names.classes = .empty) :
    ∃ c t, name.toList = c :: t ∧ c ≠ '\n' ∧
      read (('|' :: passed) :: earlier) c (t ++ '|' :: cs) st =
        (.accepted (.identifier (st.names.withIdentifier name).2) name.length,
          { st with names := (st.names.withIdentifier name).1 }) := by
  have hclass : st.names.classes.id? name = none := by
    rw [hst]
    rfl
  have hkind : nameKind st.names (afterClassKeyword (('|' :: passed) :: earlier)) name =
      ((st.names.withIdentifier name).1, .identifier (st.names.withIdentifier name).2) := by
    have hbefore : afterClassKeyword (('|' :: passed) :: earlier) = false := rfl
    simp only [nameKind, hbefore, hclass, Bool.false_eq_true, if_false]
  have hread :=
    read_plainName hname (('|' :: passed) :: earlier) (b := '|') rfl rfl (by decide) cs st
  rwa [hkind] at hread

theorem read_terminator (before : List (List Char)) (st : State) :
    read before '~' ['\n'] st = (.accepted (.symbol .terminator) 1, st) := by
  change readSymbol ['~', '\n'] st = _
  have hsymbol : symbolAt? st.openBrackets ['~', '\n'] = some .terminator := by
    cases h : st.openBrackets <;> rfl
  rw [readSymbol, if_neg (by decide), hsymbol]
  exact congrArg (·, _) (checkFollower_of_followers?_eq_none rfl _ _)

/-! ### Lines -/

/-- From a place on, the line is read into these words, and nothing in it is rejected. -/
def ReadsLine (line : Nat) (earlier : List (List Char)) (passed text : List Char) (st : State)
    (ws : List Word) (last : State) : Prop :=
  ∃ ps, linePieces line earlier 0 passed text st = (ps, last) ∧
    ps.filterMap Piece.diagnostic? = [] ∧ (ps.filterMap Piece.token?).map Token.word = ws

variable {line : Nat} {earlier : List (List Char)} {passed : List Char} {st : State}

theorem linePieces_skip (word rest : List Char) (passed : List Char) (st : State) :
    linePieces line earlier word.length passed (word ++ rest) st =
      linePieces line earlier 0 (word.reverse ++ passed) rest st := by
  induction word generalizing passed with
  | nil => rfl
  | cons c cs ih => rw [List.length_cons, List.cons_append, linePieces, ih]; simp

theorem readsLine_nil : ReadsLine line earlier passed [] st [] st :=
  ⟨[], rfl, rfl, rfl⟩

/-- An accepted lexeme is the next piece. -/
theorem linePieces_accepted (line : Nat) {st' : State} {kind : Kind} {c : Char}
    {t rest : List Char} (hopen : ¬(c = '\n' ∧ st.interpolating))
    (hread : read (passed :: earlier) c (t ++ rest) st = (.accepted kind (t.length + 1), st')) :
    linePieces line earlier 0 passed (c :: t ++ rest) st =
      (.token ⟨kind, String.ofList (c :: t), .ofWidth ⟨line, passed.length⟩ (t.length + 1)⟩ ::
        (linePieces line earlier 0 ((c :: t).reverse ++ passed) rest st').1,
        (linePieces line earlier 0 ((c :: t).reverse ++ passed) rest st').2) := by
  have htake : (c :: (t ++ rest)).take (t.length + 1) = c :: t := by
    rw [List.take_succ_cons, List.take_left]
  rw [List.cons_append, linePieces, hread]
  simp only [Reading.width, Nat.add_sub_cancel, linePieces_skip, if_neg hopen, Reading.piece, htake,
    List.reverse_cons, List.append_assoc, List.singleton_append]

/-- An accepted lexeme is the next word. -/
theorem ReadsLine.cons {st' last : State} {kind : Kind} {lexeme : String} {c : Char}
    {t rest : List Char} {ws : List Word} (hlexeme : lexeme.toList = c :: t)
    (hopen : ¬(c = '\n' ∧ st.interpolating))
    (hread : read (passed :: earlier) c (t ++ rest) st = (.accepted kind lexeme.length, st'))
    (h : ReadsLine line earlier (lexeme.toList.reverse ++ passed) rest st' ws last) :
    ReadsLine line earlier passed (lexeme.toList ++ rest) st (⟨kind, lexeme⟩ :: ws) last := by
  obtain ⟨ps, hps, hd, hw⟩ := h
  have hlength : lexeme.length = t.length + 1 := by
    rw [← String.length_toList, hlexeme, List.length_cons]
  have hword : String.ofList (c :: t) = lexeme := by rw [← hlexeme, String.ofList_toList]
  rw [hlength] at hread
  rw [hlexeme] at hps ⊢
  have hpieces := linePieces_accepted line hopen hread
  rw [hps] at hpieces
  refine ⟨_, hpieces, hd, ?_⟩
  simp [Piece.token?, Token.word, hw, hword]

theorem ReadsLine.le {ws : List Word} {last : State} {text : List Char}
    (h : ReadsLine line earlier passed text st ws last) : st.names ≤ last.names := by
  obtain ⟨ps, hps, -⟩ := h
  have hle := (allFit_linePieces line earlier text 0 passed st).1
  rwa [hps] at hle

/-- A part of a string is the next word. -/
theorem ReadsLine.part {st' last : State} {kind : Kind} {opening closing : Char} {text : String}
    {rest : List Char} {ws : List Word} (hopening : opening ≠ '\n')
    (hread : read (passed :: earlier) opening (escape text ++ closing :: rest) st =
      (.accepted kind (delimited opening closing text).length, st'))
    (h : ReadsLine line earlier (closing :: ((escape text).reverse ++ opening :: passed)) rest st'
      ws last) :
    ReadsLine line earlier passed (opening :: (escape text ++ closing :: rest)) st
      (⟨kind, delimited opening closing text⟩ :: ws) last := by
  have hlexeme : (delimited opening closing text).toList = opening :: (escape text ++ [closing]) :=
    String.toList_ofList
  have happend : opening :: (escape text ++ closing :: rest) =
      (delimited opening closing text).toList ++ rest := by simp [hlexeme]
  rw [happend]
  refine .cons hlexeme (fun hopen => hopening hopen.1) ?_ (by simpa [hlexeme] using h)
  rwa [List.append_assoc, List.singleton_append]

/-! ### The string -/

/-- The words of the line behind a string. -/
def lineEnd : List Word :=
  [Symbol.terminator.word, ⟨.newline, "\n"⟩]

theorem readsLine_end (hst : st.interpolating = false) :
    ReadsLine line earlier passed ['~', '\n'] st lineEnd st := by
  have hnewline (before : List (List Char)) :
      read before '\n' ([] ++ []) st = (.accepted .newline 1, st) := by
    obtain ⟨names, openBrackets, interpolating⟩ := st
    cases hst
    rfl
  have hopen (c : Char) : ¬(c = '\n' ∧ st.interpolating) := by simp [hst]
  have hlast : "\n".toList = ['\n'] := by decide
  have hsign : Symbol.terminator.spelling.toList = ['~'] := by decide
  have hbehind : ReadsLine line earlier ('~' :: passed) ['\n'] st [⟨.newline, "\n"⟩] st :=
    .cons hlast (hopen _) (hnewline _) readsLine_nil
  exact .cons hsign (hopen _) (read_terminator _ st) hbehind

/-- The rest of the line is read into the words that the names give which are known behind it. No
class is among them, and no string is open. -/
def ReadsTo (line : Nat) (earlier : List (List Char)) (passed text : List Char) (st : State)
    (ws : Names → List Word) : Prop :=
  ∃ last, ReadsLine line earlier passed text st (ws last.names) last ∧
    last.interpolating = false ∧ last.names.classes = .empty

/-- A text before a bar, and the name behind it. -/
theorem readsTo_interpolation {opening : Char} {kind : Kind} {text name : String}
    {rest : List Char} {st' : State} {ws : Names → List Word} (hopening : opening ≠ '\n')
    (hname : isPlainName name) (hclasses : st'.names.classes = .empty)
    (hread : read (passed :: earlier) opening
      (escape text ++ '|' :: (name.toList ++ '|' :: rest)) st =
      (.accepted kind (delimited opening '|' text).length, st'))
    (h : ∀ passed names, names.classes = .empty →
      ReadsTo line earlier passed ('|' :: rest) { st' with names } ws) :
    ReadsTo line earlier passed (opening :: (escape text ++ '|' :: (name.toList ++ '|' :: rest))) st
      fun names => ⟨kind, delimited opening '|' text⟩ :: names.nameWord name :: ws names := by
  obtain ⟨c, t, hct, hnewline, hread'⟩ :=
    read_name hname ((escape text).reverse ++ opening :: passed) earlier rest hclasses
  obtain ⟨last, hline, hlast⟩ := h
    (name.toList.reverse ++ '|' :: ((escape text).reverse ++ opening :: passed))
    (st'.names.withIdentifier name).1 hclasses
  have hid : last.names.identifiers.id? name = some (st'.names.withIdentifier name).2 :=
    NameTable.id?_of_le hline.le.1 (st'.names.identifiers.id?_intern name)
  have hword : last.names.nameWord name =
      ⟨.identifier (st'.names.withIdentifier name).2, name⟩ := by
    rw [Names.nameWord, hid]
    rfl
  refine ⟨last, .part hopening hread ?_, hlast⟩
  rw [hword]
  exact .cons hct (fun hopen => hnewline hopen.1) hread' hline

theorem readsTo_parts {is : List Interpolation} (his : ∀ i ∈ is, isPlainName i.name)
    (text : String) (passed : List Char) {st : State} (hst : st.interpolating)
    (hclasses : st.names.classes = .empty) :
    ReadsTo line earlier passed ('|' :: (quotedTail text is ++ ['~', '\n'])) st
      fun names => partWords names text is ++ lineEnd := by
  induction is generalizing text passed st with
  | nil =>
    rw [quotedTail, List.append_assoc]
    exact ⟨{ st with interpolating := false }, .part (by decide)
      (read_stringPartEnd _ text _ hst) (readsLine_end rfl), rfl, hclasses⟩
  | cons i is ih =>
    rw [List.forall_mem_cons] at his
    have htail : quotedTail text (i :: is) ++ ['~', '\n'] =
        escape text ++ '|' :: (i.name.toList ++ '|' :: (quotedTail i.text is ++ ['~', '\n'])) := by
      simp [quotedTail]
    rw [htail]
    exact readsTo_interpolation (by decide) his.1 hclasses (read_stringPartMid _ text _ hst)
      fun passed _ hnames => ih his.2 i.text passed hst hnames

theorem readsTo_quoted {is : List Interpolation} (his : ∀ i ∈ is, isPlainName i.name)
    (text : String) (passed : List Char) {st : State} (hst : st.interpolating = false)
    (hclasses : st.names.classes = .empty) :
    ReadsTo line earlier passed ('"' :: (quotedTail text is ++ ['~', '\n'])) st
      fun names => quotedWords names text is ++ lineEnd := by
  cases is with
  | nil =>
    rw [quotedTail, List.append_assoc]
    exact ⟨st, .part (by decide) (read_string _ text _ st) (readsLine_end hst), hst, hclasses⟩
  | cons i is =>
    rw [List.forall_mem_cons] at his
    have htail : quotedTail text (i :: is) ++ ['~', '\n'] =
        escape text ++ '|' :: (i.name.toList ++ '|' :: (quotedTail i.text is ++ ['~', '\n'])) := by
      simp [quotedTail]
    have hopen : ({ st with interpolating := true } : State).interpolating := rfl
    rw [htail]
    refine readsTo_interpolation (by decide) his.1 ?_ (read_stringPartStart _ text _ st)
      fun passed _ hnames => readsTo_parts his.2 i.text passed hopen hnames
    exact hclasses

end Lexeme

/-! ### The document -/

theorem Token.reclassify_of_empty {names : Names} (h : names.classes = .empty) (t : Token) :
    t.reclassify names = t := by
  have hnone : names.classes.id? t.lexeme = none := by
    rw [h]
    rfl
  rw [reclassify]
  split
  next => rw [hnone]
  next => rfl

/-- The line is a document of its own, and it is read into the words of the string. -/
theorem Lexed.ofLines_quotedLine (text : String) {is : List Interpolation}
    (his : ∀ i ∈ is, isPlainName i.name) :
    let x := ofLines [quotedLine text is] .empty
    x.diagnostics = [] ∧ x.tokens.map Token.word =
      quotedWords x.names text is ++ (Lexeme.lineEnd ++ [⟨.endOfFile, ""⟩]) := by
  obtain ⟨last, ⟨ps, hps, hd, hw⟩, hlast, hclasses⟩ :=
    @Lexeme.readsTo_quoted 0 [] is his text [] (.initial .empty) rfl rfl
  have hpieces : pieces [quotedLine text is] .empty = (ps, last) := by
    have hline : (quotedLine text is).toList = '"' :: (quotedTail text is ++ ['~', '\n']) :=
      String.toList_ofList
    simp [pieces, Lexeme.pieces, Document.ofStrings, hline, hps]
  have hnames : (ofLines [quotedLine text is] .empty).names = last.names :=
    congrArg (fun q => q.2.names) hpieces
  intro x
  refine ⟨?_, ?_⟩
  · rw [diagnostics_ofLines, hpieces, hd, hlast]
    rfl
  · have hsame : Token.reclassify last.names = id := funext (Token.reclassify_of_empty hclasses)
    rw [tokens_ofLines, hpieces, hnames, hsame, List.map_id, List.map_append, hw, List.append_assoc]
    rfl

end Uwu
