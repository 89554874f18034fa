import Mathlib.Data.List.Sort
import Uwu.Lexeme.Segment
import Uwu.Proofs.Source.Search

/-! The end of a string segment. A search goes from one quote or bar to the next and looks back at
the backslashes before each; behind an odd number of them it begins anew. What it finds is where a
reader stops that goes from left to right and takes a backslash together with the character after
it, so the text of a segment is made of whole units, each of which stands for one character. -/

namespace Uwu

open Lexeme (isSegmentEnd segmentEnd? scanSegment? unescape escaped)

namespace Document

variable {d : Document} {n c k : Nat} {chars : List Char} {x : Char}

/-! ### The nearest mark of a line -/

/-- The marks that may end a segment. -/
def segmentMarks : List (List Char) :=
  [['"'], ['|']]

/-- The column of the mark that is nearest to a place, going forward on its line. -/
def nextMark? (d : Document) (n c : Nat) : Option Nat :=
  if c < (d[n]?.getD []).length then
    (d.nearest? segmentMarks .forward 0 false ⟨n, c⟩).map fun (p, _) => p.column
  else none

/-- On its own line a search passes the columns one after the other. -/
theorem considered_line (hl : d[n]? = some chars) (hc : c < chars.length) :
    d.considered 0 false ⟨n, c⟩ .forward =
      (List.range' c (chars.length - c)).map fun k => ⟨n, k⟩ := by
  have hp : (d.charAt? ⟨n, c⟩).isSome := isSome_charAt?.2 ⟨chars, hl, hc⟩
  have hirrefl : Std.Irrefl fun p q : Position => p.Precedes q .forward :=
    ⟨fun p h => precedes_asymm h h⟩
  have hantisymm : Std.Antisymm fun p q : Position => p.Precedes q .forward :=
    ⟨fun p q h h' => absurd h' (precedes_asymm h)⟩
  refine pairwise_considered.eq_of_mem_iff ?_ fun q => ?_
  · have hincreasing : (List.range' c (chars.length - c)).Pairwise (· < ·) :=
      List.pairwise_lt_range'
    exact List.pairwise_map.2 (hincreasing.imp fun hlt => .inr ⟨rfl, hlt⟩)
  · obtain ⟨m, k⟩ := q
    rw [mem_considered hp (Nat.zero_le _), List.mem_map]
    simp only [Considers, InReach, Bool.false_eq_true, false_implies, and_true, isSome_charAt?,
      Position.le_def, List.mem_range'_1, Position.mk.injEq]
    constructor
    · rintro ⟨⟨l, hm, hk⟩, hle, hnear⟩
      obtain rfl : n = m := by omega
      cases hl.symm.trans hm
      exact ⟨k, by omega, rfl, rfl⟩
    · rintro ⟨k, hk, rfl, rfl⟩
      exact ⟨⟨chars, hl, by omega⟩, by omega, by omega⟩

theorem targetAt?_segmentMarks (hl : d[n]? = some chars) (hx : chars[c]? = some x) :
    (d.targetAt? segmentMarks .forward ⟨n, c⟩).map (fun (p, _) => p.column) =
      if isSegmentEnd x then some c else none := by
  obtain ⟨rest, hrest⟩ : ∃ rest, d.restOfLine ⟨n, c⟩ = x :: rest := by
    obtain ⟨hc, rfl⟩ := List.getElem?_eq_some_iff.1 hx
    exact ⟨_, by rw [restOfLine, hl, Option.getD_some, List.drop_eq_getElem_cons hc]⟩
  have hmark (m : Char) : [m].isPrefixOf (x :: rest) = (m == x) := Bool.and_true _
  simp only [targetAt?, segmentMarks, List.zipIdx_cons, List.zipIdx_nil, List.findSome?_cons,
    List.findSome?_nil, occurrence?, hrest, hmark, isSegmentEnd]
  by_cases hquote : x = '"'
  · simp [hquote]
  · by_cases hbar : x = '|'
    · simp [hbar]
    · simp [hquote, hbar, Ne.symm hquote, Ne.symm hbar]

/-- The search looks at the columns from the place on. -/
theorem nextMark?_eq (hl : d[n]? = some chars) (c : Nat) :
    d.nextMark? n c = (List.range' c (chars.length - c)).findSome? fun k =>
      (d.targetAt? segmentMarks .forward ⟨n, k⟩).map fun (p, _) => p.column := by
  rw [nextMark?, hl, Option.getD_some]
  split
  next hc =>
    rw [nearest?_eq, considered_line hl hc, List.findSome?_map, List.map_findSome?]
    rfl
  next hc =>
    have hzero : chars.length - c = 0 := by omega
    rw [hzero]
    rfl

/-- A mark is found where it is, and another character is passed over. -/
theorem nextMark?_step (hl : d[n]? = some chars) (hx : chars[c]? = some x) :
    d.nextMark? n c = if isSegmentEnd x then some c else d.nextMark? n (c + 1) := by
  obtain ⟨hc, -⟩ := List.getElem?_eq_some_iff.1 hx
  obtain ⟨m, hm⟩ : ∃ m, chars.length - c = m + 1 := ⟨chars.length - c - 1, by omega⟩
  have hnext : chars.length - (c + 1) = m := by omega
  rw [nextMark?_eq hl, nextMark?_eq hl, hm, hnext, List.range'_succ, List.findSome?_cons,
    targetAt?_segmentMarks hl hx]
  cases isSegmentEnd x <;> rfl

theorem bounds_of_nextMark? (h : d.nextMark? n c = some k) :
    c ≤ k ∧ k < (d[n]?.getD []).length := by
  cases hl : d[n]? with
  | none =>
    rw [nextMark?, hl] at h
    cases h
  | some chars =>
    rw [nextMark?_eq hl] at h
    obtain ⟨j, hj, hfound⟩ := List.exists_of_findSome?_eq_some h
    rw [List.mem_range'_1] at hj
    have hx : chars[j]? = some chars[j] := List.getElem?_eq_getElem (by omega)
    rw [targetAt?_segmentMarks hl hx] at hfound
    obtain ⟨-, hjk⟩ := Option.ite_none_right_eq_some.1 hfound
    cases hjk
    rw [Option.getD_some]
    omega

/-! ### The search -/

/-- The backslashes directly before a column. -/
def backslashesBefore (chars : List Char) (c : Nat) : Nat :=
  ((chars.take c).reverse.takeWhile (· == '\\')).length

/-- Where the segment that begins at a place ends, and with which mark. Behind an odd number of
backslashes a mark is escaped, and the search begins anew behind it. -/
def segmentEndFrom? (d : Document) (n c : Nat) : Option (Nat × Char) :=
  match _h : d.nextMark? n c with
  | none => none
  | some k =>
    if backslashesBefore (d[n]?.getD []) k % 2 = 1 then segmentEndFrom? d n (k + 1)
    else (d[n]?.getD [])[k]?.map fun e => (k, e)
termination_by (d[n]?.getD []).length - c
decreasing_by
  have hk := bounds_of_nextMark? _h
  omega

theorem segmentEndFrom?_eq (d : Document) (n c : Nat) :
    d.segmentEndFrom? n c = (d.nextMark? n c).bind fun k =>
      if backslashesBefore (d[n]?.getD []) k % 2 = 1 then d.segmentEndFrom? n (k + 1)
      else (d[n]?.getD [])[k]?.map fun e => (k, e) := by
  rw [segmentEndFrom?]
  split
  next h => rw [h, Option.bind_none]
  next k h => rw [h, Option.bind_some]

/-- The search ends at a mark that is not escaped, and goes on behind any other character. -/
theorem segmentEndFrom?_step (hl : d[n]? = some chars) (hx : chars[c]? = some x) :
    d.segmentEndFrom? n c =
      if isSegmentEnd x && backslashesBefore chars c % 2 == 0 then some (c, x)
      else d.segmentEndFrom? n (c + 1) := by
  rw [segmentEndFrom?_eq, nextMark?_step hl hx]
  cases isSegmentEnd x with
  | false => exact (segmentEndFrom?_eq d n (c + 1)).symm
  | true =>
    rw [if_pos rfl, Option.bind_some, hl, Option.getD_some, hx, Option.map_some, Bool.true_and]
    rcases Nat.mod_two_eq_zero_or_one (backslashesBefore chars c) with h | h <;> simp [h]

theorem backslashesBefore_succ (hx : chars[c]? = some x) :
    backslashesBefore chars (c + 1) = if x = '\\' then backslashesBefore chars c + 1 else 0 := by
  rw [backslashesBefore, List.take_add_one, hx, Option.toList_some, List.reverse_append,
    List.reverse_singleton, List.singleton_append, List.takeWhile_cons]
  by_cases h : x = '\\' <;> simp [h, backslashesBefore]

/-- Counting the backslashes on the way leads to the same end as looking back at each mark. -/
theorem segmentEndFrom?_eq_segmentEnd? (hl : d[n]? = some chars) (c : Nat) :
    d.segmentEndFrom? n c =
      (segmentEnd? (backslashesBefore chars c) (chars.drop c)).map (Prod.map (c + ·) id) := by
  -- On the text that is left. The count that `segmentEnd?` is given is the run that the search would
  -- come upon if it looked back from here.
  induction htext : chars.drop c generalizing c with
  | nil =>
    have hc : chars.length ≤ c := List.drop_eq_nil_iff.1 htext
    rw [segmentEndFrom?_eq, nextMark?, hl, Option.getD_some, if_neg (Nat.not_lt.2 hc)]
    rfl
  | cons x text ih =>
    have hx : chars[c]? = some x := by rw [← List.head?_drop, htext, List.head?_cons]
    have hrest : chars.drop (c + 1) = text := by
      rw [← List.drop_drop, htext, List.drop_succ_cons, List.drop_zero]
    rw [segmentEndFrom?_step hl hx, segmentEnd?, ih (c + 1) hrest, backslashesBefore_succ hx]
    split
    next => rfl
    next =>
      rw [Option.map_map]
      congr 1
      funext r
      obtain ⟨k, e⟩ := r
      simp only [Function.comp_apply, Prod.map_apply, Nat.add_assoc, Nat.add_comm 1 k]

end Document

namespace Lexeme

variable {run : Nat} {text : List Char}

/-! ### Reading in pairs -/

/-- Behind an odd number of backslashes a character is passed over, whatever it is. -/
theorem segmentEnd?_of_odd (hrun : run % 2 = 1) (x : Char)
    (h : ∀ run, run % 2 = 0 → segmentEnd? run text = scanSegment? text) :
    segmentEnd? run (x :: text) = (scanSegment? text).map fun (n, e) => (n + 1, e) := by
  have heven : (if x = '\\' then run + 1 else 0) % 2 = 0 := by
    split <;> omega
  rw [segmentEnd?, h _ heven]
  simp [hrun]

/-- Behind an even number of backslashes the text is read in pairs. -/
theorem segmentEnd?_of_even (hrun : run % 2 = 0) (text : List Char) :
    segmentEnd? run text = scanSegment? text := by
  fun_induction scanSegment? text generalizing run with
  | case1 => rfl
  | case2 => rfl
  | case3 x cs ih =>
    -- The backslash makes the count odd, and the character behind it makes it even again.
    have hodd : (run + 1) % 2 = 1 := by omega
    rw [segmentEnd?, if_pos rfl, segmentEnd?_of_odd hodd x fun _ h => ih h, Option.map_map]
    rfl
  | case4 x cs hx hend => simp [segmentEnd?, hrun, hend]
  | case5 x cs hx hend ih =>
    have hslash : x ≠ '\\' := fun h => hx h
    rw [segmentEnd?, if_neg hslash, ih rfl]
    simp [hend]

/-! ### Units -/

/-- What a segment is made of: a character, or a backslash with the character after it. -/
inductive TextUnit where
  | plain (c : Char)
  | escape (c : Char)

namespace TextUnit

def written : TextUnit → List Char
  | plain c => [c]
  | escape c => ['\\', c]

/-- The character that it stands for. -/
def value : TextUnit → Char
  | plain c => c
  | escape c => escaped c

/-- A character without a backslash neither begins an escape nor ends the segment. -/
def Proper : TextUnit → Prop
  | plain c => c ≠ '\\' ∧ isSegmentEnd c = false
  | escape _ => True

end TextUnit

/-- Units one behind the other. -/
def unitsText (us : List TextUnit) : List Char :=
  us.flatMap TextUnit.written

/-- The text is written in these units, and they are replaced one by one. -/
structure Splits (text : List Char) (us : List TextUnit) : Prop where
  proper : ∀ u ∈ us, u.Proper
  written : text = unitsText us
  values : unescape text = us.map TextUnit.value

variable {us : List TextUnit}

theorem unescape_unitsText (h : ∀ u ∈ us, u.Proper) :
    unescape (unitsText us) = us.map TextUnit.value := by
  induction us with
  | nil => rfl
  | cons u us ih =>
    obtain ⟨hu, hus⟩ := List.forall_mem_cons.1 h
    rw [List.map_cons, ← ih hus]
    cases u with
    | escape c => rfl
    | plain c => exact unescape.eq_4 c _ fun hc => hu.1 hc

theorem splits_unitsText (h : ∀ u ∈ us, u.Proper) : Splits (unitsText us) us :=
  ⟨h, rfl, unescape_unitsText h⟩

/-- Units are passed over as wholes. -/
theorem scanSegment?_unitsText (h : ∀ u ∈ us, u.Proper) (rest : List Char) :
    scanSegment? (unitsText us ++ rest) =
      (scanSegment? rest).map fun (n, e) => ((unitsText us).length + n, e) := by
  induction us with
  | nil => simp [unitsText]
  | cons u us ih =>
    obtain ⟨hu, hus⟩ := List.forall_mem_cons.1 h
    have hstep : scanSegment? (unitsText (u :: us) ++ rest) =
        (scanSegment? (unitsText us ++ rest)).map fun (n, e) => (n + u.written.length, e) := by
      cases u with
      | escape c => rfl
      | plain c =>
        exact (scanSegment?.eq_4 c _ fun hc => hu.1 hc).trans
          (if_neg (Bool.eq_false_iff.1 hu.2))
    rw [hstep, ih hus, Option.map_map]
    congr 1
    funext r
    obtain ⟨n, e⟩ := r
    simp only [unitsText, List.flatMap_cons, List.length_append, Function.comp_apply, Prod.mk.injEq,
      and_true]
    omega

/-- A text is written in units up to a mark, or up to its end, where a backslash may be left. -/
theorem exists_units (text : List Char) : ∃ us rest, (∀ u ∈ us, TextUnit.Proper u) ∧
    text = unitsText us ++ rest ∧
      (rest = [] ∨ rest = ['\\'] ∨ ∃ e behind, isSegmentEnd e ∧ rest = e :: behind) := by
  fun_induction scanSegment? text with
  | case1 => exact ⟨[], [], List.forall_mem_nil _, rfl, .inl rfl⟩
  | case2 => exact ⟨[], _, List.forall_mem_nil _, rfl, .inr (.inl rfl)⟩
  | case3 c cs ih =>
    obtain ⟨us, rest, hus, rfl, hrest⟩ := ih
    exact ⟨.escape c :: us, rest, List.forall_mem_cons.2 ⟨trivial, hus⟩, rfl, hrest⟩
  | case4 c cs _ hend => exact ⟨[], _, List.forall_mem_nil _, rfl, .inr (.inr ⟨c, cs, hend, rfl⟩)⟩
  | case5 c cs hslash hend ih =>
    obtain ⟨us, rest, hus, rfl, hrest⟩ := ih
    have hc : TextUnit.Proper (.plain c) := ⟨fun h => hslash h, Bool.eq_false_of_not_eq_true hend⟩
    exact ⟨.plain c :: us, rest, List.forall_mem_cons.2 ⟨hc, hus⟩, rfl, hrest⟩

theorem scanSegment?_of_isSegmentEnd {e : Char} (h : isSegmentEnd e) (behind : List Char) :
    scanSegment? (e :: behind) = some (0, e) := by
  have hmark : e = '"' ∨ e = '|' := by simpa [isSegmentEnd] using h
  rcases hmark with rfl | rfl <;> rfl

/-- No mark ends the text where it is made of units as a whole, but for a backslash behind them. -/
theorem scanSegment?_eq_none_iff : scanSegment? text = none ↔
    ∃ us, (∀ u ∈ us, TextUnit.Proper u) ∧ (text = unitsText us ∨
      text = unitsText us ++ ['\\']) := by
  constructor
  · intro hnone
    obtain ⟨us, rest, hus, rfl, hrest⟩ := exists_units text
    rcases hrest with rfl | rfl | ⟨e, behind, he, rfl⟩
    · exact ⟨us, hus, .inl (List.append_nil _)⟩
    · exact ⟨us, hus, .inr rfl⟩
    · rw [scanSegment?_unitsText hus, scanSegment?_of_isSegmentEnd he] at hnone
      cases hnone
  · rintro ⟨us, hus, rfl | rfl⟩
    · rw [← List.append_nil (unitsText us), scanSegment?_unitsText hus]
      rfl
    · rw [scanSegment?_unitsText hus]
      rfl

/-- A mark ends the text where it stands behind whole units. -/
theorem scanSegment?_eq_some_iff {n : Nat} {e : Char} : scanSegment? text = some (n, e) ↔
    isSegmentEnd e ∧ text[n]? = some e ∧ ∃ us, Splits (text.take n) us := by
  constructor
  · intro hsome
    obtain ⟨us, rest, hus, rfl, hrest⟩ := exists_units text
    rw [scanSegment?_unitsText hus] at hsome
    rcases hrest with rfl | rfl | ⟨e, behind, he, rfl⟩
    · cases hsome
    · cases hsome
    · rw [scanSegment?_of_isSegmentEnd he] at hsome
      cases hsome
      refine ⟨he, by simp, us, ?_⟩
      rw [Nat.add_zero, List.take_left]
      exact splits_unitsText hus
  · rintro ⟨he, hn, us, hus⟩
    obtain ⟨hlt, hat⟩ := List.getElem?_eq_some_iff.1 hn
    obtain ⟨behind, htext⟩ : ∃ behind, text = unitsText us ++ e :: behind := by
      refine ⟨text.drop (n + 1), ?_⟩
      rw [← hus.written, ← hat, ← List.drop_eq_getElem_cons hlt, List.take_append_drop]
    have hlength : (unitsText us).length = n := by
      rw [← hus.written, List.length_take_of_le (Nat.le_of_lt hlt)]
    rw [htext, scanSegment?_unitsText hus.proper, scanSegment?_of_isSegmentEnd he, hlength]
    rfl

end Lexeme

open Lexeme

/-- A segment that begins behind another character than a backslash ends where a reader stops that
takes a backslash together with the character after it. The lexer finds the same end. There is none
where the reader comes to the end of the line, and what stands before it is made of whole units. -/
theorem Document.segmentEndFrom?_scans {d : Document} {n s : Nat} {chars : List Char} {x : Char}
    (hl : d[n]? = some chars) (hs : chars[s]? = some x) (hx : x ≠ '\\') :
    d.segmentEndFrom? n (s + 1) =
        (scanSegment? (chars.drop (s + 1))).map (Prod.map (s + 1 + ·) id) ∧
      segmentEnd? 0 (chars.drop s).tail = scanSegment? (chars.drop (s + 1)) ∧
      (d.segmentEndFrom? n (s + 1) = none ↔ ∃ us, (∀ u ∈ us, TextUnit.Proper u) ∧
        (chars.drop (s + 1) = unitsText us ∨ chars.drop (s + 1) = unitsText us ++ ['\\'])) ∧
      ∀ k e, d.segmentEndFrom? n (s + 1) = some (k, e) ↔
        s < k ∧ isSegmentEnd e ∧ chars[k]? = some e ∧
          ∃ us, Splits ((chars.take k).drop (s + 1)) us := by
  have hzero : backslashesBefore chars (s + 1) = 0 := by rw [backslashesBefore_succ hs, if_neg hx]
  have heq : d.segmentEndFrom? n (s + 1) =
      (scanSegment? (chars.drop (s + 1))).map (Prod.map (s + 1 + ·) id) := by
    rw [segmentEndFrom?_eq_segmentEnd? hl, hzero, segmentEnd?_of_even rfl]
  refine ⟨heq, ?_, ?_, fun k e => ?_⟩
  · rw [List.tail_drop, segmentEnd?_of_even rfl]
  · rw [heq, Option.map_eq_none_iff, scanSegment?_eq_none_iff]
  · rw [heq, Option.map_eq_some_iff]
    constructor
    · rintro ⟨⟨j, e⟩, hj, ⟨⟩⟩
      obtain ⟨he, hat, hus⟩ := scanSegment?_eq_some_iff.1 hj
      rw [List.getElem?_drop] at hat
      rw [List.take_drop] at hus
      exact ⟨Nat.lt_of_lt_of_le (Nat.lt_succ_self s) (Nat.le_add_right _ _), he, hat, hus⟩
    · rintro ⟨hlt, he, hat, hus⟩
      obtain ⟨j, rfl⟩ := Nat.exists_eq_add_of_le (Nat.succ_le_of_lt hlt)
      rw [← List.getElem?_drop] at hat
      rw [← List.take_drop] at hus
      exact ⟨(j, e), scanSegment?_eq_some_iff.2 ⟨he, hat, hus⟩, rfl⟩

/-- Behind an opening bar: an escaped bar, an escaped backslash before an escaped quote, and a quote
behind two backslashes. -/
def escapedMarks : List Char :=
  ['|', 'a', '\\', '|', '\\', '\\', '\\', '"', '\\', 't', '\\', '\\', '"', '~', '\n']

theorem escapedMarks_scanned :
    Document.segmentEndFrom? [escapedMarks] 0 1 = some (12, '"') ∧
      scanSegment? (escapedMarks.drop 1) = some (11, '"') ∧
      segmentEnd? 0 (escapedMarks.drop 0).tail = some (11, '"') ∧
      ∃ us, Splits ((escapedMarks.take 12).drop 1) us ∧
        us.map TextUnit.value = ['a', '|', '\\', '"', '\t', '\\'] := by
  obtain ⟨hscan, hlexer, -, hsome⟩ :=
    Document.segmentEndFrom?_scans (d := [escapedMarks]) (n := 0) (s := 0) (x := '|') rfl rfl
      (by decide)
  have hend : Document.segmentEndFrom? [escapedMarks] 0 1 = some (12, '"') := hscan.trans rfl
  obtain ⟨-, -, -, us, hus⟩ := (hsome 12 '"').1 hend
  exact ⟨hend, rfl, hlexer.trans rfl, us, hus, hus.values.symm.trans rfl⟩

end Uwu
