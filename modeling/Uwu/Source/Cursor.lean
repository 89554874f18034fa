import Uwu.Source.Lines
import Uwu.Text.Blank

/-! A cursor is a position that moves over the characters of a document, across
line ends and empty lines, and the search for a text near it. -/

namespace Uwu.Document

variable (d : Document)

def charAt? (p : Position) : Option Char :=
  d[p.line]?.bind (·[p.column]?)

/-- The text from a position to the end of its line. -/
def restOfLine (p : Position) : List Char :=
  (d[p.line]?.getD []).drop p.column

/-- Past the last line, or past the last character of the last line. -/
def atEnd (p : Position) : Bool :=
  d.length ≤ p.line || (p.line + 1 == d.length && (d[p.line]?.getD []).length ≤ p.column)

/-! ### Moving -/

/-- Moves a position that ran off its line, the first of `lines`, to the next line that holds
characters, or to the last line. -/
def wrap : List (List Char) → Position → Position
  | l :: l' :: ls, p => if p.column < l.length then p else wrap (l' :: ls) ⟨p.line + 1, 0⟩
  | _, p => p

/-- The place one character further on; none at the end. -/
def next? (p : Position) : Option Position :=
  if d.atEnd p then none else some (wrap (d.drop p.line) ⟨p.line, p.column + 1⟩)

/-- The place one character back; none before the first character. -/
def previous? (p : Position) : Option Position :=
  match p.column with
  | c + 1 => some ⟨p.line, c⟩
  | 0 =>
    ((d.take p.line).zipIdx.reverse.find? fun (l, _) => !l.isEmpty).map fun (l, i) =>
      ⟨i, l.length - 1⟩

/-- Takes up to `n` steps forward, and says whether a character is there. -/
def moveForward : Nat → Position → Position × Bool
  | 0, p => (p, !d.atEnd p)
  | n + 1, p =>
    match d.next? p with
    | none => (p, false)
    | some q => moveForward n q

/-- Takes up to `n` steps back, and says whether all of them were taken. -/
def moveBack : Nat → Position → Position × Bool
  | 0, p => (p, true)
  | n + 1, p =>
    match d.previous? p with
    | none => (p, false)
    | some q => moveBack n q

/-! ### Searching -/

inductive Direction where
  | forward
  | backward
  deriving DecidableEq

/-- One step of a search; none where no character is beyond. -/
def step? (p : Position) : Direction → Option Position
  | .forward => (d.next? p).filter fun q => !d.atEnd q
  | .backward => d.previous? p

theorem wrap_eq_or (ls : List (List Char)) (p : Position) :
    wrap ls p = p ∨ (p.line < (wrap ls p).line ∧ (wrap ls p).line < p.line + ls.length) := by
  fun_induction wrap ls p with
  | case1 => exact .inl rfl
  | case2 l l' ls p hlong ih =>
    right
    simp only [List.length_cons] at ih ⊢
    rcases ih with h | h
    · rw [h]
      dsimp only
      omega
    · omega
  | case3 => exact .inl rfl

/-- How much of the text is still ahead in a direction: lines, then characters of the line. -/
def ahead (p : Position) : Direction → Nat × Nat
  | .forward => (d.length - p.line, (d[p.line]?.getD []).length - p.column)
  | .backward => (p.line, p.column)

variable {d} in
theorem ahead_of_next? {p q : Position} (hp : (d.charAt? p).isSome) (h : d.next? p = some q) :
    Prod.Lex (· < ·) (· < ·) (d.ahead q .forward) (d.ahead p .forward) := by
  obtain ⟨l, hl, hc⟩ := Option.bind_eq_some_iff.1 (Option.eq_some_of_isSome hp)
  obtain ⟨hline, -⟩ := List.getElem?_eq_some_iff.1 hl
  obtain ⟨hcolumn, -⟩ := List.getElem?_eq_some_iff.1 hc
  rw [next?] at h
  split at h
  · cases h
  · cases h
    rcases wrap_eq_or (d.drop p.line) ⟨p.line, p.column + 1⟩ with hq | hq
    · rw [hq]
      refine .right _ ?_
      simp only [hl, Option.getD_some]
      omega
    · rw [List.length_drop] at hq
      dsimp only at hq
      exact .left _ _ (by omega)

variable {d} in
theorem ahead_of_previous? {p q : Position} (h : d.previous? p = some q) :
    Prod.Lex (· < ·) (· < ·) (d.ahead q .backward) (d.ahead p .backward) := by
  rw [previous?] at h
  split at h
  next c hc =>
    cases h
    exact .right _ (by rw [hc]; exact Nat.lt_succ_self c)
  next =>
    obtain ⟨⟨l, i⟩, hfind, rfl⟩ := Option.map_eq_some_iff.1 h
    have hmem := List.mem_reverse.1 (List.mem_of_find?_eq_some hfind)
    have hi := (List.mem_zipIdx hmem).2.1
    rw [List.length_take] at hi
    exact .left _ _ (by dsimp only; omega)

variable {d} in
theorem ahead_of_step? {p q : Position} {dir : Direction} (hp : (d.charAt? p).isSome)
    (h : d.step? p dir = some q) :
    Prod.Lex (· < ·) (· < ·) (d.ahead q dir) (d.ahead p dir) := by
  cases dir with
  | forward => exact ahead_of_next? hp (Option.filter_eq_some_iff.1 h).1
  | backward => exact ahead_of_previous? h

/-- The characters that a search meets from `p` on, step by step. -/
def walk (dir : Direction) (p : Position) : List Position :=
  if _hp : (d.charAt? p).isSome then
    match _h : d.step? p dir with
    | none => [p]
    | some q => p :: walk dir q
  else []
termination_by d.ahead p dir
decreasing_by exact ahead_of_step? _hp _h

/-- The characters that a search from `p` visits, in its order: forward it begins at `p` itself,
backward at the character before it. -/
def path (p : Position) : Direction → List Position
  | .forward => d.walk .forward p
  | .backward =>
    match d.previous? p with
    | none => []
    | some q => d.walk .backward q

/-- Where `target` begins if it occurs within its line at `p`: it begins there in a forward search
and ends there in a backward one. -/
def occurrence? (target : List Char) (p : Position) : Direction → Option Position
  | .forward => if target.isPrefixOf (d.restOfLine p) then some p else none
  | .backward =>
    if target.length ≤ p.column + 1 then
      let start : Position := ⟨p.line, p.column + 1 - target.length⟩
      if target.isPrefixOf (d.restOfLine start) then some start else none
    else none

/-- The first of `targets` that occurs at `p`, by its place in the list. -/
def targetAt? (targets : List (List Char)) (dir : Direction) (p : Position) :
    Option (Position × Nat) :=
  targets.zipIdx.findSome? fun (t, i) => (d.occurrence? t p dir).map (·, i)

/-- The greatest number that fits in 64 bits. -/
def maxWord : Nat := UInt64.size - 1

/-- The last line in a search from `line` on. The sum is one of 64 bits, and a sum that does not fit
begins again at zero. -/
def lastLine (line limit : Nat) : Nat :=
  if limit ≤ maxWord - line then line + limit else line + limit - (maxWord + 1)

/-- The occurrence of a target nearest to `p`, at most `limit` lines away from it. With `skipBlank`
only the nearest character that is not blank is looked at. -/
def nearest? (targets : List (List Char)) (dir : Direction) (limit : Nat) (skipBlank : Bool)
    (p : Position) : Option (Position × Nat) :=
  let near := (d.path p dir).takeWhile fun q =>
    p.line - limit ≤ q.line && q.line ≤ lastLine p.line limit
  if skipBlank then
    (near.find? fun q => !(d.charAt? q).all Text.isBlank).bind (d.targetAt? targets dir)
  else near.findSome? (d.targetAt? targets dir)

end Uwu.Document
