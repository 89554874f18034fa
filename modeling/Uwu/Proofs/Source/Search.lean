import Uwu.Proofs.Source.Moves

/-! A search finds the nearest occurrence. It steps from character to character, and what it meets
on the way is every character in its direction, the nearer ones first. Only where the number of its
last line does not fit in 64 bits it misses what is there. -/

namespace Uwu

/-- In a direction, the place `p` comes before `q`. -/
def Position.Precedes (p q : Position) : Document.Direction → Prop
  | .forward => p < q
  | .backward => q < p

namespace Document

variable {d : Document} {p q r s : Position} {dir : Direction} {limit : Nat} {skipBlank : Bool}

/-! ### What there is to find -/

/-- A character that a search from `p` may look at: one at or behind `p` going forward, one before
`p` going backward, not more than `limit` lines away. -/
def InReach (d : Document) (limit : Nat) (p q : Position) : Direction → Prop
  | .forward => (d.charAt? q).isSome ∧ p ≤ q ∧ q.line ≤ p.line + limit
  | .backward => (d.charAt? q).isSome ∧ q < p ∧ p.line ≤ q.line + limit

/-- A character at which a search looks for texts: any one in reach, or where blanks are passed over
the nearest one that is not blank. -/
def Considers (d : Document) (limit : Nat) (skipBlank : Bool) (p q : Position) (dir : Direction) :
    Prop :=
  d.InReach limit p q dir ∧
    (skipBlank → (d.charAt? q).all Text.isBlank = false ∧
      ∀ r, d.InReach limit p r dir → r.Precedes q dir → (d.charAt? r).all Text.isBlank)

/-! ### The first of an ordered list -/

section

variable {α β : Type} {R : α → α → Prop} {xs : List α}

theorem findSome?_eq_some_iff_of_pairwise {f : α → Option β} {b : β} (hxs : xs.Pairwise R)
    (hR : ∀ x y, R x y → ¬R y x) :
    xs.findSome? f = some b ↔ ∃ x ∈ xs, f x = some b ∧ ∀ y ∈ xs, R y x → f y = none := by
  rw [List.findSome?_eq_some_iff]
  constructor
  · rintro ⟨before, x, behind, rfl, hx, hbefore⟩
    refine ⟨x, by simp, hx, fun y hy hyx => ?_⟩
    rcases List.mem_append.1 hy with hy | hy
    · exact hbefore y hy
    · have hbehind := (List.pairwise_append.1 hxs).2.1
      rcases List.mem_cons.1 hy with rfl | hy
      · exact absurd hyx (hR _ _ hyx)
      · exact absurd hyx (hR _ _ (List.rel_of_pairwise_cons hbehind hy))
  · rintro ⟨x, hx, hfx, hfirst⟩
    obtain ⟨before, behind, rfl⟩ := List.append_of_mem hx
    refine ⟨before, x, behind, rfl, hfx, fun y hy => hfirst y (List.mem_append_left _ hy) ?_⟩
    exact (List.pairwise_append.1 hxs).2.2 y hy x List.mem_cons_self

theorem find?_eq_some_iff_of_pairwise {f : α → Bool} {x : α} (hxs : xs.Pairwise R)
    (hR : ∀ x y, R x y → ¬R y x) :
    xs.find? f = some x ↔ x ∈ xs ∧ f x ∧ ∀ y ∈ xs, R y x → f y = false := by
  rw [List.find?_eq_findSome?_guard, findSome?_eq_some_iff_of_pairwise hxs hR]
  simp only [Option.guard_eq_some_iff, Option.guard_eq_none_iff]
  constructor
  · rintro ⟨x, hx, ⟨rfl, hfx⟩, hfirst⟩
    exact ⟨hx, hfx, hfirst⟩
  · rintro ⟨hx, hfx, hfirst⟩
    exact ⟨x, hx, ⟨rfl, hfx⟩, hfirst⟩

/-- Where a test fails from some place on, the list up to there holds what passes it. -/
theorem mem_takeWhile_of_pairwise {f : α → Bool} (hxs : xs.Pairwise R)
    (hf : ∀ x ∈ xs, ∀ y ∈ xs, R x y → f y → f x) {x : α} :
    x ∈ xs.takeWhile f ↔ x ∈ xs ∧ f x := by
  induction xs with
  | nil => simp
  | cons a xs ih =>
    have htail := ih hxs.tail fun x hx y hy =>
      hf x (List.mem_cons_of_mem _ hx) y (List.mem_cons_of_mem _ hy)
    cases ha : f a with
    | true =>
      rw [List.takeWhile_cons_of_pos ha, List.mem_cons, htail, List.mem_cons, or_and_right]
      refine or_congr ⟨?_, And.left⟩ Iff.rfl
      rintro rfl
      exact ⟨rfl, ha⟩
    | false =>
      rw [List.takeWhile_cons_of_neg (by simp [ha])]
      refine iff_of_false List.not_mem_nil ?_
      rintro ⟨hx, hfx⟩
      rcases List.mem_cons.1 hx with rfl | hx
      · exact Bool.false_ne_true (ha.symm.trans hfx)
      · have hfa := hf a List.mem_cons_self x (List.mem_cons_of_mem _ hx)
          (List.rel_of_pairwise_cons hxs hx) hfx
        exact Bool.false_ne_true (ha.symm.trans hfa)

end

/-! ### Texts at a place -/

theorem precedes_iff (hp : d.IsStop p) (hq : d.IsStop q) :
    p.Precedes q dir ↔
      match dir with
      | .forward => d.offset p < d.offset q
      | .backward => d.offset q < d.offset p := by
  cases dir with
  | forward => exact offset_lt_iff hp hq
  | backward => exact offset_lt_iff hq hp

/-- No character is beyond the one where a search can make no step. -/
theorem not_precedes_of_step? (hp : (d.charAt? p).isSome) (h : d.step? p dir = none)
    (hq : (d.charAt? q).isSome) : ¬p.Precedes q dir := by
  rw [precedes_iff (.inl hp) (.inl hq)]
  have hlt := offset_lt_length hq
  cases dir with
  | forward =>
    dsimp only
    rw [step?, Option.filter_eq_none_iff] at h
    cases hnext : d.next? p with
    | none =>
      have hend := (next?_eq_none_iff (.inl hp)).1 hnext
      omega
    | some r =>
      -- A step to the end is no step of a search: `p` is the last character.
      have hend : d.atEnd r := by simpa using h r hnext
      have hsum := offset_next? hp hnext
      rw [(isStop_next? hnext).atEnd_iff.1 hend] at hsum
      omega
  | backward =>
    dsimp only
    have hzero := (previous?_eq_none_iff (.inl hp)).1 h
    omega

theorem offset_step? (hp : (d.charAt? p).isSome) (h : d.step? p dir = some r) :
    (d.charAt? r).isSome ∧
      match dir with
      | .forward => d.offset r = d.offset p + 1
      | .backward => d.offset r + 1 = d.offset p := by
  cases dir with
  | forward =>
    obtain ⟨hnext, hend⟩ := Option.filter_eq_some_iff.1 h
    have hstop := isStop_next? hnext
    refine ⟨hstop.isSome_iff.2 ?_, offset_next? hp hnext⟩
    have hne := mt hstop.atEnd_iff.2 (by simpa using hend)
    exact Nat.lt_of_le_of_ne hstop.offset_le hne
  | backward => exact offset_previous? (.inl hp) h

/-- A step leads to the next character. -/
theorem step?_spec (hp : (d.charAt? p).isSome) (h : d.step? p dir = some r) :
    (d.charAt? r).isSome ∧ p.Precedes r dir ∧
      ∀ q, (d.charAt? q).isSome → p.Precedes q dir → q = r ∨ r.Precedes q dir := by
  obtain ⟨hr, hsum⟩ := offset_step? hp h
  refine ⟨hr, ?_, fun q hq hpq => ?_⟩
  · rw [precedes_iff (.inl hp) (.inl hr)]
    cases dir <;> dsimp only at hsum ⊢ <;> omega
  · by_cases heq : d.offset q = d.offset r
    · exact .inl (eq_of_offset_eq (.inl hq) (.inl hr) heq)
    · right
      rw [precedes_iff (.inl hp) (.inl hq)] at hpq
      rw [precedes_iff (.inl hr) (.inl hq)]
      cases dir <;> dsimp only at hsum hpq ⊢ <;> omega

theorem precedes_trans (hpq : p.Precedes q dir) (hqr : q.Precedes r dir) : p.Precedes r dir := by
  cases dir <;> simp only [Position.Precedes, Position.lt_def] at hpq hqr ⊢ <;> omega

theorem precedes_asymm (hpq : p.Precedes q dir) : ¬q.Precedes p dir := by
  cases dir <;> simp only [Position.Precedes, Position.lt_def] at hpq ⊢ <;> omega

/-- The way from a character on leads to all characters beyond it. -/
theorem mem_walk (hp : (d.charAt? p).isSome) :
    q ∈ d.walk dir p ↔ (d.charAt? q).isSome ∧ (q = p ∨ p.Precedes q dir) := by
  fun_induction walk d dir p with
  | case1 p _ hstep =>
    rw [List.mem_singleton]
    constructor
    · rintro rfl
      exact ⟨hp, .inl rfl⟩
    · rintro ⟨hq, rfl | hpq⟩
      · rfl
      · exact absurd hpq (not_precedes_of_step? hp hstep hq)
  | case2 p _ r hstep ih =>
    obtain ⟨hr, hpr, hnext⟩ := step?_spec hp hstep
    rw [List.mem_cons, ih hr]
    constructor
    · rintro (rfl | ⟨hq, rfl | hrq⟩)
      · exact ⟨hp, .inl rfl⟩
      · exact ⟨hq, .inr hpr⟩
      · exact ⟨hq, .inr (precedes_trans hpr hrq)⟩
    · rintro ⟨hq, rfl | hpq⟩
      · exact .inl rfl
      · exact .inr ⟨hq, hnext q hq hpq⟩
  | case3 p hnone => exact absurd hp hnone

theorem pairwise_walk : (d.walk dir p).Pairwise (Position.Precedes · · dir) := by
  fun_induction walk d dir p with
  | case1 => exact List.pairwise_singleton _ _
  | case2 p hp r hstep ih =>
    obtain ⟨hr, hpr, -⟩ := step?_spec hp hstep
    refine List.pairwise_cons.2 ⟨fun q hq => ?_, ih⟩
    rcases ((mem_walk hr).1 hq).2 with rfl | hrq
    · exact hpr
    · exact precedes_trans hpr hrq
  | case3 => exact List.Pairwise.nil

theorem mem_path (hp : (d.charAt? p).isSome) :
    q ∈ d.path p dir ↔
      (d.charAt? q).isSome ∧
        match dir with
        | .forward => p ≤ q
        | .backward => q < p := by
  cases dir with
  | forward =>
    rw [path, mem_walk hp]
    refine and_congr_right fun _ => ?_
    constructor
    · rintro (rfl | hlt)
      · exact (Position.le_def _ _).2 (.inr ⟨rfl, Nat.le_refl _⟩)
      · exact Position.le_of_lt hlt
    · intro hle
      rcases Position.lt_trichotomy p q with hlt | rfl | hlt
      · exact .inr hlt
      · exact .inl rfl
      · exact absurd hlt (Position.not_lt_of_le hle)
  | backward =>
    rw [path]
    split
    next hnone =>
      refine iff_of_false List.not_mem_nil fun ⟨hq, hlt⟩ => ?_
      have hstep : d.step? p .backward = none := hnone
      exact not_precedes_of_step? hp hstep hq hlt
    next r hr =>
      have hstep : d.step? p .backward = some r := hr
      obtain ⟨hrchar, hrp, hnext⟩ := step?_spec hp hstep
      rw [mem_walk hrchar]
      refine and_congr_right fun hq => ?_
      constructor
      · rintro (rfl | hqr)
        · exact hrp
        · have hpq : p.Precedes q .backward := precedes_trans hrp hqr
          exact hpq
      · exact hnext q hq

theorem pairwise_path : (d.path p dir).Pairwise (Position.Precedes · · dir) := by
  cases dir with
  | forward => exact pairwise_walk
  | backward =>
    rw [path]
    split
    next => exact List.Pairwise.nil
    next => exact pairwise_walk

/-! ### The nearest occurrence -/

/-- The part of the way that is not too many lines away. -/
def near (d : Document) (limit : Nat) (p : Position) (dir : Direction) : List Position :=
  (d.path p dir).takeWhile fun q => p.line - limit ≤ q.line && q.line ≤ lastLine p.line limit

theorem lastLine_eq {line : Nat} (h : limit ≤ maxWord - line) :
    lastLine line limit = line + limit :=
  if_pos h

theorem pairwise_near : (d.near limit p dir).Pairwise (Position.Precedes · · dir) :=
  pairwise_path.sublist (List.takeWhile_sublist _)

theorem mem_near (hp : (d.charAt? p).isSome) (hlimit : limit ≤ maxWord - p.line) :
    q ∈ d.near limit p dir ↔ d.InReach limit p q dir := by
  rw [near, lastLine_eq hlimit, mem_takeWhile_of_pairwise pairwise_path, mem_path hp]
  · cases dir <;>
      simp only [InReach, Bool.and_eq_true, decide_eq_true_eq, Position.lt_def, Position.le_def,
        and_assoc, and_congr_right_iff] <;> omega
  · intro q hq r hr
    rw [mem_path hp] at hq hr
    revert hq hr
    cases dir <;>
      simp only [Position.Precedes, Bool.and_eq_true, decide_eq_true_eq, Position.lt_def,
        Position.le_def] <;> omega

theorem find?_near_eq_some_iff (hp : (d.charAt? p).isSome) (hlimit : limit ≤ maxWord - p.line) :
    ((d.near limit p dir).find? fun q => !(d.charAt? q).all Text.isBlank) = some q ↔
      d.Considers limit true p q dir := by
  rw [find?_eq_some_iff_of_pairwise pairwise_near fun _ _ => precedes_asymm]
  simp only [Considers, mem_near hp hlimit, Bool.not_eq_true', Bool.not_eq_false', forall_const]

/-- The characters at which a search looks for texts, in its order. -/
def considered (d : Document) (limit : Nat) (skipBlank : Bool) (p : Position) (dir : Direction) :
    List Position :=
  if skipBlank then
    ((d.near limit p dir).find? fun q => !(d.charAt? q).all Text.isBlank).toList
  else d.near limit p dir

theorem pairwise_considered :
    (d.considered limit skipBlank p dir).Pairwise (Position.Precedes · · dir) := by
  cases skipBlank with
  | false => exact pairwise_near
  | true =>
    rw [considered, if_pos rfl]
    cases (d.near limit p dir).find? _ with
    | none => exact List.Pairwise.nil
    | some q => exact List.pairwise_singleton _ q

theorem mem_considered (hp : (d.charAt? p).isSome) (hlimit : limit ≤ maxWord - p.line) :
    q ∈ d.considered limit skipBlank p dir ↔ d.Considers limit skipBlank p q dir := by
  cases skipBlank with
  | false =>
    rw [considered, if_neg Bool.false_ne_true, mem_near hp hlimit, Considers]
    simp
  | true => rw [considered, if_pos rfl, Option.mem_toList, ← find?_near_eq_some_iff hp hlimit]

theorem nearest?_eq (targets : List (List Char)) :
    d.nearest? targets dir limit skipBlank p =
      (d.considered limit skipBlank p dir).findSome? (d.targetAt? targets dir) := by
  cases skipBlank with
  | false => rfl
  | true =>
    have hbind : d.nearest? targets dir limit true p =
        ((d.near limit p dir).find? fun q => !(d.charAt? q).all Text.isBlank).bind
          (d.targetAt? targets dir) := rfl
    rw [hbind, considered, if_pos rfl]
    cases (d.near limit p dir).find? _ <;> simp

end Document

end Uwu
