import Uwu.Proofs.Lexeme.Quoting
import Uwu.Proofs.Lexeme.Shape

/-! Texts with other gaps. Wherever one of them has a run of spaces and tabs so has the other, as
wide as it may be, and all else is the same. What a lexeme finds behind it is alike in the two, and
so is how far it reaches. -/

namespace Uwu.Lexeme

open Text (isGap isInlineBlank)

/-- The two texts differ in the widths of their gaps, and in what these are made of. -/
inductive Respaced : List Char → List Char → Prop
  | nil : Respaced [] []
  | char {c : Char} {cs ds : List Char} (hc : isGap c = false) (behind : Respaced cs ds) :
    Respaced (c :: cs) (c :: ds)
  | gap {c d : Char} {cs ds : List Char} (hc : isGap c) (hd : isGap d)
    (behind : Respaced (cs.dropWhile isGap) (ds.dropWhile isGap)) : Respaced (c :: cs) (d :: ds)

/-- Spaces and tabs, and at least one of them. -/
def IsGap (text : List Char) : Prop :=
  text ≠ [] ∧ ∀ c ∈ text, isGap c

-- Looks at the characters of the text only; there is also an instance that looks at all.
instance (text : List Char) : Decidable (IsGap text) :=
  @instDecidableAnd _ _ inferInstance (List.decidableBAll (fun c => isGap c = true) text)

theorem isGap_iff {c : Char} : isGap c ↔ c = ' ' ∨ c = '\t' := by
  simp [isGap]

theorem IsGap.takeWhile_append {g : List Char} (h : IsGap g) (cs : List Char) :
    (g ++ cs).takeWhile isGap = g ++ cs.takeWhile isGap :=
  List.takeWhile_append_of_pos h.2

theorem IsGap.exists_cons {g : List Char} (h : IsGap g) :
    ∃ c cs, g = c :: cs ∧ isGap c ∧ ∀ x ∈ cs, isGap x := by
  obtain ⟨c, cs, rfl⟩ := List.exists_cons_of_ne_nil h.1
  exact ⟨c, cs, rfl, List.forall_mem_cons.1 h.2⟩

namespace Respaced

variable {cs ds : List Char}

/-! ### Building up -/

theorem dropWhile_gap (h : Respaced cs ds) :
    Respaced (cs.dropWhile isGap) (ds.dropWhile isGap) := by
  cases h with
  | nil => exact .nil
  | char hc behind =>
    rw [List.dropWhile_cons_of_neg (by simp [hc]), List.dropWhile_cons_of_neg (by simp [hc])]
    exact .char hc behind
  | gap hc hd behind =>
    rw [List.dropWhile_cons_of_pos hc, List.dropWhile_cons_of_pos hd]
    exact behind

theorem cons (c : Char) (h : Respaced cs ds) : Respaced (c :: cs) (c :: ds) := by
  cases hc : isGap c with
  | false => exact .char hc h
  | true => exact .gap hc hc h.dropWhile_gap

theorem append_left (word : List Char) (h : Respaced cs ds) :
    Respaced (word ++ cs) (word ++ ds) := by
  induction word with
  | nil => exact h
  | cons c word ih => exact ih.cons c

theorem refl (cs : List Char) : Respaced cs cs := by
  have h := nil.append_left cs
  rwa [List.append_nil] at h

/-- One gap in the place of another. -/
theorem append_gap {g g' : List Char} (hg : IsGap g) (hg' : IsGap g') (h : Respaced cs ds) :
    Respaced (g ++ cs) (g' ++ ds) := by
  obtain ⟨c, g, rfl, hc, hg⟩ := hg.exists_cons
  obtain ⟨d, g', rfl, hd, hg'⟩ := hg'.exists_cons
  rw [List.cons_append, List.cons_append]
  apply Respaced.gap hc hd
  rw [List.dropWhile_append_of_pos hg, List.dropWhile_append_of_pos hg']
  exact h.dropWhile_gap

/-! ### What is alike -/

theorem eq_nil_iff (h : Respaced cs ds) : ds = [] ↔ cs = [] := by
  cases h <;> simp

/-- The next character is the same, or a gap in either case. -/
theorem head? (h : Respaced cs ds) :
    ∀ d ∈ ds.head?, ∃ c ∈ cs.head?, c = d ∨ (isGap c ∧ isGap d) := by
  rintro d hd
  cases h with
  | nil => cases hd
  | char hc behind =>
    cases hd
    exact ⟨d, rfl, .inl rfl⟩
  | gap hc hd' behind =>
    cases hd
    exact ⟨_, rfl, .inr ⟨hc, hd'⟩⟩

/-- A test that no gap passes, or each, does not tell the next characters apart. -/
theorem head?_eq_false {p : Char → Bool} (hp : p ' ' = p '\t') (h : Respaced cs ds)
    (hcs : ∀ c ∈ cs.head?, p c = false) : ∀ d ∈ ds.head?, p d = false := by
  intro d hd
  obtain ⟨c, hc, rfl | ⟨hgap, hgap'⟩⟩ := h.head? d hd
  · exact hcs c hc
  · have hpc := hcs c hc
    rcases isGap_iff.1 hgap with rfl | rfl <;> rcases isGap_iff.1 hgap' with rfl | rfl <;>
      simp_all

theorem any_head? {p : Char → Bool} (hp : ∀ c, isGap c → p c = false) (h : Respaced cs ds) :
    ds.head?.any p = cs.head?.any p := by
  cases h with
  | nil | char hc behind => rfl
  | @gap c d cs ds hc hd behind => exact (hp d hd).trans (hp c hc).symm

/-- Words and numbers are the same up to the next gap. -/
theorem takeWhile {p : Char → Bool} (hp : ∀ c, isGap c → p c = false) (h : Respaced cs ds) :
    ds.takeWhile p = cs.takeWhile p ∧ Respaced (cs.dropWhile p) (ds.dropWhile p) := by
  induction h with
  | nil => exact ⟨rfl, .nil⟩
  | @char c cs ds hc behind ih =>
    cases hpc : p c with
    | true => simpa [hpc] using ih
    | false => simpa [hpc] using Respaced.char hc behind
  | @gap c d cs ds hc hd behind =>
    have hgap : Respaced (c :: cs) (d :: ds) := .gap hc hd behind
    simpa [hp c hc, hp d hd] using hgap

/-- A spelling without a gap is there in both or in neither. -/
theorem isPrefixOf {spelling : List Char} (hs : ∀ c ∈ spelling, isGap c = false)
    (h : Respaced cs ds) : spelling.isPrefixOf ds = spelling.isPrefixOf cs := by
  induction spelling generalizing cs ds with
  | nil => rfl
  | cons s ss ih =>
    rw [List.forall_mem_cons] at hs
    have hne {c : Char} (hc : isGap c) : (s == c) = false := by
      rw [beq_eq_false_iff_ne]
      rintro rfl
      cases hs.1.symm.trans hc
    cases h with
    | nil => rfl
    | char hc behind => rw [List.isPrefixOf, List.isPrefixOf, ih hs.2 behind]
    | gap hc hd behind => rw [List.isPrefixOf, List.isPrefixOf, hne hc, hne hd]; rfl

end Respaced

end Uwu.Lexeme
