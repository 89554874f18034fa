import Uwu.Proofs.Spacing.Documents
import Uwu.Proofs.Spacing.Parsing

/-! Layout within a line. How wide the gaps of a text are, and whether they are spaces or tabs, is
its writer's choice: the text is read into the same tokens and is the same program. -/

namespace Uwu

open Lexeme (IsGap)

namespace Token

variable {t u : Token}

/-! ### One token -/

/-- Written with other gaps a token is the same, but for its place and what is trivia. -/
theorem Becomes.erase (h : t.Becomes u) (ht : t.kind.isTrivia = false) : u.erase = t.erase := by
  obtain ⟨kind, lexeme, span⟩ := t
  obtain ⟨kind', lexeme', span'⟩ := u
  obtain ⟨hkind, hu⟩ := h
  dsimp only at hkind hu
  subst hkind
  cases hu with
  | same => rfl
  | gap hk =>
    cases hk
    cases ht
  | @words k first second gap hk hs hg =>
    cases hk
    have hdouble : k ∈ Keyword.doubles :=
      (Lexeme.halves_of_spelling (Keyword.toList_spelling hs)).1
    simp only [Token.erase, if_pos hdouble]

theorem map_kind_of_becomes {ts us : List Token} (h : List.Forall₂ Becomes ts us) :
    us.map kind = ts.map kind := by
  induction h with
  | nil => rfl
  | cons htu _ ih => rw [List.map_cons, List.map_cons, htu.1, ih]

/-- What is left without trivia is the same, but for its place. -/
theorem map_erase_of_becomes {ts us : List Token} (h : List.Forall₂ Becomes ts us) :
    (us.filter fun u => !u.kind.isTrivia).map erase =
      (ts.filter fun t => !t.kind.isTrivia).map erase := by
  induction h with
  | nil => rfl
  | @cons t u ts us htu _ ih =>
    rw [List.filter_cons, List.filter_cons, htu.1]
    cases ht : t.kind.isTrivia with
    | true => exact ih
    | false => exact congrArg₂ List.cons (htu.erase ht) ih

/-! ### One gap for all -/

/-- The text of the token with this gap in the place of its own. -/
def spacedBy (gap : String) (t : Token) : String :=
  match t.kind with
  | .whitespace => if IsGap t.lexeme.toList then gap else t.lexeme
  | .keyword .ewseIwf => "ewse" ++ gap ++ "iwf"
  | .keyword .doWhiwe => "do" ++ gap ++ "whiwe"
  | _ => t.lexeme

theorem respaced_spacedBy {gap : String} (hg : IsGap gap.toList) (t : Token) :
    t.Respaced (t.spacedBy gap) := by
  rw [spacedBy]
  split
  next hk =>
    by_cases hl : IsGap t.lexeme.toList
    · rw [if_pos hl]
      exact .gap hk hl hg
    · rw [if_neg hl]
      exact .same
  next hk => exact .words hk rfl hg
  next hk => exact .words hk rfl hg
  next => exact .same

end Token

/-! ### Programs -/

namespace Program

/-- Trivia is not read. -/
theorem ofTokens_eq_of_filter {ts us : List Token}
    (h : (us.filter fun u => !u.kind.isTrivia) = ts.filter fun t => !t.kind.isTrivia)
    (names : Names) : ofTokens us names = ofTokens ts names := by
  have hstream : Grammar.Stream.ofTokens us = Grammar.Stream.ofTokens ts := by
    simp only [Grammar.Stream.ofTokens, h]
  rw [ofTokens, ofTokens, Grammar.State.ofTokens, Grammar.State.ofTokens, hstream]

/-- Tokens that are written with other gaps make the same program up to spans. -/
theorem ofTokens_of_becomes {ts us : List Token} (h : List.Forall₂ Token.Becomes ts us)
    (names : Names) :
    (ofTokens us names).toOption.map erase = (ofTokens ts names).toOption.map erase := by
  rw [← ofTokens_erase, ← ofTokens_erase]
  apply congrArg
  apply ofTokens_eq_of_filter
  rw [List.filter_map, List.filter_map]
  exact Token.map_erase_of_becomes h

end Program

/-- Layout within a line does not matter. In a source text without lexical mistakes let other runs
of spaces and tabs stand in the places of any gaps, between tokens and within the keywords of two
words. The new text has no lexical mistakes either, its tokens are of the same kinds and have these
texts, the names get the same numbers, and the program is the same up to spans, if there is one. -/
theorem Lexed.layout_irrelevant {source : String} {names : Names} {texts : List String}
    (h : (ofLines (splitLines source) names).diagnostics = [])
    (ht : List.Forall₂ Token.Respaced (ofLines (splitLines source) names).tokens texts) :
    let x := ofLines (splitLines source) names
    let y := ofLines (splitLines (String.join texts)) names
    y.diagnostics = [] ∧ y.tokens.map Token.kind = x.tokens.map Token.kind ∧
      y.tokens.map Token.lexeme = texts ∧ y.names = x.names ∧
        (Program.ofTokens y.tokens y.names).toOption.map Program.erase =
          (Program.ofTokens x.tokens x.names).toOption.map Program.erase := by
  intro x y
  obtain ⟨hclean, hnames, hbecomes, hlexemes⟩ := Lexed.respaced h ht
  have hprogram : (Program.ofTokens y.tokens y.names).toOption.map Program.erase =
      (Program.ofTokens x.tokens x.names).toOption.map Program.erase := by
    rw [hnames]
    exact Program.ofTokens_of_becomes hbecomes x.names
  exact ⟨hclean, Token.map_kind_of_becomes hbecomes, hlexemes, hnames, hprogram⟩

namespace Lexed

/-- Gaps within keywords, before the name of a class and in an interpolated string. -/
def manyGaps : String :=
  "cwass  Cat()[[\n]]\nfwunc mainuwu-san() [[\n iwf (cap) [[\n ]] ewse\tiwf (fax) [[\n ]]\n" ++
    "\tdo  whiwe (x == 2) [[\n pwint(\"a | x |\")~\n ]]\n]]\n"

/-- Each gap becomes two tabs. -/
theorem manyGaps_layout :
    (ofLines (splitLines manyGaps) .empty).diagnostics = [] ∧
      (Program.ofTokens (ofLines (splitLines manyGaps) .empty).tokens
        (ofLines (splitLines manyGaps) .empty).names).toOption.isSome ∧
      ∃ texts, texts ≠ (ofLines (splitLines manyGaps) .empty).tokens.map Token.lexeme ∧
        List.Forall₂ Token.Respaced (ofLines (splitLines manyGaps) .empty).tokens texts ∧
        let x := ofLines (splitLines manyGaps) .empty
        let y := ofLines (splitLines (String.join texts)) .empty
        y.diagnostics = [] ∧ y.tokens.map Token.kind = x.tokens.map Token.kind ∧
          y.tokens.map Token.lexeme = texts ∧ y.names = x.names ∧
            (Program.ofTokens y.tokens y.names).toOption.map Program.erase =
              (Program.ofTokens x.tokens x.names).toOption.map Program.erase := by
  have hs : manyGaps.toList = _ := toList_append_of_eq (toList_of_eq rfl) (toList_of_eq rfl)
  have hclean : (ofLines (splitLines manyGaps) .empty).diagnostics = [] := by
    rw [ofLines_splitLines hs]
    decide +kernel
  have hparsed : (Program.ofTokens (ofLines (splitLines manyGaps) .empty).tokens
      (ofLines (splitLines manyGaps) .empty).names).toOption.isSome := by
    rw [ofLines_splitLines hs]
    decide +kernel
  have hother : (ofLines (splitLines manyGaps) .empty).tokens.map (Token.spacedBy "\t\t") ≠
      (ofLines (splitLines manyGaps) .empty).tokens.map Token.lexeme := by
    rw [ofLines_splitLines hs]
    decide +kernel
  have ht : List.Forall₂ Token.Respaced (ofLines (splitLines manyGaps) .empty).tokens
      ((ofLines (splitLines manyGaps) .empty).tokens.map (Token.spacedBy "\t\t")) := by
    have htabs : IsGap "\t\t".toList := by decide
    apply List.forall₂_map_right_iff.2
    exact List.forall₂_same.2 fun t _ => Token.respaced_spacedBy htabs t
  exact ⟨hclean, hparsed, _, hother, ht, layout_irrelevant hclean ht⟩

end Lexed

end Uwu
