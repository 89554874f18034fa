import Uwu.Proofs.Renumbering.Checks
import Uwu.Proofs.Renumbering.Parsing
import Uwu.Proofs.Stages

/-! Compilations with different names known before them. The names known before matter only by
which words of the source text are classes among them: otherwise the outcomes are the same, up to
the numbers of classes. -/

namespace Uwu

/-! ### Names known before a compilation -/

/-- The words of a source text that are no keywords: the names that its first reading meets. -/
def sourceWords (source : String) : List String :=
  (Lexed.ofLines (splitLines source) .empty).names.words

/-- Such a word stands in the text. -/
theorem exists_line_of_mem_sourceWords {source w : String} (h : w ∈ sourceWords source) :
    ∃ line ∈ Document.ofStrings (splitLines source),
      w.toList <:+: line ∧ w.toList.all Lexeme.isWordChar := by
  refine Lexeme.names_pieces (P := fun n => ∀ w ∈ n.words,
    ∃ line ∈ Document.ofStrings (splitLines source),
      w.toList <:+: line ∧ w.toList.all Lexeme.isWordChar) _
    (fun line hline u hu names declared hnames w hw => ?_) 0 [] (.initial .empty) nofun w h
  rcases Lexeme.words_nameKind hw with hw | rfl
  · exact hnames w hw
  · refine ⟨line, hline, ?_, ?_⟩
    · rw [String.toList_ofList]
      exact (List.takeWhile_prefix _).isInfix.trans hu.isInfix
    · rw [String.toList_ofList]
      exact List.all_takeWhile

/-- The same mistakes, or programs that differ in the numbers of their classes only. -/
def SameOutcome (r r' : Except (List Diagnostic) Program) : Prop :=
  ∃ f : Nat → Nat, f.Injective ∧ r' = r.map (Program.renumber f)

/-! ### The stages -/

theorem Program.mistakes_renumber {f : Nat → Nat} (hf : f.Injective) (p : Program) :
    (p.renumber f).mistakes = p.mistakes := by
  rw [mistakes, mistakes, checkNames_renumber, checkTypes_renumber hf]
  rfl

theorem Lexed.outcome_renumber {f : Nat → Nat} (hf : f.Injective) {x y : Lexed}
    (hd : y.diagnostics = x.diagnostics)
    (hp : Program.ofTokens y.tokens y.names =
      (Program.ofTokens x.tokens x.names).map (Program.renumber f)) :
    y.outcome = x.outcome.map (Program.renumber f) := by
  rw [outcome, outcome, hd, hp]
  cases x.diagnostics with
  | cons d ds => rfl
  | nil =>
    cases Program.ofTokens x.tokens x.names with
    | error ds => rfl
    | ok p =>
      change (if !(p.renumber f).mistakes.isEmpty then throw (p.renumber f).mistakes
        else pure (p.renumber f)) =
          Except.map _ (if !p.mistakes.isEmpty then throw p.mistakes else pure p)
      rw [Program.mistakes_renumber hf]
      split <;> rfl

theorem Lexed.sameOutcome_ofLines {lines : List String} {m n : Names}
    (h : ∀ w ∈ (ofLines lines .empty).names.words, m.isClass w = n.isClass w) :
    SameOutcome (ofLines lines m).outcome (ofLines lines n).outcome := by
  have hf := (ofLines lines m).names.classes.renumber_injective (ofLines lines n).names.classes
  refine ⟨_, hf, outcome_renumber hf (diagnostics_ofLines_eq h) ?_⟩
  rw [tokens_ofLines_eq h]
  exact Program.ofTokens_renumber fun t ht id hid => name?_renumber_ofLines h ht hid

/-- Compilations do not leak into each other: the outcomes of a source text are the same wherever
the same of its words are classes before. Above all, names of which none is a word of the text
change nothing. -/
theorem compile_sameOutcome (source : String) :
    (∀ m n : Names, (∀ w ∈ sourceWords source, m.isClass w = n.isClass w) →
      SameOutcome (compile source m).outcome (compile source n).outcome) ∧
    ∀ n : Names, (∀ w ∈ sourceWords source, n.isClass w = false) →
      SameOutcome (compile source .empty).outcome (compile source n).outcome :=
  ⟨fun _ _ h => Lexed.sameOutcome_ofLines h,
    fun _ h => Lexed.sameOutcome_ofLines fun w hw => (h w hw).symm⟩

def dogText : String :=
  "cwass Dog() [[\n]]\nfwunc mainuwu-san() [[\n]]\n"

def catText : String :=
  "cwass Cat(mom-Cat) [[\npal-Cat[]~\n]]\nfwunc mainuwu-san() [[\na-Cat~\n]]\n"

/-- The class of the second text is numbered behind that of the first, and nothing else differs. -/
theorem catText_sameOutcome : ∃ p q, (compile catText .empty).outcome = .ok p ∧
    (compile catText (compile dogText .empty).names).outcome = .ok q ∧
    p.classes.map Class.type = [⟨.cls 0 "Cat", 0⟩] ∧
    q.classes.map Class.type = [⟨.cls 1 "Cat", 0⟩] ∧
    (∃ f : Nat → Nat, f.Injective ∧ q = p.renumber f) ∧
    ∃ f : Nat → Nat, f.Injective ∧ p = q.renumber f := by
  have hcat : catText.toList = _ := toList_of_eq rfl
  have hdog : dogText.toList = _ := toList_of_eq rfl
  have hnames : (compile dogText .empty).names = _ :=
    congrArg Lexed.names (Lexed.ofLines_splitLines hdog .empty)
  obtain ⟨p, hp, hpt⟩ := exists_compiled catText .empty
    (fun p => p.classes.map Class.type == [⟨.cls 0 "Cat", 0⟩]) hcat (by decide +kernel)
  obtain ⟨q, hq, hqt⟩ := exists_compiled catText (compile dogText .empty).names
    (fun p => p.classes.map Class.type == [⟨.cls 1 "Cat", 0⟩]) hcat (by
      rw [hnames]
      decide +kernel)
  have hwords : ∀ w ∈ sourceWords catText, (compile dogText .empty).names.isClass w = false := by
    rw [sourceWords, Lexed.ofLines_splitLines hcat, hnames]
    decide +kernel
  obtain ⟨f, hf, hpq⟩ := (compile_sameOutcome catText).2 _ hwords
  obtain ⟨g, hg, hqp⟩ := (compile_sameOutcome catText).1 _ .empty hwords
  rw [hp, hq] at hpq hqp
  exact ⟨p, q, hp, hq, eq_of_beq hpt, eq_of_beq hqt, ⟨f, hf, Except.ok.inj hpq⟩,
    g, hg, Except.ok.inj hqp⟩

end Uwu
