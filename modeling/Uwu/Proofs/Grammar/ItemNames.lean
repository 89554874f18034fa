import Uwu.Proofs.Grammar.SourceOrder
import Uwu.Proofs.Lexeme.ClassNames
import Uwu.Proofs.Renumbering.Readings

/-! The names of items. Every name of a text is a word of it and no keyword, so the name of a class
has no dot in it, and of all functions only the entry is named by its keyword. -/

namespace Uwu

open Grammar

/-! ### Words of a text -/

/-- A name is a word and no keyword, and the keyword of the entry is written as it is spelled. -/
structure Token.Worded (t : Token) : Prop where
  word : t.kind.isName → t.lexeme.toList.all Lexeme.isWordChar
  plain : t.kind.isName → Keyword.ofWord? t.lexeme = none
  entry : t.kind = .keyword .mainuwu → t.lexeme = Keyword.mainuwu.spelling

namespace Lexed

/-- The tables are filled with words. -/
theorem all_isWordChar_words (lines : List String) :
    ∀ w ∈ (ofLines lines .empty).names.words, w.toList.all Lexeme.isWordChar := by
  refine Lexeme.names_pieces (P := fun n => ∀ w ∈ n.words, w.toList.all Lexeme.isWordChar)
    (Document.ofStrings lines) ?_ 0 [] (.initial .empty) nofun
  intro _ _ u _ names declared h w hw
  rcases Lexeme.words_nameKind hw with hw | rfl
  · exact h w hw
  · rw [String.toList_ofList]
    exact List.all_takeWhile

/-- A name is one of the words that a reading without any names comes upon. -/
theorem lexeme_mem_words (lines : List String) (names : Names) {t : Token}
    (ht : t ∈ (ofLines lines names).tokens) (hn : t.kind.isName) :
    t.lexeme ∈ (ofLines lines .empty).names.words := by
  rw [tokens_ofLines, List.mem_append, List.mem_singleton] at ht
  rcases ht with ht | rfl
  · obtain ⟨u, hu, rfl⟩ := List.mem_map.1 ht
    rw [Token.isName_reclassify] at hn
    rw [Token.lexeme_reclassify]
    exact (alike_ofLines lines (m := names) (n := names) fun _ _ => rfl).words u hu hn
  · cases hn

theorem worded_ofLines (lines : List String) (names : Names) :
    ∀ t ∈ (ofLines lines names).tokens, t.Worded := by
  intro t ht
  refine ⟨fun hn => all_isWordChar_words lines _ (lexeme_mem_words lines names ht hn),
    fun hn => (told_ofLines lines names t ht hn).1, fun hk => ?_⟩
  have hfits := fits_ofLines lines names ht
  rw [hk] at hfits
  exact hfits (by decide)

end Lexed

/-! ### What a parser takes for a name -/

namespace Grammar

def State.Worded (s : State) : Prop :=
  ∀ t ∈ s.stream.tokens, t.Worded

/-- The keyword names the entry and no other function. The name of a class is a word. -/
def Item.Named : Item → Prop
  | global _ => True
  | function f => f.name.value ≠ Keyword.mainuwu.spelling
  | entry f => f.name.value = Keyword.mainuwu.spelling
  | cls c => c.name.value.toList.all Lexeme.isWordChar

variable {known : Names} {s t : State}

theorem State.Worded.mono (h : s.Worded) (ht : Shrinks s t) : t.Worded :=
  fun u hu => h u (ht.subset hu)

theorem State.Worded.current (h : s.Worded) : s.stream.current.Worded := by
  by_cases he : s.kind = .endOfFile
  · have hkind : s.stream.current.kind = .endOfFile := he
    constructor <;> intro hk <;> rw [hkind] at hk <;> cases hk
  · refine h _ ?_
    rw [State.tokens_eq_cons he]
    exact List.mem_cons_self

theorem State.Worded.next (h : s.Worded) : s.next.Worded := by
  refine h.mono ?_
  rw [Shrinks, State.tokens_next]
  exact List.tail_suffix _

theorem outcome_functionName (h : s.Worded) : Outcome functionName s
    (fun n _ => n.value = Keyword.mainuwu.spelling ↔ s.kind = .keyword .mainuwu)
    fun _ => True := by
  rw [functionName, outcome_bind, outcome_currentKind]
  split
  next hk => exact iff_of_true (h.current.entry hk) hk
  next hk =>
    rw [expectName, outcome_bind, outcome_currentKind]
    split
    next hi =>
      have hn : s.stream.current.kind.isName := by
        cases hkind : s.stream.current.kind <;>
          first | rfl | (rw [State.kind, hkind] at hi; cases hi)
      refine iff_of_false (fun heq => ?_) hk
      have hnone := h.current.plain hn
      rw [show s.stream.current.lexeme = Keyword.mainuwu.spelling from heq] at hnone
      exact absurd hnone (by decide)
    next => trivial

/-- The token behind the first one decides what a function is named by. -/
theorem outcome_function_name (h : s.Worded) : Outcome (function known) s
    (fun f _ => f.name.value = Keyword.mainuwu.spelling ↔ s.stream.peek.kind = .keyword .mainuwu)
    fun _ => True := by
  rw [function, outcome_bind, expectKeyword, outcome_bind, outcome_expect]
  split
  next =>
    have hname := outcome_functionName h.next
    rw [State.kind, State.current_next] at hname
    change Outcome (functionName >>= _) s.next _ _
    rw [outcome_bind]
    refine hname.mono (fun n t hn => ?_) fun _ => id
    exact outcome_then fun _ _ => outcome_then fun _ _ => outcome_then fun _ _ =>
      outcome_then fun _ _ => hn
  next => trivial

theorem outcome_className (h : s.Worded) : Outcome (className known) s
    (fun x _ => x.1.value.toList.all Lexeme.isWordChar) fun _ => True := by
  have hcurrent {ok : Token → State → Prop} {fail : State → Prop} :
      Outcome current s ok fail ↔ ok s.stream.current s := Iff.rfl
  rw [className, outcome_bind, hcurrent]
  split
  next id hk =>
    have hn : s.stream.current.kind.isName := by rw [hk]; rfl
    exact outcome_then fun _ _ => h.current.word hn
  next => trivial

theorem outcome_classItem_name (h : s.Worded) : Outcome (classItem known) s
    (fun c _ => c.name.value.toList.all Lexeme.isWordChar) fun _ => True := by
  rw [classItem, outcome_bind, expectKeyword, outcome_bind, outcome_expect]
  split
  next =>
    change Outcome (className known >>= _) s.next _ _
    rw [outcome_bind]
    refine (outcome_className h.next).mono (fun x t hx => ?_) fun _ => id
    exact outcome_then fun _ _ => outcome_then fun _ _ => outcome_then fun _ _ =>
      outcome_then fun _ _ => hx
  next => trivial

theorem outcome_item_named (h : s.Worded) :
    Outcome (item known) s (fun i _ => i.Named) fun _ => True := by
  rw [item, outcome_bind, outcome_currentKind]
  split
  next => exact outcome_then fun _ _ => trivial
  next =>
    rw [outcome_bind]
    exact (outcome_classItem_name h).mono (fun _ _ hc => hc) fun _ => id
  next =>
    change Outcome (function known >>= fun f => pure
      (if s.stream.peek.kind == .keyword .mainuwu then Item.entry f else Item.function f)) s _ _
    rw [outcome_bind]
    refine (outcome_function_name h).mono (fun f t hf => ?_) fun _ => id
    change Item.Named _
    split
    next hk => exact hf.2 (eq_of_beq hk)
    next hk => exact fun heq => hk (beq_iff_eq.2 (hf.1 heq))
  next => trivial

/-- Each round reads its item from words. -/
theorem Rounds.named {b : Bool} {is : List Item} {u : State} (h : Rounds known b s is u)
    (hs : s.Worded) : ∀ i ∈ is, i.Named := by
  have round {s t : State} {i : Item} (hi : item known s = .ok i t) (hs : s.Worded) :
      i.Named ∧ t.Worded := by
    have hread : Reads Shrinks 1 (item known) s := shrinks_item
    obtain ⟨hnamed, hshrinks, -⟩ := Outcome.of_ok ((outcome_item_named hs).and hread) hi
    exact ⟨hnamed, hs.mono hshrinks⟩
  induction h with
  | stop => exact List.forall_mem_nil _
  | entry hi _ _ ih | other hi _ _ _ ih =>
    obtain ⟨hnamed, ht⟩ := round hi hs
    exact List.forall_mem_cons.2 ⟨hnamed, ih ht⟩

end Grammar

/-! ### Programs -/

/-- The entry has the keyword for its name, no other function has, and classes have words. -/
structure Program.Named (p : Program) : Prop where
  functions : ∀ f ∈ p.functions, f.name.value ≠ Keyword.mainuwu.spelling
  entry : p.entry.name.value = Keyword.mainuwu.spelling
  classes : ∀ c ∈ p.classes, c.name.value.toList.all Lexeme.isWordChar

theorem Program.named_ofTokens {tokens : List Token} {known : Names} {p : Program}
    (htokens : ∀ t ∈ tokens, t.Worded) (h : ofTokens tokens known = .ok p) : p.Named := by
  obtain ⟨is, u, hrounds, hperm⟩ := items_ofTokens h
  have hs : (State.ofTokens tokens).Worded := fun t ht =>
    htokens t (tokens_ofTokens_subset tokens ht)
  have hitems := fun i hi => hrounds.named hs i (hperm.subset hi)
  simp only [List.forall_mem_append, List.forall_mem_map, List.forall_mem_singleton] at hitems
  obtain ⟨-, hfunctions, hclasses, hentry⟩ := hitems
  exact ⟨hfunctions, hentry, hclasses⟩

/-- A word has no dot. -/
theorem dot_notMem_of_all_isWordChar {w : List Char} (h : w.all Lexeme.isWordChar) : '.' ∉ w :=
  fun hdot => absurd (List.all_eq_true.1 h _ hdot) (by decide)

theorem Program.Named.dot_notMem {p : Program} (h : p.Named) :
    ∀ c ∈ p.classes, '.' ∉ c.name.value.toList :=
  fun c hc => dot_notMem_of_all_isWordChar (h.classes c hc)

end Uwu
