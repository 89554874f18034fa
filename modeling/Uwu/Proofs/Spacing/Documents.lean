import Uwu.Proofs.Source.Lines
import Uwu.Proofs.Spacing.Runs
import Uwu.Proofs.Stages

/-! The tokens of a document with other gaps. -/

namespace Uwu

namespace Lexeme

open Text (isGap)

theorem dropWhile_newline_dropWhile_gap (cs : List Char) :
    (cs.dropWhile isGap).dropWhile (· != '\n') = cs.dropWhile (· != '\n') := by
  induction cs with
  | nil => rfl
  | cons c cs ih =>
    cases hc : isGap c with
    | false => rw [List.dropWhile_cons_of_neg (by simp [hc])]
    | true =>
      rw [List.dropWhile_cons_of_pos hc, ih,
        List.dropWhile_cons_of_pos (by simpa using not_newline_of_isGap hc)]

theorem Respaced.dropWhile_newline {cs ds : List Char} (h : Respaced cs ds) :
    Respaced (cs.dropWhile (· != '\n')) (ds.dropWhile (· != '\n')) := by
  induction h with
  | nil => exact .nil
  | @char c cs ds hc behind ih =>
    by_cases hnewline : c = '\n'
    · subst hnewline
      exact behind.cons '\n'
    · simpa [hnewline] using ih
  | gap hc hd behind ih =>
    rw [dropWhile_newline_dropWhile_gap, dropWhile_newline_dropWhile_gap] at ih
    rwa [List.dropWhile_cons_of_pos (by simpa using not_newline_of_isGap hc),
      List.dropWhile_cons_of_pos (by simpa using not_newline_of_isGap hd)]

end Lexeme

theorem Document.OfText.respaced {ls ls' : Document} (h : OfText ls)
    (hr : List.Forall₂ Lexeme.Respaced ls ls') : OfText ls' := by
  induction h generalizing ls' with
  | nil =>
    cases hr
    exact .nil
  | last hl h =>
    cases hr with
    | cons hline hrest =>
      cases hrest
      have hnewline := hline.dropWhile_newline
      rw [h] at hnewline
      exact .last (mt hline.eq_nil_iff.1 hl) (hnewline.eq_nil_iff.2 rfl)
  | line h behind ih =>
    cases hr with
    | @cons _ l' _ ls' hline hrest =>
      have hnewline := hline.dropWhile_newline
      rw [h] at hnewline
      generalize hend : l'.dropWhile (· != '\n') = stop at hnewline
      cases hnewline with
      | char hc hnil =>
        cases hnil
        exact .line hend (ih hrest)
      | gap hc => cases hc

/-! ### Pieces -/

namespace Lexeme

/-- The pieces of the lines `rest`, the first of which has been read up to a place. -/
def piecesFrom (line : Nat) : (before rest : List (List Char)) → State → List Piece × State
  | _, [], st => ([], st)
  | before, text :: ls, st =>
    let (here, st) := linePieces line before.tail 0 (before.headD []) text st
    let (rest, st) := pieces (line + 1) ((text.reverse ++ before.headD []) :: before.tail) ls st
    (here ++ rest, st)

theorem piecesFrom_start (line : Nat) (earlier : List (List Char)) (ls : Document) (st : State) :
    piecesFrom line ([] :: earlier) ls st = pieces line earlier ls st := by
  cases ls with
  | nil => rfl
  | cons l ls => simp [piecesFrom, pieces]

/-- The pieces are these tokens, but for their places, and nothing is wrong with them. -/
structure ReadInto (x : List Piece × State) (ts : List Token) (last : State) : Prop where
  clean : x.1.filterMap Piece.diagnostic? = []
  words : (x.1.filterMap Piece.token?).map Token.word = ts.map Token.word
  last : x.2 = last

/-- What a run reads is what the lines are cut into. -/
theorem Run.readInto {before rest : List (List Char)} {st last : State} {ts : List Token}
    (h : Run before rest st ts last) (hb : before ≠ []) (line : Nat) :
    ReadInto (piecesFrom line before rest st) ts last := by
  induction h generalizing line with
  | done => exact ⟨rfl, rfl, rfl⟩
  | @wrap before rest st last ts behind ih =>
    obtain ⟨passed, earlier, rfl⟩ := List.exists_cons_of_ne_nil hb
    have hbehind := ih (List.cons_ne_nil _ _) (line + 1)
    rw [piecesFrom_start] at hbehind
    exact hbehind
  | @token passed earlier rest c cs st st' last t w ts hread hlexeme hopen behind ih =>
    obtain ⟨word, text, rfl, rfl⟩ := exists_word hread
    have hbehind := ih (List.cons_ne_nil _ _) line
    rw [take_word, drop_word] at hbehind
    simp only [piecesFrom, List.tail_cons, List.headD_cons] at hbehind ⊢
    have hreverse : text.reverse ++ ((c :: word).reverse ++ passed) =
        (c :: (word ++ text)).reverse ++ passed := by simp
    have hpassed : word.reverse ++ c :: passed = (c :: word).reverse ++ passed := by simp
    rw [hreverse] at hbehind
    simp only [linePieces, hread, Reading.width, Nat.add_sub_cancel, linePieces_skip, hpassed,
      if_neg hopen]
    rw [List.cons_append]
    refine ⟨hbehind.clean, ?_, hbehind.last⟩
    have htoken : (Reading.accepted t.kind (word.length + 1)).piece ⟨line, passed.length⟩
        (c :: (word ++ text)) =
          .token ⟨t.kind, t.lexeme, .ofWidth ⟨line, passed.length⟩ (word.length + 1)⟩ := by
      rw [Reading.piece, ← hlexeme, String.ofList_toList]
    rw [htoken, List.filterMap_cons, Piece.token?, List.map_cons, hbehind.words]
    rfl

end Lexeme

/-! ### Documents -/

namespace Token

variable {t u v : Token}

theorem Becomes.of_word (h : t.Becomes u) (hv : v.word = u.word) : t.Becomes v := by
  obtain ⟨hkind, hlexeme⟩ := Word.mk.inj hv
  rw [Becomes, hkind, hlexeme]
  exact h

/-- What becomes of a token is the name of a class if the token is. -/
theorem Becomes.reclassify (h : t.Becomes u) (names : Names) :
    (t.reclassify names).Becomes (u.reclassify names) := by
  obtain ⟨kind, lexeme, span⟩ := t
  obtain ⟨kind', lexeme', span'⟩ := u
  obtain ⟨hkind, hu⟩ := h
  dsimp only at hkind hu
  subst hkind
  cases hu with
  | same =>
    have hlexeme : (Token.reclassify names ⟨kind', lexeme, span'⟩).lexeme =
        (Token.reclassify names ⟨kind', lexeme, span⟩).lexeme := by
      rw [lexeme_reclassify, lexeme_reclassify]
    refine ⟨?_, hlexeme ▸ .same⟩
    cases kind' with
    | identifier id =>
      simp only [Token.reclassify]
      split <;> rfl
    | _ => rfl
  | gap hk hl ht =>
    cases hk
    exact ⟨rfl, .gap rfl hl ht⟩
  | words hk hs hg =>
    cases hk
    exact ⟨rfl, .words rfl hs hg⟩

theorem forall₂_becomes_of_word {ts us vs : List Token} (h : List.Forall₂ Becomes ts us)
    (hv : vs.map word = us.map word) : List.Forall₂ Becomes ts vs := by
  induction h generalizing vs with
  | nil =>
    rw [List.map_nil, List.map_eq_nil_iff] at hv
    rw [hv]
    exact .nil
  | cons htu _ ih =>
    cases vs with
    | nil => cases hv
    | cons v vs =>
      obtain ⟨hword, hwords⟩ := List.cons.inj hv
      exact .cons (htu.of_word hword) (ih hwords)

/-- Texts in the places of the tokens of a document are lexemes that these become. -/
theorem exists_becomes {names : Names} {ts : List Token} {texts : List String} {stop : Span}
    (h : List.Forall₂ Token.Respaced (ts.map (Token.reclassify names) ++ [⟨.endOfFile, "", stop⟩])
      texts) :
    ∃ us, List.Forall₂ Becomes ts us ∧ texts = us.map Token.lexeme ++ [""] := by
  induction ts generalizing texts with
  | nil =>
    cases h with
    | cons hend hnil =>
      cases hnil
      cases hend with
      | same => exact ⟨[], .nil, rfl⟩
      | gap hk => cases hk
      | words hk => cases hk
  | cons t ts ih =>
    cases h with
    | @cons _ text _ texts htext htexts =>
      obtain ⟨us, hus, rfl⟩ := ih htexts
      refine ⟨⟨t.kind, text, t.span⟩ :: us, .cons ⟨rfl, ?_⟩ hus, rfl⟩
      have hkind (k : Kind) (hn : k.isName = false) (hk : (t.reclassify names).kind = k) :
          t.kind = k := by
        rcases kind_reclassify names t with hsame | ⟨-, id, hid⟩
        · exact hsame.symm.trans hk
        · rw [hid] at hk
          rw [← hk] at hn
          cases hn
      cases htext with
      | same =>
        rw [lexeme_reclassify]
        exact .same
      | gap hk hl ht =>
        rw [lexeme_reclassify] at hl
        exact .gap (hkind _ rfl hk) hl ht
      | words hk hs hg => exact .words (hkind _ rfl hk) hs hg

end Token

/-- Other gaps in a text without mistakes make no mistake, and no other tokens and names. -/
theorem Lexed.respaced {source : String} {names : Names}
    (h : (ofLines (splitLines source) names).diagnostics = []) {texts : List String}
    (ht : List.Forall₂ Token.Respaced (ofLines (splitLines source) names).tokens texts) :
    (ofLines (splitLines (String.join texts)) names).diagnostics = [] ∧
      (ofLines (splitLines (String.join texts)) names).names =
        (ofLines (splitLines source) names).names ∧
      List.Forall₂ Token.Becomes (ofLines (splitLines source) names).tokens
        (ofLines (splitLines (String.join texts)) names).tokens ∧
      (ofLines (splitLines (String.join texts)) names).tokens.map Token.lexeme = texts := by
  rw [diagnostics_ofLines, List.append_eq_nil_iff] at h
  obtain ⟨hclean, hlast⟩ := h
  have hopen : ¬(pieces (splitLines source) names).2.interpolating := by
    intro hopen
    rw [if_pos hopen] at hlast
    cases hlast
  have hrun : Lexeme.Run [[]] (Document.split source.toList) (.initial names)
      ((pieces (splitLines source) names).1.filterMap Lexeme.Piece.token?)
      (pieces (splitLines source) names).2 := by
    rw [← Document.ofStrings_splitLines]
    exact Lexeme.run_pieces _ _ hclean
  rw [tokens_ofLines] at ht
  obtain ⟨us, hus, rfl⟩ := Token.exists_becomes ht
  obtain ⟨lines, hlines, hflat, hagain⟩ := hrun.respaced hus
  have hjoin : (String.join (us.map Token.lexeme ++ [""])).toList = lines.flatten := by
    rw [String.toList_join, hflat]
    simp [List.flatMap_append, List.flatMap_map]
  have hdocument : Document.ofStrings (splitLines (String.join (us.map Token.lexeme ++ [""]))) =
      lines := by
    rw [Document.ofStrings_splitLines, hjoin]
    exact ((Document.ofText_split _).respaced hlines).split_flatten
  have hread := (hagain [] [] [] [] (Lexeme.reached_nil _) (Lexeme.reached_nil _) rfl).readInto
    (List.cons_ne_nil _ _) 0
  rw [Lexeme.piecesFrom_start, ← hdocument] at hread
  generalize splitLines (String.join (us.map Token.lexeme ++ [""])) = lines' at hread ⊢
  obtain ⟨hclean', hwords, hlast'⟩ : Lexeme.ReadInto (pieces lines' names) us _ := hread
  have hbecomes := Token.forall₂_becomes_of_word hus hwords
  have hlexemes : ((pieces lines' names).1.filterMap Lexeme.Piece.token?).map Token.lexeme =
      us.map Token.lexeme := by
    have hmap := congrArg (List.map Word.lexeme) hwords
    rwa [List.map_map, List.map_map] at hmap
  refine ⟨?_, congrArg Lexeme.State.names hlast', ?_, ?_⟩
  · rw [diagnostics_ofLines, hclean', hlast', if_neg hopen]
    rfl
  · rw [tokens_ofLines, tokens_ofLines, hlast']
    apply List.rel_append
    · exact List.forall₂_map_left_iff.2 (List.forall₂_map_right_iff.2
        (hbecomes.imp fun t u htu => htu.reclassify _))
    · exact .cons ⟨rfl, .same⟩ .nil
  · rw [tokens_ofLines, List.map_append, List.map_map]
    simp only [Function.comp_def, Token.lexeme_reclassify]
    rw [hlexemes]
    rfl

end Uwu
