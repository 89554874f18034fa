import Mathlib.Data.List.Forall2
import Uwu.Proofs.Lexeme.ClassNames
import Uwu.Proofs.Spacing.Lexemes

/-! A run over a text with other gaps, beside the run over the text as it was. Lexeme by lexeme the
two read the same kinds and know the same names, and neither finds a mistake. -/

namespace Uwu

open Lexeme (IsGap)

/-- A text may stand in the place of a token: its own, another gap where it is a gap, and another
gap between the words where it is a keyword of two. -/
inductive Token.Respaced (t : Token) : String → Prop
  | same : t.Respaced t.lexeme
  | gap {text : String} (hkind : t.kind = .whitespace) (hlexeme : IsGap t.lexeme.toList)
    (htext : IsGap text.toList) : t.Respaced text
  | words {k : Keyword} {first second gap : String} (hkind : t.kind = .keyword k)
    (hspelling : k.spelling = first ++ " " ++ second) (hgap : IsGap gap.toList) :
    t.Respaced (first ++ gap ++ second)

/-- A token of the same kind that is written with other gaps. -/
def Token.Becomes (t u : Token) : Prop :=
  u.kind = t.kind ∧ t.Respaced u.lexeme

theorem Keyword.toList_spelling {k : Keyword} {first second : String}
    (h : k.spelling = first ++ " " ++ second) :
    k.spelling.toList = first.toList ++ ' ' :: second.toList := by
  have hspace : " ".toList = [' '] := by decide
  rw [h, String.toList_append, String.toList_append, hspace, List.append_assoc]
  rfl

namespace Lexeme

variable {word rest rest' : List Char} {w : Nat} {st st' : State}
  {before before' : List (List Char)} {t u : Token} {c : Char} {cs : List Char}

/-! ### One token -/

/-- An accepted lexeme is a first character and a rest of it. -/
theorem exists_word {kind : Kind} (h : read before c cs st = (.accepted kind w, st')) :
    ∃ word rest, cs = word ++ rest ∧ w = word.length + 1 := by
  have hle := (within_read before c cs st).le
  rw [h] at hle
  obtain ⟨v, rfl⟩ := Nat.exists_eq_succ_of_ne_zero (Nat.ne_of_gt (pos_of_read h))
  refine ⟨cs.take v, cs.drop v, (List.take_append_drop v cs).symm, ?_⟩
  rw [List.length_take, Nat.min_eq_left (Nat.le_of_succ_le_succ hle)]

theorem take_word (c : Char) (word rest : List Char) :
    (c :: (word ++ rest)).take (word.length + 1) = c :: word :=
  @List.take_left _ (c :: word) rest

theorem drop_word (c : Char) (word rest : List Char) :
    (c :: (word ++ rest)).drop (word.length + 1) = rest :=
  @List.drop_left _ (c :: word) rest

/-- What one reading makes of a token that is written with other gaps. -/
theorem read_becomes (hu : t.Becomes u) (hrest : Respaced rest rest')
    (hbefore : afterClassKeyword before' = afterClassKeyword before)
    (hlexeme : t.lexeme.toList = c :: word)
    (hread : read before c (word ++ rest) st = (.accepted t.kind (word.length + 1), st')) :
    ∃ d word', u.lexeme.toList = d :: word' ∧ (d = '\n' → c = '\n') ∧
      Respaced (c :: (word ++ rest)) (d :: (word' ++ rest')) ∧
      read before' d (word' ++ rest') st = (.accepted u.kind (word'.length + 1), st') := by
  obtain ⟨hkind, hu⟩ := hu
  rw [hkind]
  generalize u.lexeme = text at hu
  cases hu with
  | same =>
    exact ⟨c, word, hlexeme, fun h => h, hrest.append_left (c :: word),
      read_respaced hrest hbefore hread⟩
  | gap hk hl ht =>
    rw [hlexeme] at hl
    obtain ⟨d, word', htext, hd, -⟩ := ht.exists_cons
    rw [htext] at ht
    exact ⟨d, word', htext, fun h => absurd h (not_newline_of_isGap hd), hrest.append_gap hl ht,
      read_gap hl ht hrest hread⟩
  | @words k first second gap hk hs hg =>
    rw [hk] at hread ⊢
    obtain ⟨word', htext, hr, hread'⟩ :=
      read_words before' (Keyword.toList_spelling hs) hg hrest hread
    refine ⟨c, word', ?_, fun h => h, hr, hread'⟩
    rw [String.toList_append, String.toList_append, List.append_assoc, htext]

/-- A token with other gaps ends in the class keyword if the token itself does. -/
theorem endInClassKeyword_becomes {prev prev' : List Token} {d : Char} {ds : List Char} {v : Nat}
    {declared declared' : Bool} (hu : t.Becomes u)
    (hs : Shape declared (c :: cs) st t.kind w st') (hw : 0 < w)
    (hlexeme : t.lexeme.toList = (c :: cs).take w)
    (hs' : Shape declared' (d :: ds) st u.kind v st') (hv : 0 < v)
    (hlexeme' : u.lexeme.toList = (d :: ds).take v)
    (hprev : endInClassKeyword prev' = endInClassKeyword prev) :
    endInClassKeyword (u :: prev') = endInClassKeyword (t :: prev) := by
  obtain ⟨hkind, hu⟩ := hu
  cases hb : t.kind.isBlank with
  | true =>
    rw [endInClassKeyword, endInClassKeyword, List.find?_cons_of_neg (by simp [hkind, hb]),
      List.find?_cons_of_neg (by simp [hb])]
    exact hprev
  | false =>
    rw [endInClassKeyword, endInClassKeyword, List.find?_cons_of_pos (by simp [hkind, hb]),
      List.find?_cons_of_pos (by simp [hb]), Option.any_some, Option.any_some]
    generalize htext : u.lexeme = text at hu
    cases hu with
    | same => rw [Token.endsInClassKeyword, Token.endsInClassKeyword, htext]
    | gap hk hl ht =>
      rw [hk] at hb
      cases hb
    | words hk hspelling hg =>
      rw [hs.endsInClassKeyword hw hlexeme (by rw [hk]; rfl) (by rw [hk]; rfl),
        hs'.endsInClassKeyword hv hlexeme' (by rw [hkind, hk]; rfl) (by rw [hkind, hk]; rfl), hkind]

/-! ### Runs -/

/-- Beside a run there is one over other lines, which differ in their gaps, with the same state
behind it: over the lexemes of the tokens that the old ones become. -/
theorem Run.respaced {before rest : List (List Char)} {ts us : List Token} {last : State}
    (h : Run before rest st ts last) (hus : List.Forall₂ Token.Becomes ts us) :
    ∃ rest', List.Forall₂ Respaced rest rest' ∧
      rest'.flatten = us.flatMap (fun u => u.lexeme.toList) ∧
      ∀ passed' earlier' prev prev', Reached before rest prev →
        Reached (passed' :: earlier') rest' prev' →
        endInClassKeyword prev' = endInClassKeyword prev →
          Run (passed' :: earlier') rest' st us last := by
  -- The other lines are put together from the end on, when nothing is known of what is before them.
  -- So the run over them is shown behind any text that ends in the class keyword as the old one does.
  induction h generalizing us with
  | done =>
    cases hus
    exact ⟨[], .nil, rfl, fun _ _ _ _ _ _ _ => .done⟩
  | wrap behind ih =>
    obtain ⟨rest', hr, hflat, hrun⟩ := ih hus
    refine ⟨[] :: rest', .cons .nil hr, hflat, fun passed' earlier' prev prev' hp hp' hk => ?_⟩
    exact .wrap (hrun [] (passed' :: earlier') prev prev' hp.wrap hp'.wrap hk)
  | @token passed earlier rest c cs st st' last t n ts hread hlexeme hopen behind ih =>
    cases hus with
    | @cons _ u _ us htu hus =>
      obtain ⟨word, line, rfl, rfl⟩ := exists_word hread
      obtain ⟨lines', hr, hflat, hrun⟩ := ih hus
      rw [drop_word] at hr
      cases hr with
      | @cons _ line' _ rest' hline hrest =>
        have hword := hlexeme.trans (take_word c word line)
        obtain ⟨d, word', htext, hnewline, hr, -⟩ := read_becomes htu hline rfl hword hread
        refine ⟨(d :: (word' ++ line')) :: rest', .cons hr hrest, ?_, ?_⟩
        · rw [List.flatMap_cons, ← hflat, htext]
          simp
        · intro passed' earlier' prev prev' hp hp' hk
          have hbefore := hp'.keyword.trans (hk.trans hp.keyword.symm)
          obtain ⟨d', word'', htext', -, -, hread'⟩ :=
            read_becomes htu hline hbefore hword hread
          obtain ⟨rfl, rfl⟩ := List.cons.inj (htext'.symm.trans htext)
          have hlexeme' := htext'.trans (take_word d' word'' line').symm
          have hs := shape_read hread
          have hs' := shape_read hread'
          have hnext := hp.token hs (pos_of_read hread) hlexeme
          have hnext' := hp'.token hs' (pos_of_read hread') hlexeme'
          refine .token hread' hlexeme' (fun ho => hopen ⟨hnewline ho.1, ho.2⟩) ?_
          rw [drop_word] at hnext' ⊢
          exact hrun _ _ (t :: prev) (u :: prev') hnext hnext'
            (endInClassKeyword_becomes htu hs (pos_of_read hread) hlexeme hs' (pos_of_read hread')
              hlexeme' hk)

end Lexeme

end Uwu
