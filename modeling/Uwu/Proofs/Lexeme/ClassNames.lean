import Uwu.Proofs.Lexeme.Run
import Uwu.Proofs.Lexeme.Shape
import Uwu.Proofs.Stages

/-! Which names are names of classes: those with the class keyword before them, as a search through
the raw text finds it. The search and the tokens disagree only where the nearest token before a name
is a comment, or a name that ends like the keyword. -/

namespace Uwu

/-- A name, with the tokens before it, the nearest first. -/
structure Naming where
  before : List Token
  name : String

/-- The text of a token ends in the class keyword, for the search before a name. -/
def Token.endsInClassKeyword (t : Token) : Bool :=
  Lexeme.afterClassKeyword [t.lexeme.toList.reverse]

/-- The nearest of the tokens, the nearest first, that is no blank ends in the class keyword. -/
def endInClassKeyword (before : List Token) : Bool :=
  (before.find? fun t => !t.kind.isBlank).any Token.endsInClassKeyword

/-- The names among tokens; `before` are the tokens before these, the nearest first. -/
def namingsAfter (before : List Token) : List Token → List Naming
  | [] => []
  | t :: ts =>
    if t.kind.isName then ⟨before, t.lexeme⟩ :: namingsAfter (t :: before) ts
    else namingsAfter (t :: before) ts

def Lexed.namings (x : Lexed) : List Naming :=
  namingsAfter [] x.tokens

namespace Naming

variable (x : Naming)

/-- The nearest text before the name, be it a comment, ends in the class keyword. -/
def isDeclared : Bool :=
  endInClassKeyword x.before

/-- The nearest token before, comments left out, is the class keyword. -/
def followsClassKeyword : Bool :=
  (x.before.find? fun t => !t.kind.isTrivia).any fun t => t.kind == .keyword .cwass

/-- Before the name is a name that ends in the class keyword, or a comment that hides the keyword
or writes it. -/
def isMisled : Bool :=
  (x.before.find? fun t => !t.kind.isBlank).any fun t =>
    if t.kind = .comment then t.endsInClassKeyword != x.followsClassKeyword
    else t.kind.isName && t.endsInClassKeyword

end Naming

namespace Lexeme

/-! ### The search for the keyword -/

/-- A text that is given backwards ends in the class keyword. -/
def spellsClassKeyword (text : List Char) : Bool :=
  Keyword.cwass.spelling.toList.reverse.isPrefixOf text &&
    !text[Keyword.cwass.spelling.toList.reverse.length]?.any Char.isAlphanum

theorem afterClassKeyword_cons {line : List Char} (h : line.dropWhile Text.isBlank ≠ [])
    (earlier : List (List Char)) :
    afterClassKeyword (line :: earlier) = spellsClassKeyword (line.dropWhile Text.isBlank) := by
  rw [afterClassKeyword]
  split
  next hnil => exact absurd hnil h
  next => rfl

/-- The search goes past blanks. -/
theorem afterClassKeyword_append_blank {word passed : List Char} {earlier : List (List Char)}
    (h : ∀ x ∈ word, Text.isBlank x) :
    afterClassKeyword ((word ++ passed) :: earlier) = afterClassKeyword (passed :: earlier) := by
  rw [afterClassKeyword, afterClassKeyword, List.dropWhile_append_of_pos h]

/-- Behind the end of a word nothing takes part in the search for one. -/
theorem isPrefixOf_append {spelling word passed : List Char} (hs : ∀ x ∈ spelling, x.isAlphanum)
    (hp : ∀ x ∈ passed.head?, x.isAlphanum = false) :
    (spelling.isPrefixOf (word ++ passed) &&
        !(word ++ passed)[spelling.length]?.any Char.isAlphanum) =
      (spelling.isPrefixOf word && !word[spelling.length]?.any Char.isAlphanum) := by
  induction spelling generalizing word with
  | nil =>
    cases word with
    | nil =>
      cases passed with
      | nil => rfl
      | cons x xs => simp [hp x rfl]
    | cons x xs => rfl
  | cons s ss ih =>
    cases word with
    | nil =>
      cases passed with
      | nil => rfl
      | cons x xs =>
        have hne : (s == x) = false := by
          rw [beq_eq_false_iff_ne]
          rintro rfl
          cases (hp s rfl).symm.trans (hs s List.mem_cons_self)
        simp [List.isPrefixOf, hne]
    | cons x xs =>
      have h := @ih xs fun y hy => hs y (List.mem_cons_of_mem s hy)
      simp only [List.cons_append, List.isPrefixOf, List.length_cons, List.getElem?_cons_succ,
        Bool.and_assoc, h]

theorem spellsClassKeyword_append {word passed : List Char}
    (hp : ∀ x ∈ passed.head?, x.isAlphanum = false) :
    spellsClassKeyword (word ++ passed) = spellsClassKeyword word :=
  isPrefixOf_append (List.all_eq_true.1 (by decide)) hp

/-- Neither does anything behind a character that is in no word. -/
theorem spellsClassKeyword_append_of_mem {text : List Char} {x : Char} (passed : List Char)
    (hx : x ∈ text) (ha : x.isAlphanum = false) :
    spellsClassKeyword (text ++ passed) = spellsClassKeyword text := by
  obtain ⟨word, behind, rfl⟩ := List.append_of_mem hx
  have hp (cs : List Char) : ∀ y ∈ (x :: cs).head?, y.isAlphanum = false := by
    rintro y ⟨⟩
    exact ha
  rw [List.append_assoc, List.cons_append, spellsClassKeyword_append (hp _),
    spellsClassKeyword_append (hp _)]

/-- The last character may tell that a token does not end in the keyword. -/
theorem endsInClassKeyword_of_isClosing {t : Token} {x : Char}
    (h : t.lexeme.toList.getLast? = some x) (hx : isClosing x) : t.endsInClassKeyword = false := by
  obtain ⟨init, hinit⟩ := List.getLast?_eq_some_iff.1 h
  obtain ⟨hs, hb⟩ := isClosing_iff.1 hx
  have hk : Keyword.cwass.spelling.toList.reverse = ['s', 's', 'a', 'w', 'c'] := by decide
  have hne : ('s' == x) = false := by
    rw [beq_eq_false_iff_ne]
    exact hs.symm
  have hdrop : (x :: init.reverse).dropWhile Text.isBlank = x :: init.reverse := by
    rw [List.dropWhile_cons_of_neg (by simp [hb])]
  rw [Token.endsInClassKeyword, hinit, List.reverse_concat,
    afterClassKeyword_cons (by simp [hdrop]), hdrop, spellsClassKeyword, hk, List.isPrefixOf, hne]
  rfl

theorem exists_getLast?_take (c : Char) (cs : List Char) {w : Nat} (hw : 0 < w) :
    ∃ x, ((c :: cs).take w).getLast? = some x := by
  obtain ⟨v, rfl⟩ := Nat.exists_eq_succ_of_ne_zero (Nat.ne_of_gt hw)
  rw [List.take_succ_cons, List.getLast?_cons]
  exact ⟨_, rfl⟩

/-- The search sees no further than a lexeme, `word` backwards, that begins with `c`. -/
theorem afterClassKeyword_append {word passed : List Char} {c : Char} (hc : c ∈ word)
    (hb : Text.isBlank c = false)
    (hp : isWordChar c → ∀ x ∈ passed.head?, isWordChar x = false) (earlier : List (List Char)) :
    afterClassKeyword ((word ++ passed) :: earlier) = afterClassKeyword [word] := by
  have hmem : c ∈ word.dropWhile Text.isBlank := by
    rw [← List.takeWhile_append_dropWhile (p := Text.isBlank) (l := word), List.mem_append] at hc
    refine hc.resolve_left fun hc => ?_
    cases hb.symm.trans (List.all_eq_true.1 List.all_takeWhile c hc)
  have hne : word.dropWhile Text.isBlank ≠ [] := List.ne_nil_of_mem hmem
  have hdrop : (word ++ passed).dropWhile Text.isBlank = word.dropWhile Text.isBlank ++ passed := by
    rw [List.dropWhile_append, if_neg (by simpa using hne)]
  rw [afterClassKeyword_cons (by simp [hdrop, hne]), afterClassKeyword_cons hne, hdrop]
  cases ha : c.isAlphanum with
  | false => exact spellsClassKeyword_append_of_mem passed hmem ha
  | true =>
    have hw : isWordChar c := by rw [isWordChar, ha, Bool.true_or]
    refine spellsClassKeyword_append fun x hx => ?_
    exact (Bool.or_eq_false_iff.1 (hp hw x hx)).1

/-! ### Runs -/

theorem pos_of_read {before : List (List Char)} {c : Char} {cs : List Char} {st st' : State}
    {kind : Kind} {w : Nat} (h : read before c cs st = (.accepted kind w, st')) : 0 < w := by
  have hpos := (within_read before c cs st).pos
  rw [h] at hpos
  exact hpos

/-- At a place no word goes on, and the search finds what the tokens `prev` before it end in. -/
structure Reached (before rest : List (List Char)) (prev : List Token) : Prop where
  seam : ∀ x ∈ (before.headD []).head?, isWordChar x →
    ∀ y ∈ (rest.headD []).head?, isWordChar y = false
  keyword : afterClassKeyword before = endInClassKeyword prev

variable {before rest : List (List Char)} {prev : List Token}

theorem reached_nil (rest : List (List Char)) : Reached [[]] rest [] where
  seam _ hx := nomatch hx
  keyword := rfl

theorem Reached.wrap (h : Reached before ([] :: rest) prev) : Reached ([] :: before) rest prev where
  seam _ hx := nomatch hx
  keyword := h.keyword

/-- What one reading preserves. -/
theorem Reached.token {passed : List Char} {earlier : List (List Char)} {c : Char} {cs : List Char}
    {declared : Bool} {st st' : State} {t : Token} {w : Nat}
    (h : Reached (passed :: earlier) ((c :: cs) :: rest) prev)
    (hs : Shape declared (c :: cs) st t.kind w st') (hw : 0 < w)
    (hlexeme : t.lexeme.toList = (c :: cs).take w) :
    Reached ((((c :: cs).take w).reverse ++ passed) :: earlier) ((c :: cs).drop w :: rest)
      (t :: prev) := by
  obtain ⟨e, he⟩ := exists_getLast?_take c cs hw
  have hc : c ∈ ((c :: cs).take w).reverse := by
    obtain ⟨v, rfl⟩ := Nat.exists_eq_succ_of_ne_zero (Nat.ne_of_gt hw)
    simp
  constructor
  case seam =>
    intro x hx hword y hy
    rw [List.headD_cons, List.head?_append, List.head?_reverse, he, Option.some_or] at hx
    refine hs.seam x (he.trans hx) hword y ?_
    rwa [List.headD_cons, List.head?_drop] at hy
  case keyword =>
    cases hb : t.kind.isBlank with
    | true =>
      have hblank : ∀ x ∈ ((c :: cs).take w).reverse, Text.isBlank x := fun x hx =>
        hs.blank hb x (List.mem_reverse.1 hx)
      rw [afterClassKeyword_append_blank hblank, h.keyword, endInClassKeyword, endInClassKeyword,
        List.find?_cons_of_neg (by simp [hb])]
    | false =>
      have hp : isWordChar c → ∀ x ∈ passed.head?, isWordChar x = false := by
        intro hword x hx
        cases hxw : isWordChar x with
        | false => rfl
        | true => cases hword.symm.trans (h.seam x hx hxw c rfl)
      rw [afterClassKeyword_append hc (hs.solid hb c rfl) hp, endInClassKeyword,
        List.find?_cons_of_pos (by simp [hb]), Option.any_some, Token.endsInClassKeyword, hlexeme]

/-- The names of classes behind a run are those before it and those that the search declares. -/
theorem Run.mem_classes {st last : State} {ts : List Token} (h : Run before rest st ts last)
    (hr : Reached before rest prev) {w : String} :
    w ∈ last.names.classes.toList ↔ w ∈ st.names.classes.toList ∨
      ∃ x ∈ namingsAfter prev ts, x.name = w ∧ x.isDeclared := by
  induction h generalizing prev with
  | done => simp [namingsAfter]
  | wrap behind ih => exact ih hr.wrap
  | @token passed earlier rest c cs st st' last t n ts hread hlexeme _ behind ih =>
    have hs := shape_read hread
    rw [ih (hr.token hs (pos_of_read hread) hlexeme), namingsAfter, hs.classes, hr.keyword,
      ← hlexeme, String.ofList_toList]
    cases hn : t.kind.isName with
    | false => simp
    | true =>
      cases hd : endInClassKeyword prev with
      | false => simp [Naming.isDeclared, hd]
      | true =>
        simp only [Bool.and_self, if_true, NameTable.mem_intern, or_assoc, List.mem_cons,
          exists_eq_or_imp, Naming.isDeclared, hd, and_true]
        exact or_congr_right (or_congr_left eq_comm)

/-- Names of classes stay what they are. -/
theorem Run.subset_classes {st last : State} {ts : List Token} (h : Run before rest st ts last) :
    st.names.classes.toList ⊆ last.names.classes.toList := by
  induction h with
  | done => exact fun _ hw => hw
  | wrap behind ih => exact ih
  | @token passed earlier rest c cs st st' last t n ts hread hlexeme _ behind ih =>
    refine fun w hw => ih ?_
    rw [(shape_read hread).classes]
    split
    next => exact NameTable.mem_intern.2 (.inl hw)
    next => exact hw

/-- What is read as the name of a class is the name of one. -/
theorem Run.isClass {st last : State} {ts : List Token} (h : Run before rest st ts last) :
    ∀ t ∈ ts, ∀ id, t.kind = .classId id → last.names.isClass t.lexeme := by
  induction h with
  | done => exact fun _ ht => nomatch ht
  | wrap behind ih => exact ih
  | @token passed earlier rest c cs st st' last t n ts hread hlexeme _ behind ih =>
    refine List.forall_mem_cons.2 ⟨fun id hid => ?_, ih⟩
    have hnow := (shape_read hread).isClass id hid
    rw [← hlexeme, String.ofList_toList, Names.isClass_iff] at hnow
    exact Names.isClass_iff.2 (behind.subset_classes hnow)

/-- A token that is no comment and no name ends in the class keyword only if it is that. -/
theorem Shape.endsInClassKeyword {c : Char} {cs : List Char} {declared : Bool} {st st' : State}
    {t : Token} {w : Nat} (hs : Shape declared (c :: cs) st t.kind w st') (hw : 0 < w)
    (hlexeme : t.lexeme.toList = (c :: cs).take w) (ht : t.kind.isTrivia = false)
    (hn : t.kind.isName = false) : t.endsInClassKeyword = (t.kind == .keyword .cwass) := by
  by_cases hk : t.kind = .keyword .cwass
  · rw [Token.endsInClassKeyword, hlexeme, hs.keyword hk, hk]
    decide
  · obtain ⟨e, he⟩ := exists_getLast?_take c cs hw
    rw [beq_eq_false_iff_ne.2 hk]
    exact endsInClassKeyword_of_isClosing (hlexeme ▸ he) (hs.last ht hn hk e he)

theorem Run.endsInClassKeyword {st last : State} {ts : List Token}
    (h : Run before rest st ts last) :
    ∀ t ∈ ts, t.kind.isTrivia = false → t.kind.isName = false →
      t.endsInClassKeyword = (t.kind == .keyword .cwass) := by
  induction h with
  | done => exact fun _ ht => nomatch ht
  | wrap behind ih => exact ih
  | @token passed earlier rest c cs st st' last t n ts hread hlexeme _ behind ih =>
    exact List.forall_mem_cons.2
      ⟨(shape_read hread).endsInClassKeyword (pos_of_read hread) hlexeme, ih⟩

end Lexeme

/-! ### Documents -/

namespace Token

/-- A token stays what it is but for the kind of name. -/
theorem kind_reclassify (names : Names) (t : Token) :
    (t.reclassify names).kind = t.kind ∨
      (t.kind.isName ∧ ∃ id, (t.reclassify names).kind = .classId id) := by
  obtain ⟨kind, lexeme, span⟩ := t
  cases kind with
  | identifier n =>
    simp only [reclassify]
    split
    · exact .inr ⟨rfl, _, rfl⟩
    · exact .inl rfl
  | _ => exact .inl rfl

theorem isName_reclassify (names : Names) (t : Token) :
    (t.reclassify names).kind.isName = t.kind.isName := by
  rcases kind_reclassify names t with h | ⟨hn, id, h⟩
  · rw [h]
  · rw [h, hn]
    rfl

theorem isBlank_reclassify (names : Names) (t : Token) :
    (t.reclassify names).kind.isBlank = t.kind.isBlank := by
  rcases kind_reclassify names t with h | ⟨hn, id, h⟩
  · rw [h]
  · rw [h, Kind.isBlank_of_isName hn]
    rfl

theorem endsInClassKeyword_reclassify (names : Names) (t : Token) :
    (t.reclassify names).endsInClassKeyword = t.endsInClassKeyword := by
  rw [endsInClassKeyword, endsInClassKeyword, lexeme_reclassify]

end Token

theorem endInClassKeyword_map (names : Names) (ts : List Token) :
    endInClassKeyword (ts.map (Token.reclassify names)) = endInClassKeyword ts := by
  rw [endInClassKeyword, endInClassKeyword, List.find?_map, Option.any_map]
  simp only [Function.comp_def, Token.isBlank_reclassify, Token.endsInClassKeyword_reclassify]

theorem namingsAfter_map (names : Names) (ts before : List Token) :
    namingsAfter (before.map (Token.reclassify names)) (ts.map (Token.reclassify names)) =
      (namingsAfter before ts).map fun x => ⟨x.before.map (Token.reclassify names), x.name⟩ := by
  induction ts generalizing before with
  | nil => rfl
  | cons t ts ih =>
    have h := ih (t :: before)
    rw [List.map_cons] at h
    rw [List.map_cons, namingsAfter, namingsAfter, Token.isName_reclassify,
      Token.lexeme_reclassify, h]
    split <;> rfl

theorem namingsAfter_append_singleton {t : Token} (h : t.kind.isName = false)
    (ts before : List Token) : namingsAfter before (ts ++ [t]) = namingsAfter before ts := by
  induction ts generalizing before with
  | nil => simp [namingsAfter, h]
  | cons u us ih => rw [List.cons_append, namingsAfter, namingsAfter, ih]

/-- Names are names of tokens, and before them are tokens. -/
theorem mem_namingsAfter {ts before : List Token} : ∀ x ∈ namingsAfter before ts,
    (∃ t ∈ ts, t.kind.isName ∧ t.lexeme = x.name) ∧ ∀ t ∈ x.before, t ∈ before ∨ t ∈ ts := by
  induction ts generalizing before with
  | nil => exact fun _ hx => nomatch hx
  | cons t ts ih =>
    have behind : ∀ x ∈ namingsAfter (t :: before) ts,
        (∃ u ∈ t :: ts, u.kind.isName ∧ u.lexeme = x.name) ∧
          ∀ u ∈ x.before, u ∈ before ∨ u ∈ t :: ts := by
      intro x hx
      obtain ⟨⟨u, hu, hn⟩, hb⟩ := ih x hx
      refine ⟨⟨u, List.mem_cons_of_mem t hu, hn⟩, fun v hv => ?_⟩
      rcases hb v hv with hv | hv
      · rw [List.mem_cons] at hv ⊢
        exact hv.elim (fun h => .inr (.inl h)) .inl
      · exact .inr (List.mem_cons_of_mem t hv)
    rw [namingsAfter]
    split
    next hn =>
      refine List.forall_mem_cons.2 ⟨⟨⟨t, List.mem_cons_self, hn, rfl⟩, ?_⟩, behind⟩
      exact fun u hu => .inl hu
    next => exact behind

namespace Naming

/-- A nearest token that is no comment is what the grammar sees before the name. -/
theorem find?_isTrivia_of_isBlank {ts : List Token} {t : Token}
    (h : ts.find? (fun u => !u.kind.isBlank) = some t) (ht : t.kind.isTrivia = false) :
    ts.find? (fun u => !u.kind.isTrivia) = some t := by
  obtain ⟨-, near, behind, rfl, hnear⟩ := List.find?_eq_some_iff_append.1 h
  refine List.find?_eq_some_iff_append.2 ⟨by simp [ht], near, behind, rfl, fun u hu => ?_⟩
  have hblank := hnear u hu
  rw [Bool.not_not] at hblank ⊢
  exact Kind.isTrivia_of_isBlank hblank

theorem followsClassKeyword_of_isBlank {x : Naming}
    (h : x.before.find? (fun t => !t.kind.isBlank) = none) : x.followsClassKeyword = false := by
  rw [followsClassKeyword, List.find?_eq_none.2 fun t ht => ?_, Option.any_none]
  have hb := List.find?_eq_none.1 h t ht
  rw [Bool.not_eq_true, Bool.not_eq_false'] at hb
  simp [Kind.isTrivia_of_isBlank hb]

theorem followsClassKeyword_of_find? {x : Naming} {t : Token}
    (h : x.before.find? (fun u => !u.kind.isBlank) = some t) (ht : t.kind.isTrivia = false) :
    x.followsClassKeyword = (t.kind == .keyword .cwass) := by
  rw [followsClassKeyword, find?_isTrivia_of_isBlank h ht, Option.any_some]

/-- The search and the tokens disagree exactly where a name is misled. -/
theorem isMisled_iff {x : Naming} (h : ∀ t ∈ x.before, t.kind.isTrivia = false →
    t.kind.isName = false → t.endsInClassKeyword = (t.kind == .keyword .cwass)) :
    x.isMisled ↔ x.isDeclared ≠ x.followsClassKeyword := by
  rw [isMisled, isDeclared, endInClassKeyword]
  cases hq : x.before.find? fun t => !t.kind.isBlank with
  | none => simp [followsClassKeyword_of_isBlank hq]
  | some t =>
    rw [Option.any_some, Option.any_some]
    by_cases hcomment : t.kind = .comment
    · rw [if_pos hcomment, bne_iff_ne]
    · rw [if_neg hcomment]
      have htrivia : t.kind.isTrivia = false := by
        have hb := List.find?_some hq
        rw [Bool.not_eq_true'] at hb
        cases hk : t.kind with
        | comment => exact absurd hk hcomment
        | _ => first | rfl | rw [hk] at hb; cases hb
      rw [followsClassKeyword_of_find? hq htrivia]
      cases hn : t.kind.isName with
      | true =>
        have hk : (t.kind == .keyword .cwass) = false := by
          rw [beq_eq_false_iff_ne]
          intro hk
          rw [hk] at hn
          cases hn
        rw [hk, Bool.true_and, Bool.ne_false_iff]
      | false =>
        rw [h t (List.mem_of_find?_eq_some hq) htrivia hn]
        simp

end Naming

theorem Token.isClass_reclassify {names : Names} {t : Token} (hn : t.kind.isName)
    (hc : ∀ id, t.kind = .classId id → names.isClass t.lexeme) :
    names.isClass t.lexeme ↔ ∃ id, (t.reclassify names).kind = .classId id := by
  obtain ⟨kind, lexeme, span⟩ := t
  cases kind with
  | identifier n =>
    simp only [reclassify, Names.isClass]
    cases hid : names.classes.id? lexeme with
    | some id => simp
    | none => simp
  | classId id => exact iff_of_true (hc id rfl) ⟨id, rfl⟩
  | _ => cases hn

namespace Lexed

variable {lines : List String} {names : Names}

/-- Without mistakes, the names that are read as names of classes are those that are known as such
in the end. -/
theorem isClass_iff (h : (ofLines lines names).diagnostics = []) {t : Token}
    (ht : t ∈ (ofLines lines names).tokens) (hn : t.kind.isName) :
    (ofLines lines names).names.isClass t.lexeme ↔ ∃ id, t.kind = .classId id := by
  obtain ⟨ts, last, hrun, hnames, htokens⟩ := exists_run h
  rw [htokens, List.mem_append, List.mem_map, List.mem_singleton] at ht
  rw [hnames]
  rcases ht with ⟨u, hu, rfl⟩ | rfl
  · rw [Token.isName_reclassify] at hn
    rw [Token.lexeme_reclassify]
    exact Token.isClass_reclassify hn (hrun.isClass u hu)
  · cases hn

/-- Classes are the names that the search declares. -/
theorem mem_classes_iff (h : (ofLines lines .empty).diagnostics = []) (w : String) :
    w ∈ (ofLines lines .empty).names.classes.toList ↔
      ∃ x ∈ (ofLines lines .empty).namings, x.name = w ∧ x.isDeclared := by
  obtain ⟨ts, last, hrun, hnames, htokens⟩ := exists_run h
  have hclasses := hrun.mem_classes (Lexeme.reached_nil _) (w := w)
  have hinitial : w ∉ (Lexeme.State.initial .empty).names.classes.toList := List.not_mem_nil
  have hnamings : (ofLines lines .empty).namings = (namingsAfter [] ts).map fun y =>
      ⟨y.before.map (Token.reclassify last.names), y.name⟩ := by
    rw [namings, htokens, namingsAfter_append_singleton rfl]
    exact namingsAfter_map last.names ts []
  rw [hnames, hclasses, hnamings]
  constructor
  · rintro (hw | ⟨x, hx, rfl, hd⟩)
    · exact absurd hw hinitial
    · refine ⟨_, List.mem_map_of_mem hx, rfl, ?_⟩
      rw [Naming.isDeclared, endInClassKeyword_map]
      exact hd
  · rintro ⟨y, hy, rfl, hd⟩
    obtain ⟨x, hx, rfl⟩ := List.mem_map.1 hy
    rw [Naming.isDeclared, endInClassKeyword_map] at hd
    exact .inr ⟨x, hx, rfl, hd⟩

/-- Of the tokens that are no comments and no names, only the class keyword ends like it. -/
theorem endsInClassKeyword_eq (h : (ofLines lines names).diagnostics = []) {t : Token}
    (ht : t ∈ (ofLines lines names).tokens) (htrivia : t.kind.isTrivia = false)
    (hn : t.kind.isName = false) : t.endsInClassKeyword = (t.kind == .keyword .cwass) := by
  obtain ⟨ts, last, hrun, hnames, htokens⟩ := exists_run h
  rw [htokens, List.mem_append, List.mem_map, List.mem_singleton] at ht
  rcases ht with ⟨u, hu, rfl⟩ | rfl
  · rw [Token.isName_reclassify] at hn
    rcases Token.kind_reclassify last.names u with hk | ⟨hu, -⟩
    · rw [hk] at htrivia
      rw [Token.endsInClassKeyword_reclassify, hk]
      exact hrun.endsInClassKeyword u hu htrivia hn
    · cases hn.symm.trans hu
  · rfl

/-- Names of classes are the names that are read as such somewhere. -/
theorem mem_classes_iff_classId (h : (ofLines lines .empty).diagnostics = []) (w : String) :
    w ∈ (ofLines lines .empty).names.classes.toList ↔
      ∃ t ∈ (ofLines lines .empty).tokens, (∃ id, t.kind = .classId id) ∧ t.lexeme = w := by
  constructor
  · intro hw
    obtain ⟨y, hy, rfl, -⟩ := (mem_classes_iff h w).1 hw
    obtain ⟨t, ht, hn, hl⟩ := (mem_namingsAfter y hy).1
    refine ⟨t, ht, (isClass_iff h ht hn).1 ?_, hl⟩
    rw [hl]
    exact Names.isClass_iff.2 hw
  · rintro ⟨t, ht, ⟨id, hid⟩, rfl⟩
    have hn : t.kind.isName := by
      rw [hid]
      rfl
    exact Names.isClass_iff.1 ((isClass_iff h ht hn).2 ⟨id, hid⟩)

theorem isMisled_iff_of_mem (h : (ofLines lines names).diagnostics = []) {y : Naming}
    (hy : y ∈ (ofLines lines names).namings) : y.isMisled ↔ y.isDeclared ≠ y.followsClassKeyword :=
  Naming.isMisled_iff fun t ht =>
    endsInClassKeyword_eq h (((mem_namingsAfter y hy).2 t ht).resolve_left List.not_mem_nil)

/-- The names that are declared are those behind the class keyword exactly if every misled name is
one of both. -/
theorem classes_eq_iff_misled (h : (ofLines lines .empty).diagnostics = []) :
    (∀ w, w ∈ (ofLines lines .empty).names.classes.toList ↔
        ∃ y ∈ (ofLines lines .empty).namings, y.name = w ∧ y.followsClassKeyword) ↔
      ∀ y ∈ (ofLines lines .empty).namings, y.isMisled →
        y.name ∈ (ofLines lines .empty).names.classes.toList ∧
          ∃ z ∈ (ofLines lines .empty).namings, z.name = y.name ∧ z.followsClassKeyword := by
  constructor
  · intro hall y hy hm
    have hne := (isMisled_iff_of_mem h hy).1 hm
    have hw : y.name ∈ (ofLines lines .empty).names.classes.toList := by
      cases hd : y.isDeclared with
      | true => exact (mem_classes_iff h y.name).2 ⟨y, hy, rfl, hd⟩
      | false =>
        rw [hd] at hne
        exact (hall y.name).2 ⟨y, hy, rfl, Bool.ne_false_iff.1 hne.symm⟩
    exact ⟨hw, (hall y.name).1 hw⟩
  · intro hall w
    constructor
    · intro hw
      obtain ⟨y, hy, rfl, hd⟩ := (mem_classes_iff h w).1 hw
      by_cases hm : y.isMisled
      · exact (hall y hy hm).2
      · rw [isMisled_iff_of_mem h hy, Classical.not_not] at hm
        exact ⟨y, hy, rfl, hm ▸ hd⟩
    · rintro ⟨y, hy, rfl, hf⟩
      by_cases hm : y.isMisled
      · exact (hall y hy hm).1
      · rw [isMisled_iff_of_mem h hy, Classical.not_not] at hm
        exact (mem_classes_iff h y.name).2 ⟨y, hy, rfl, hm ▸ hf⟩

/-- The names that a document without mistakes makes names of classes, and reads as such wherever
they stand, are those that the search declares. They are the names behind the class keyword exactly
if every misled name is one of both. -/
theorem classes_spec (h : (ofLines lines .empty).diagnostics = []) :
    let x := ofLines lines .empty
    (∀ w, w ∈ x.names.classes.toList ↔ ∃ t ∈ x.tokens, (∃ id, t.kind = .classId id) ∧ t.lexeme = w) ∧
      (∀ w, w ∈ x.names.classes.toList ↔ ∃ y ∈ x.namings, y.name = w ∧ y.isDeclared) ∧
      ((∀ w, w ∈ x.names.classes.toList ↔ ∃ y ∈ x.namings, y.name = w ∧ y.followsClassKeyword) ↔
        ∀ y ∈ x.namings, y.isMisled → y.name ∈ x.names.classes.toList ∧
          ∃ z ∈ x.namings, z.name = y.name ∧ z.followsClassKeyword) :=
  ⟨mem_classes_iff_classId h, mem_classes_iff h, classes_eq_iff_misled h⟩

/-- A text that declares the class `Cat` on the line after its keyword, and uses it above. -/
def lateClass : List String :=
  splitLines "gwobaw tom-Cat = Cat()~\ncwass\nCat() [[\n]]\n"

theorem lateClass_classes : (ofLines lateClass .empty).diagnostics = [] ∧
    (ofLines lateClass .empty).namings.length = 4 ∧
    ∀ w, w ∈ (ofLines lateClass .empty).names.classes.toList ↔
      ∃ y ∈ (ofLines lateClass .empty).namings, y.name = w ∧ y.followsClassKeyword := by
  have hl : ofLines lateClass .empty = _ := ofLines_splitLines (toList_of_eq rfl) .empty
  have hd : (ofLines lateClass .empty).diagnostics = [] := by
    rw [hl]
    decide +kernel
  have hlength : (ofLines lateClass .empty).namings.length = 4 := by
    rw [hl]
    decide +kernel
  have hm : ∀ y ∈ (ofLines lateClass .empty).namings, ¬y.isMisled := by
    rw [hl]
    decide +kernel
  refine ⟨hd, hlength, (classes_spec hd).2.2.2 ?_⟩
  exact fun y hy h => absurd h (hm y hy)

/-- A text without the class keyword. -/
def keywordInName : List String :=
  splitLines "my_cwass foo~\n"

/-- The search takes the end of a name for the class keyword. -/
theorem keywordInName_classes : (ofLines keywordInName .empty).diagnostics = [] ∧
    "foo" ∈ (ofLines keywordInName .empty).names.classes.toList ∧
    ∀ y ∈ (ofLines keywordInName .empty).namings, ¬y.followsClassKeyword := by
  rw [show ofLines keywordInName .empty = _ from ofLines_splitLines (toList_of_eq rfl) .empty]
  decide +kernel

end Lexed

end Uwu
