import Uwu.Proofs.Lexeme.Numbering

/-! Two readings of a document that begin with different names. What is cut out of the document does
not depend on the names. Where they agree on which words of the document are classes, the tokens
differ in the numbers of names only. -/

namespace Uwu

/-! ### Numbers in another table -/

namespace NameTable

/-- The number in `u` of the name that has a number in `t`. A number that stands for no name, or for
a name that `u` does not know, goes behind all numbers of `u`. -/
def renumber (t u : NameTable) (id : Nat) : Nat :=
  ((t.name? id).bind u.id?).getD (u.size + id)

variable {t u : NameTable} {name : String} {id id' : Nat}

theorem renumber_of_id? (ht : t.id? name = some id) (hu : u.id? name = some id') :
    t.renumber u id = id' := by
  rw [renumber, name?_of_id? ht, Option.bind_some, hu, Option.getD_some]

theorem lt_size_of_id? (h : t.id? name = some id) : id < t.size :=
  (List.getElem?_eq_some_iff.1 (name?_of_id? h)).1

/-- No name has two numbers. -/
theorem eq_of_name? (hid : t.name? id = some name) (hid' : t.name? id' = some name) :
    id = id' := by
  obtain ⟨hlt, -⟩ := List.getElem?_eq_some_iff.1 hid
  exact (List.getElem?_inj hlt t.inStep.distinct).1 (hid.trans hid'.symm)

/-- A number is that of a name of both tables, or it is moved behind the numbers of `u`. -/
theorem renumber_cases (t u : NameTable) (id : Nat) :
    (∃ name, t.name? id = some name ∧ u.id? name = some (t.renumber u id)) ∨
      t.renumber u id = u.size + id := by
  rw [renumber]
  cases h : (t.name? id).bind u.id? with
  | none => exact .inr rfl
  | some id' =>
    obtain ⟨name, hname, hid⟩ := Option.bind_eq_some_iff.1 h
    exact .inl ⟨name, hname, hid⟩

theorem renumber_injective (t u : NameTable) : (t.renumber u).Injective := by
  intro i j hij
  rcases renumber_cases t u i with ⟨name, hi, hid⟩ | hi <;>
    rcases renumber_cases t u j with ⟨name', hj, hid'⟩ | hj
  · rw [hij] at hid
    have hname : name = name' :=
      Option.some.inj ((name?_of_id? hid).symm.trans (name?_of_id? hid'))
    subst hname
    exact eq_of_name? hi hj
  · have := lt_size_of_id? hid
    omega
  · have := lt_size_of_id? hid'
    omega
  · omega

end NameTable

/-! ### Names by their lexemes -/

namespace Names

/-- All names that are known. -/
def words (n : Names) : List String :=
  n.identifiers.toList ++ n.classes.toList

/-- The same of these words are names of classes. -/
def Agree (W : String → Prop) (m n : Names) : Prop :=
  ∀ w, W w → m.isClass w = n.isClass w

variable {m n : Names} {w : String}

theorem words_subset_of_le (h : m ≤ n) : m.words ⊆ n.words := by
  have hidentifiers : m.identifiers.toList <+: n.identifiers.toList := h.1
  have hclasses : m.classes.toList <+: n.classes.toList := h.2
  exact List.append_subset.2 ⟨List.subset_append_of_subset_left _ hidentifiers.subset,
    List.subset_append_of_subset_right _ hclasses.subset⟩

theorem isClass_withClass (n : Names) (name w : String) :
    (n.withClass name).1.isClass w = (n.isClass w || w == name) := by
  rw [Bool.eq_iff_iff, Bool.or_eq_true, beq_iff_eq, isClass_iff, isClass_iff]
  exact NameTable.mem_intern

end Names

/-- A kind without the number that a name carries. -/
def Kind.anonymous : Kind → Kind
  | identifier _ => identifier 0
  | classId _ => classId 0
  | k => k

def Token.anonymous (t : Token) : Token :=
  { t with kind := t.kind.anonymous }

namespace Lexeme

def Piece.anonymous : Piece → Piece
  | token t => token t.anonymous
  | p => p

theorem Piece.token?_anonymous (p : Piece) :
    p.anonymous.token? = p.token?.map Token.anonymous := by
  cases p <;> rfl

theorem Piece.diagnostic?_anonymous (p : Piece) : p.anonymous.diagnostic? = p.diagnostic? := by
  cases p <;> rfl

/-! ### The kind of a name -/

theorem isName_nameKind (names : Names) (declared : Bool) (word : String) :
    (nameKind names declared word).2.isName :=
  (nameKind_eq rfl).1

theorem isClass_nameKind (names : Names) (declared : Bool) (word w : String) :
    (nameKind names declared word).1.isClass w = (names.isClass w || declared && w == word) := by
  rw [nameKind]
  split
  next hd => rw [hd, Bool.true_and, ← Names.isClass_withClass]
  next hd =>
    rw [Bool.not_eq_true] at hd
    rw [hd, Bool.false_and, Bool.or_false]
    split <;> rfl

theorem mem_words_nameKind (names : Names) (declared : Bool) (word : String) :
    word ∈ (nameKind names declared word).1.words := by
  rw [nameKind, Names.words]
  split
  next => exact List.mem_append_right _ (NameTable.mem_intern.2 (.inr rfl))
  next =>
    split
    next id hid =>
      exact List.mem_append_right _ (NameTable.mem_of_id?_isSome.1 (Option.isSome_of_eq_some hid))
    next => exact List.mem_append_left _ (NameTable.mem_intern.2 (.inr rfl))

theorem words_nameKind {names : Names} {declared : Bool} {word w : String}
    (h : w ∈ (nameKind names declared word).1.words) : w ∈ names.words ∨ w = word := by
  have append {l r : List String} (hw : w ∈ l ++ r) : w ∈ l ∨ w ∈ r := List.mem_append.1 hw
  rw [nameKind] at h
  split at h
  next =>
    rcases append h with h | h
    · exact .inl (List.mem_append_left _ h)
    · exact (NameTable.mem_intern.1 h).imp_left (List.mem_append_right _)
  next =>
    split at h
    next => exact .inl h
    next =>
      rcases append h with h | h
      · exact (NameTable.mem_intern.1 h).imp_left (List.mem_append_left _)
      · exact .inl (List.mem_append_right _ h)

theorem anonymous_nameKind (names : Names) (declared : Bool) (word : String) :
    (nameKind names declared word).2.anonymous =
      if declared || names.isClass word then .classId 0 else .identifier 0 := by
  rw [nameKind, Names.isClass]
  cases declared with
  | true => rfl
  | false =>
    rw [if_neg Bool.false_ne_true]
    split
    next id hid => rw [hid]; rfl
    next hid => rw [hid]; rfl

/-! ### One reading -/

/-- Whether a name is accepted does not depend on its kind. -/
theorem checkFollower_name (width : Nat) (text : List Char) :
    (∀ k : Kind, k.isName → checkFollower k width text = .accepted k width) ∨
      ∃ cause, ∀ k : Kind, k.isName → checkFollower k width text = .rejected cause width := by
  have followers (k : Kind) (hk : k.isName) : k.followers? = some Follower.afterClose := by
    cases k <;> first | rfl | cases hk
  simp only [checkFollower]
  cases htext : text[width]? with
  | none => exact .inl fun k _ => rfl
  | some c =>
    by_cases hc : Follower.afterClose.contains c
    · refine .inl fun k hk => ?_
      simp only [followers k hk, if_pos hc]
    · refine .inr ⟨.badFollower (String.ofList (text.take width))
        (Follower.shown Follower.afterClose) c.toString, fun k hk => ?_⟩
      simp only [followers k hk, if_neg hc]

/-- A reading that is no name. -/
def Reading.Nameless (r : Reading) : Prop :=
  ∀ k w, r = .accepted k w → k.isName = false

theorem nameless_checkFollower {k : Kind} (hk : k.isName = false) (width : Nat)
    (text : List Char) : (checkFollower k width text).Nameless := by
  intro k' w h
  rwa [(checkFollower_eq_accepted h).1]

theorem nameless_rejected (cause : Cause) (width : Nat) :
    (Reading.rejected cause width).Nameless :=
  nofun

/-- The reading of a text looks at the names that are known for the word at its beginning only,
or not at all. -/
inductive Course (before : List (List Char)) (c : Char) (cs : List Char) (brackets : Nat)
    (interpolating : Bool) : Prop
  | plain (r : Reading) (brackets' : Nat) (interpolating' : Bool) (nameless : r.Nameless)
    (eq : ∀ names, read before c cs ⟨names, brackets, interpolating⟩ =
      (r, ⟨names, brackets', interpolating'⟩))
  | name (declared : Bool)
    (eq : ∀ names, read before c cs ⟨names, brackets, interpolating⟩ =
      let word := (c :: cs).takeWhile isWordChar
      let (names, kind) := nameKind names declared (String.ofList word)
      (checkFollower kind word.length (c :: cs), ⟨names, brackets, interpolating⟩))

section Course

variable {before : List (List Char)} {c : Char} {cs : List Char} {brackets : Nat}
  {interpolating : Bool}

/-- A text whose reading accepts no name. -/
theorem Course.accepts (k : Kind) (width brackets' : Nat) (interpolating' : Bool)
    (hk : k.isName = false)
    (h : ∀ names, read before c cs ⟨names, brackets, interpolating⟩ =
      (checkFollower k width (c :: cs), ⟨names, brackets', interpolating'⟩)) :
    Course before c cs brackets interpolating :=
  .plain _ brackets' interpolating' (nameless_checkFollower hk width _) h

theorem Course.rejects (cause : Cause) (width : Nat) (interpolating' : Bool)
    (h : ∀ names, read before c cs ⟨names, brackets, interpolating⟩ =
      (.rejected cause width, ⟨names, brackets, interpolating'⟩)) :
    Course before c cs brackets interpolating :=
  .plain _ brackets interpolating' (nameless_rejected cause width) h

theorem course_of_readWord
    (h : ∀ names, read before c cs ⟨names, brackets, interpolating⟩ =
      readWord before (c :: cs) ⟨names, brackets, interpolating⟩) :
    Course before c cs brackets interpolating := by
  cases hdouble : doubleKeyword? (c :: cs) with
  | some kv =>
    refine .accepts (.keyword kv.1) kv.2 brackets interpolating rfl fun names => ?_
    simp only [h, readWord, hdouble]
  | none =>
    cases hword : Keyword.ofWord? (String.ofList ((c :: cs).takeWhile isWordChar)) with
    | some k =>
      refine .accepts (.keyword k) ((c :: cs).takeWhile isWordChar).length brackets interpolating
        rfl fun names => ?_
      simp only [h, readWord, hdouble, hword]
    | none =>
      by_cases hlast : (c :: cs).length ≤ ((c :: cs).takeWhile isWordChar).length
      · refine .rejects (.unterminatedName (String.ofList ((c :: cs).takeWhile isWordChar)))
          ((c :: cs).takeWhile isWordChar).length interpolating fun names => ?_
        simp only [h, readWord, hdouble, hword, readName, if_pos hlast]
      · refine .name (afterClassKeyword before) fun names => ?_
        simp only [h, readWord, hdouble, hword, readName, if_neg hlast]

theorem course_of_readUnterminated
    (h : ∀ names, read before c cs ⟨names, brackets, interpolating⟩ =
      readUnterminated (c :: cs) ⟨names, brackets, interpolating⟩) :
    Course before c cs brackets interpolating :=
  .rejects _ _ false h

theorem course_of_readString
    (h : ∀ names, read before c cs ⟨names, brackets, interpolating⟩ =
      readString (c :: cs) ⟨names, brackets, interpolating⟩) :
    Course before c cs brackets interpolating := by
  cases hend : segmentEnd? 0 cs with
  | none =>
    refine course_of_readUnterminated fun names => ?_
    simp only [h, readString, List.tail_cons, hend]
  | some ne =>
    obtain ⟨n, e⟩ := ne
    by_cases hquote : e = '"'
    · subst hquote
      refine .accepts .stringLiteral (n + 2) brackets interpolating rfl fun names => ?_
      simp only [h, readString, List.tail_cons, hend]
    · refine .accepts .stringPartStart (n + 2) brackets true rfl fun names => ?_
      simp only [h, readString, List.tail_cons, hend]

theorem course_of_readStringPart
    (h : ∀ names, read before c cs ⟨names, brackets, interpolating⟩ =
      readStringPart (c :: cs) ⟨names, brackets, interpolating⟩) :
    Course before c cs brackets interpolating := by
  cases hend : segmentEnd? 0 cs with
  | none =>
    refine course_of_readUnterminated fun names => ?_
    simp only [h, readStringPart, List.tail_cons, hend]
  | some ne =>
    obtain ⟨n, e⟩ := ne
    by_cases hquote : e = '"'
    · subst hquote
      refine .accepts .stringPartEnd (n + 2) brackets false rfl fun names => ?_
      simp only [h, readStringPart, List.tail_cons, hend]
    · refine .accepts .stringPartMid (n + 2) brackets interpolating rfl fun names => ?_
      simp only [h, readStringPart, List.tail_cons, hend]

theorem course_of_readSymbol
    (h : ∀ names, read before c cs ⟨names, brackets, interpolating⟩ =
      readSymbol (c :: cs) ⟨names, brackets, interpolating⟩) :
    Course before c cs brackets interpolating := by
  by_cases hcomment : commentSign.isPrefixOf (c :: cs)
  · refine .accepts .comment (restWidth (c :: cs)) brackets interpolating rfl fun names => ?_
    simp only [h, readSymbol, if_pos hcomment]
  · cases hsymbol : symbolAt? brackets (c :: cs) with
    | none =>
      refine .rejects (.unknownCharacter (String.ofList ((c :: cs).take 1))) 1 interpolating
        fun names => ?_
      simp only [h, readSymbol, if_neg hcomment, hsymbol]
    | some s =>
      refine .accepts (.symbol s) s.spelling.length (bracketsAfter brackets s) interpolating rfl
        fun names => ?_
      simp only [h, readSymbol, if_neg hcomment, hsymbol]

/-- The course of every reading. -/
theorem course_read (before : List (List Char)) (c : Char) (cs : List Char) (brackets : Nat)
    (interpolating : Bool) : Course before c cs brackets interpolating := by
  by_cases hline : c = '\n'
  · refine .accepts .newline 1 brackets false rfl fun names => ?_
    simp only [read, if_pos hline]
  by_cases hblank : Text.isInlineBlank c
  · refine .accepts .whitespace ((c :: cs).takeWhile Text.isInlineBlank).length brackets
      interpolating rfl fun names => ?_
    simp only [read, if_neg hline, if_pos hblank]
  by_cases hquote : c = '"'
  · refine course_of_readString fun names => ?_
    simp only [read, if_neg hline, if_neg hblank, if_pos hquote]
  by_cases hbar : c = '|' ∧ interpolating
  · refine course_of_readStringPart fun names => ?_
    simp only [read, if_neg hline, if_neg hblank, if_neg hquote, if_pos hbar]
  by_cases hdigit : c.isDigit
  · refine .accepts (numeral (c :: cs)).1 (numeral (c :: cs)).2 brackets interpolating ?_
      fun names => ?_
    · rcases numeral_kind (c :: cs) with hk | hk <;> rw [hk] <;> rfl
    · simp only [read, if_neg hline, if_neg hblank, if_neg hquote, if_neg hbar, if_pos hdigit]
      rfl
  by_cases hword : isWordStart c
  · refine course_of_readWord fun names => ?_
    simp only [read, if_neg hline, if_neg hblank, if_neg hquote, if_neg hbar, if_neg hdigit,
      if_pos hword]
  · refine course_of_readSymbol fun names => ?_
    simp only [read, if_neg hline, if_neg hblank, if_neg hquote, if_neg hbar, if_neg hdigit,
      if_neg hword]

end Course

/-! ### The names behind a document -/

section Names

variable {P : Names → Prop}

/-- What every name of a line keeps is kept by the line. -/
theorem names_linePieces (line : Nat) (earlier : List (List Char)) (text : List Char)
    (hP : ∀ u, u <:+ text → ∀ names declared, P names →
      P (nameKind names declared (String.ofList (u.takeWhile isWordChar))).1)
    (skip : Nat) (passed : List Char) (st : State) (h : P st.names) :
    P (linePieces line earlier skip passed text st).2.names := by
  induction text generalizing skip passed st with
  | nil => cases skip <;> exact h
  | cons c cs ih =>
    have htail u (hu : u <:+ cs) := hP u (hu.trans (List.suffix_cons c cs))
    cases skip with
    | succ skip => exact ih htail skip (c :: passed) st h
    | zero =>
      obtain ⟨names, brackets, interpolating⟩ := st
      rcases course_read (passed :: earlier) c cs brackets interpolating with
        ⟨r, brackets', interpolating', -, eq⟩ | ⟨declared, eq⟩
      · simp only [linePieces, eq]
        exact ih htail _ _ _ h
      · simp only [linePieces, eq]
        exact ih htail _ _ _ (hP _ List.suffix_rfl names declared h)

theorem names_pieces (ls : Document)
    (hP : ∀ text ∈ ls, ∀ u, u <:+ text → ∀ names declared, P names →
      P (nameKind names declared (String.ofList (u.takeWhile isWordChar))).1)
    (line : Nat) (earlier : List (List Char)) (st : State) (h : P st.names) :
    P (pieces line earlier ls st).2.names := by
  induction ls generalizing line earlier st with
  | nil => exact h
  | cons text ls ih =>
    obtain ⟨htext, hls⟩ := List.forall_mem_cons.1 hP
    exact ih hls _ _ _ (names_linePieces line earlier text htext 0 [] st h)

end Names

/-! ### Two readings of a document -/

/-- Two states that differ in their names at most. -/
def State.SameFrame (st st' : State) : Prop :=
  st.openBrackets = st'.openBrackets ∧ st.interpolating = st'.interpolating

theorem State.SameFrame.of_names (m n : Names) (brackets : Nat) (interpolating : Bool) :
    SameFrame ⟨m, brackets, interpolating⟩ ⟨n, brackets, interpolating⟩ :=
  ⟨rfl, rfl⟩

/-- The same is cut out, up to the numbers of names, and all names are among the words. The names
known behind agree on the words. -/
structure Alike (W : String → Prop) (x y : List Piece × State) : Prop where
  pieces : x.1.map Piece.anonymous = y.1.map Piece.anonymous
  words : ∀ t ∈ x.1.filterMap Piece.token?, t.kind.isName → W t.lexeme
  frame : x.2.SameFrame y.2
  names : Names.Agree W x.2.names y.2.names

section Alike

variable {W : String → Prop} {ps qs : List Piece} {st st' : State} {p q : Piece}

theorem alike_nil (frame : st.SameFrame st') (names : Names.Agree W st.names st'.names) :
    Alike W ([], st) ([], st') :=
  ⟨rfl, nofun, frame, names⟩

theorem Alike.cons (h : Alike W (ps, st) (qs, st')) (hpq : p.anonymous = q.anonymous)
    (hp : ∀ t, p.token? = some t → t.kind.isName → W t.lexeme) :
    Alike W (p :: ps, st) (q :: qs, st') := by
  refine ⟨?_, fun t ht => ?_, h.frame, h.names⟩
  · rw [List.map_cons, List.map_cons, hpq, h.pieces]
  · obtain ⟨r, hr, hrt⟩ := List.mem_filterMap.1 ht
    rcases List.mem_cons.1 hr with rfl | hr
    · exact hp t hrt
    · exact h.words t (List.mem_filterMap.2 ⟨r, hr, hrt⟩)

/-- What is said between two pieces is said in both readings. -/
theorem Alike.remark (h : Alike W (ps, st) (qs, st')) (here : Prop) [Decidable here]
    (position : Position) :
    Alike W (if here then openString position :: ps else ps, st)
      (if here then openString position :: qs else qs, st') := by
  split
  · exact h.cons rfl nofun
  · exact h

theorem Alike.append {x y : List Piece × State} (h : Alike W (ps, st) (qs, st'))
    (h' : Alike W x y) : Alike W (ps ++ x.1, x.2) (qs ++ y.1, y.2) := by
  refine ⟨?_, fun t ht => ?_, h'.frame, h'.names⟩
  · rw [List.map_append, List.map_append, h.pieces, h'.pieces]
  · rw [List.filterMap_append, List.mem_append] at ht
    exact ht.elim (h.words t) (h'.words t)

theorem agree_nameKind {m n : Names} (h : Names.Agree W m n) (declared : Bool)
    (word : String) :
    Names.Agree W (nameKind m declared word).1 (nameKind n declared word).1 := by
  intro w hw
  rw [isClass_nameKind, isClass_nameKind, h w hw]

theorem anonymous_nameKind_eq {m n : Names} (h : Names.Agree W m n) (declared : Bool)
    {word : String} (hword : W word) :
    (nameKind m declared word).2.anonymous = (nameKind n declared word).2.anonymous := by
  rw [anonymous_nameKind, anonymous_nameKind, h word hword]

/-- Two readings of a line from names that agree on all words of a third reading. -/
theorem alike_linePieces (line : Nat) (earlier : List (List Char)) (text : List Char) (skip : Nat)
    (passed : List Char) {sl sm sn : State}
    (hl : ∀ w ∈ (linePieces line earlier skip passed text sl).2.names.words, W w)
    (hlm : sl.SameFrame sm) (hmn : sm.SameFrame sn) (hagree : Names.Agree W sm.names sn.names) :
    Alike W (linePieces line earlier skip passed text sm)
        (linePieces line earlier skip passed text sn) ∧
      (linePieces line earlier skip passed text sl).2.SameFrame
        (linePieces line earlier skip passed text sm).2 := by
  induction text generalizing skip passed sl sm sn with
  | nil => cases skip <;> exact ⟨alike_nil hmn hagree, hlm⟩
  | cons c cs ih =>
    cases skip with
    | succ skip => exact ih skip (c :: passed) hl hlm hmn hagree
    | zero =>
      obtain ⟨l, brackets, interpolating⟩ := sl
      obtain ⟨m, brackets', interpolating'⟩ := sm
      obtain ⟨n, brackets'', interpolating''⟩ := sn
      obtain ⟨⟨⟩, ⟨⟩⟩ := hlm
      obtain ⟨⟨⟩, ⟨⟩⟩ := hmn
      rcases course_read (passed :: earlier) c cs brackets interpolating with
        ⟨r, brackets', interpolating', nameless, eq⟩ | ⟨declared, eq⟩
      · simp only [linePieces, eq] at hl ⊢
        obtain ⟨halike, hframe⟩ := ih _ _ hl (.of_names l m _ _) (.of_names m n _ _) hagree
        refine ⟨Alike.remark (halike.cons rfl fun t ht hname => ?_) _ _, hframe⟩
        cases r with
        | rejected cause w => cases ht
        | accepted k w =>
          cases ht
          rw [nameless k w rfl] at hname
          cases hname
      · generalize hword : (c :: cs).takeWhile isWordChar = word at eq
        have hmem := mem_words_nameKind l declared (String.ofList word)
        have hagree' := agree_nameKind hagree declared (String.ofList word)
        rcases checkFollower_name word.length (c :: cs) with hacc | ⟨cause, hrej⟩
        · simp only [linePieces, eq, hacc _ (isName_nameKind _ _ _), Reading.width] at hl ⊢
          have hle := (allFit_linePieces line earlier cs (word.length - 1) (c :: passed)
            ⟨(nameKind l declared (String.ofList word)).1, brackets, interpolating⟩).1
          have hW := hl _ (Names.words_subset_of_le hle hmem)
          obtain ⟨halike, hframe⟩ :=
            ih _ _ hl (.of_names _ _ _ _) (.of_names _ _ _ _) hagree'
          refine ⟨Alike.remark (halike.cons ?_ fun t ht _ => ?_) _ _, hframe⟩
          · exact congrArg (fun k => Piece.token ⟨k, _, _⟩)
              (anonymous_nameKind_eq hagree declared hW)
          · cases ht
            change W (String.ofList ((c :: cs).take word.length))
            rwa [← hword, take_length_takeWhile, hword]
        · simp only [linePieces, eq, hrej _ (isName_nameKind _ _ _), Reading.width] at hl ⊢
          obtain ⟨halike, hframe⟩ :=
            ih _ _ hl (.of_names _ _ _ _) (.of_names _ _ _ _) hagree'
          exact ⟨Alike.remark (halike.cons rfl fun t ht => by cases ht) _ _, hframe⟩

theorem alike_pieces (ls : Document) (line : Nat) (earlier : List (List Char)) {sl sm sn : State}
    (hl : ∀ w ∈ (pieces line earlier ls sl).2.names.words, W w)
    (hlm : sl.SameFrame sm) (hmn : sm.SameFrame sn) (hagree : Names.Agree W sm.names sn.names) :
    Alike W (pieces line earlier ls sm) (pieces line earlier ls sn) := by
  induction ls generalizing line earlier sl sm sn with
  | nil => exact alike_nil hmn hagree
  | cons text ls ih =>
    have hle := (allFit_pieces (line + 1) (text.reverse :: earlier) ls
      (linePieces line earlier 0 [] text sl).2).1
    obtain ⟨halike, hframe⟩ := alike_linePieces line earlier text 0 []
      (fun w hw => hl w (Names.words_subset_of_le hle hw)) hlm hmn hagree
    exact halike.append
      (ih (line + 1) (text.reverse :: earlier) hl hframe halike.frame halike.names)

end Alike

end Lexeme

/-! ### Two readings of a text -/

/-- New numbers for names. -/
structure Renumbering where
  identifiers : Nat → Nat
  classes : Nat → Nat

/-- The numbers that the classes of `m` have in `n`. -/
abbrev Names.classNumbers (m n : Names) : Nat → Nat :=
  m.classes.renumber n.classes

/-- The numbers that the names of `m` have in `n`. -/
def Renumbering.between (m n : Names) : Renumbering :=
  ⟨m.identifiers.renumber n.identifiers, m.classNumbers n⟩

def Kind.renumber (ρ : Renumbering) : Kind → Kind
  | identifier id => identifier (ρ.identifiers id)
  | classId id => classId (ρ.classes id)
  | k => k

def Token.renumber (ρ : Renumbering) (t : Token) : Token :=
  { t with kind := t.kind.renumber ρ }

/-- What a reading makes of a kind, by the tables behind it. -/
theorem Kind.eq_renumber {m n : Names} {lexeme : String} {j k : Kind} (hj : j.Fits m lexeme)
    (hk : k.Fits n lexeme) (hjk : j.anonymous = k.anonymous) :
    k = j.renumber (.between m n) := by
  cases j with
  | identifier id =>
    cases k with
    | identifier id' => exact congrArg _ (NameTable.renumber_of_id? hj.1 hk.1).symm
    | _ => cases hjk
  | classId id =>
    cases k with
    | classId id' => exact congrArg _ (NameTable.renumber_of_id? hj.1 hk.1).symm
    | _ => cases hjk
  | _ => cases k <;> first | cases hjk; rfl | cases hjk

theorem Token.eq_renumber {m n : Names} {t u : Token} (ht : t.kind.Fits m t.lexeme)
    (hu : u.kind.Fits n u.lexeme) (h : t.anonymous = u.anonymous) :
    u = t.renumber (.between m n) := by
  obtain ⟨j, lexeme, span⟩ := t
  obtain ⟨k, lexeme', span'⟩ := u
  simp only [anonymous, Token.mk.injEq] at h
  obtain ⟨hjk, rfl, rfl⟩ := h
  exact congrArg (Token.mk · lexeme span) (Kind.eq_renumber ht hu hjk)

theorem Token.anonymous_reclassify {m n : Names} {t u : Token} (h : t.anonymous = u.anonymous)
    (hmn : t.kind.isName → m.isClass t.lexeme = n.isClass t.lexeme) :
    (t.reclassify m).anonymous = (u.reclassify n).anonymous := by
  obtain ⟨j, lexeme, span⟩ := t
  obtain ⟨k, lexeme', span'⟩ := u
  simp only [anonymous, Token.mk.injEq] at h
  obtain ⟨hjk, rfl, rfl⟩ := h
  cases j with
  | identifier id =>
    cases k with
    | identifier id' =>
      have hclass := hmn rfl
      simp only [Names.isClass] at hclass
      simp only [reclassify]
      cases hm : m.classes.id? lexeme <;> cases hn : n.classes.id? lexeme <;>
        simp_all [anonymous, Kind.anonymous]
    | _ => cases hjk
  | _ => cases k <;> first | cases hjk; rfl | cases hjk

theorem Token.map_anonymous_reclassify {m n : Names} {ts us : List Token}
    (h : ts.map anonymous = us.map anonymous)
    (hmn : ∀ t ∈ ts, t.kind.isName → m.isClass t.lexeme = n.isClass t.lexeme) :
    (ts.map (reclassify m)).map anonymous = (us.map (reclassify n)).map anonymous := by
  induction ts generalizing us with
  | nil => rw [List.map_eq_nil_iff.1 h.symm]; rfl
  | cons t ts ih =>
    cases us with
    | nil => cases h
    | cons u us =>
      obtain ⟨htu, h⟩ := List.cons.inj h
      obtain ⟨ht, hts⟩ := List.forall_mem_cons.1 hmn
      simp only [List.map_cons, anonymous_reclassify htu ht, ih h hts]

theorem Token.map_eq_map_renumber {m n : Names} {ts us : List Token}
    (h : ts.map anonymous = us.map anonymous) (ht : ∀ t ∈ ts, t.kind.Fits m t.lexeme)
    (hu : ∀ u ∈ us, u.kind.Fits n u.lexeme) : us = ts.map (renumber (.between m n)) := by
  induction ts generalizing us with
  | nil => exact List.map_eq_nil_iff.1 h.symm
  | cons t ts ih =>
    cases us with
    | nil => cases h
    | cons u us =>
      obtain ⟨htu, h⟩ := List.cons.inj h
      obtain ⟨ht, hts⟩ := List.forall_mem_cons.1 ht
      obtain ⟨hu, hus⟩ := List.forall_mem_cons.1 hu
      rw [List.map_cons, ← ih h hts hus, ← Token.eq_renumber ht hu htu]

namespace Lexed

/-- The tokens of a document, before names of classes are told apart. -/
theorem alike_ofLines (lines : List String) {m n : Names}
    (h : ∀ w ∈ (ofLines lines .empty).names.words, m.isClass w = n.isClass w) :
    Lexeme.Alike (· ∈ (ofLines lines .empty).names.words) (pieces lines m) (pieces lines n) :=
  Lexeme.alike_pieces _ 0 [] (fun _ hw => hw) (.of_names .empty m 0 false)
    (.of_names m n 0 false) h

variable {lines : List String} {m n : Names}
  (h : ∀ w ∈ (ofLines lines .empty).names.words, m.isClass w = n.isClass w)
include h

theorem diagnostics_ofLines_eq : (ofLines lines n).diagnostics = (ofLines lines m).diagnostics := by
  have halike := alike_ofLines lines h
  have hpieces := congrArg (List.filterMap Lexeme.Piece.diagnostic?) halike.pieces
  simp only [List.filterMap_map, Function.comp_def, Lexeme.Piece.diagnostic?_anonymous] at hpieces
  rw [diagnostics_ofLines, diagnostics_ofLines, hpieces, halike.frame.2]

theorem tokens_ofLines_eq : (ofLines lines n).tokens =
    (ofLines lines m).tokens.map
      (Token.renumber (.between (ofLines lines m).names (ofLines lines n).names)) := by
  refine Token.map_eq_map_renumber ?_ (fun t => fits_ofLines lines m)
    fun u => fits_ofLines lines n
  have halike := alike_ofLines lines h
  have hpieces := congrArg (List.filterMap Lexeme.Piece.token?) halike.pieces
  simp only [List.filterMap_map, Function.comp_def, Lexeme.Piece.token?_anonymous,
    ← List.map_filterMap] at hpieces
  have htokens := Token.map_anonymous_reclassify hpieces fun t ht hname =>
    halike.names _ (halike.words t ht hname)
  rw [tokens_ofLines, tokens_ofLines, List.map_append, List.map_append, htokens]

/-- The classes that a token names are the same by its number in either table. -/
theorem name?_renumber_ofLines {t : Token} (ht : t ∈ (ofLines lines m).tokens) {id : Nat}
    (hid : t.kind = .classId id) :
    (ofLines lines n).names.classes.name?
        ((ofLines lines m).names.classNumbers (ofLines lines n).names id) =
      (ofLines lines m).names.classes.name? id := by
  have hm := fits_ofLines lines m ht
  have hn := fits_ofLines lines n (t := t.renumber (.between (ofLines lines m).names
    (ofLines lines n).names)) (by
      rw [tokens_ofLines_eq h]
      exact List.mem_map_of_mem ht)
  rw [hid] at hm
  simp only [Token.renumber, hid] at hn
  rw [NameTable.name?_of_id? hm.1]
  exact NameTable.name?_of_id? hn.1

end Lexed

end Uwu
