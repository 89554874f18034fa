import Mathlib.Data.List.Forall2
import Uwu.Proofs.Lexeme.Quoting

/-! How names with indices are read. The reader counts the index brackets that are open, and so
splits a run of closing brackets into those of indices, one by one, and those of a block. -/

namespace Uwu

/-! ### Names with indices -/

/-- A word that can be a name. -/
structure PlainName where
  word : String
  isPlainName : isPlainName word

/-- An integer as it is written. -/
structure Numeral where
  digits : List Char
  ne_nil : digits ≠ []
  isDigit : ∀ c ∈ digits, c.isDigit

mutual

/-- What is between the brackets of an index. -/
inductive Index where
  | numeral (n : Numeral)
  | name (x : PlainName)
  | indexed (e : IndexExpr)

/-- A name with one index or more behind it. -/
inductive IndexExpr where
  | first (base : PlainName) (i : Index)
  | next (e : IndexExpr) (i : Index)

end

/-- A lexeme of a name with indices. -/
inductive IndexPart where
  | name (x : PlainName)
  | numeral (n : Numeral)
  | opening
  | closing

namespace IndexPart

def spelling : IndexPart → List Char
  | name x => x.word.toList
  | numeral n => n.digits
  | opening => ['[']
  | closing => [']']

/-- A token of this kind may be the lexeme. A name may turn out to be one of a class. -/
def HasKind : IndexPart → Kind → Prop
  | name _, k => k.isName
  | numeral _, k => k = .intLiteral
  | opening, k => k = .symbol .openBracket
  | closing, k => k = .symbol .closeBracket

def IsToken (x : IndexPart) (t : Token) : Prop :=
  t.lexeme = String.ofList x.spelling ∧ x.HasKind t.kind

def symbol? : IndexPart → Option Symbol
  | opening => some .openBracket
  | closing => some .closeBracket
  | _ => none

theorem HasKind.symbol_iff {x : IndexPart} {k : Kind} (h : x.HasKind k) (s : Symbol) :
    k = .symbol s ↔ x.symbol? = some s := by
  cases x with
  | name =>
    refine iff_of_false ?_ (Option.some_ne_none s).symm
    rintro rfl
    cases h
  | numeral => cases h; simp [symbol?]
  | opening => cases h; simp [symbol?]
  | closing => cases h; simp [symbol?]

theorem countP_tokens {xs : List IndexPart} {ts : List Token} (h : List.Forall₂ IsToken xs ts)
    (s : Symbol) : ts.countP (·.kind = .symbol s) = xs.countP (·.symbol? = some s) := by
  induction h with
  | nil => rfl
  | cons hx _ ih => simp only [List.countP_cons, hx.2.symbol_iff, ih]

end IndexPart

mutual

def Index.parts : Index → List IndexPart
  | .numeral n => [.numeral n]
  | .name x => [.name x]
  | .indexed e => e.parts

def IndexExpr.parts : IndexExpr → List IndexPart
  | .first base i => .name base :: .opening :: (i.parts ++ [.closing])
  | .next e i => e.parts ++ .opening :: (i.parts ++ [.closing])

end

mutual

/-- The number of indices at any depth. -/
def Index.indices : Index → Nat
  | .numeral _ | .name _ => 0
  | .indexed e => e.indices

/-- The number of indices at any depth. -/
def IndexExpr.indices : IndexExpr → Nat
  | .first _ i => i.indices + 1
  | .next e i => e.indices + (i.indices + 1)

end

/-- Written without blanks. -/
def IndexExpr.spelling (e : IndexExpr) : List Char :=
  e.parts.flatMap IndexPart.spelling

/-- What may stand behind a name with indices: the end of the statement, a blank, or the end of the
block. -/
inductive EndsIndexed : List Char → Prop where
  | terminator (cs : List Char) : EndsIndexed ('~' :: cs)
  | blank {c : Char} (hc : Text.isBlank c) (cs : List Char) : EndsIndexed (c :: cs)
  | block {c : Char} (hc : Text.isBlank c) (cs : List Char) : EndsIndexed (']' :: ']' :: c :: cs)

/-- No index begins with a bracket. -/
theorem exists_cons_of_isPlainName {word : String} (h : isPlainName word) :
    ∃ c cs, word.toList = c :: cs ∧ c ≠ '[' := by
  rw [isPlainName, Bool.and_eq_true, Bool.and_eq_true] at h
  obtain ⟨c, hc, hstart⟩ := (Option.any_eq_true _ _).1 h.1.1
  obtain ⟨cs, hcs⟩ := List.head?_eq_some_iff.1 hc
  refine ⟨c, cs, hcs, ?_⟩
  rintro rfl
  cases hstart

mutual

theorem Index.exists_cons : ∀ i : Index,
    ∃ c cs, i.parts.flatMap IndexPart.spelling = c :: cs ∧ c ≠ '['
  | .numeral n => by
    obtain ⟨c, cs, hcs⟩ := List.exists_cons_of_ne_nil n.ne_nil
    refine ⟨c, cs, by simp [Index.parts, IndexPart.spelling, hcs], ?_⟩
    rintro rfl
    cases n.isDigit '[' (by rw [hcs]; exact List.mem_cons_self)
  | .name x => by
    obtain ⟨c, cs, hcs, hc⟩ := exists_cons_of_isPlainName x.isPlainName
    exact ⟨c, cs, by simp [Index.parts, IndexPart.spelling, hcs], hc⟩
  | .indexed e => e.exists_cons

theorem IndexExpr.exists_cons : ∀ e : IndexExpr,
    ∃ c cs, e.parts.flatMap IndexPart.spelling = c :: cs ∧ c ≠ '['
  | .first base i => by
    obtain ⟨c, cs, hcs, hc⟩ := exists_cons_of_isPlainName base.isPlainName
    exact ⟨c, _, by simp [IndexExpr.parts, IndexPart.spelling, hcs]; rfl, hc⟩
  | .next e i => by
    obtain ⟨c, cs, hcs, hc⟩ := e.exists_cons
    exact ⟨c, _, by simp [IndexExpr.parts, hcs]; rfl, hc⟩

end

theorem EndsIndexed.head?_mem {rest : List Char} (h : EndsIndexed rest) :
    ∀ c ∈ rest.head?, c ∈ Follower.afterClose := by
  cases h with
  | terminator => rintro _ ⟨⟩; decide
  | blank hc =>
    rintro _ ⟨⟩
    rcases Lexeme.isBlank_iff.1 hc with rfl | rfl | rfl | rfl <;> decide
  | block => rintro _ ⟨⟩; decide

/-! ### Brackets of indices -/

theorem countP_brackets (s : Symbol) (xs : List IndexPart) :
    (IndexPart.opening :: (xs ++ [.closing])).countP (·.symbol? = some s) =
      xs.countP (·.symbol? = some s) +
        if s = .openBracket ∨ s = .closeBracket then 1 else 0 := by
  cases s <;> simp [IndexPart.symbol?]

mutual

theorem Index.countP_parts (s : Symbol) : ∀ i : Index,
    i.parts.countP (·.symbol? = some s) =
      if s = .openBracket ∨ s = .closeBracket then i.indices else 0
  | .numeral _ | .name _ => by
    simp [Index.parts, Index.indices, IndexPart.symbol?]
  | .indexed e => e.countP_parts s

theorem IndexExpr.countP_parts (s : Symbol) : ∀ e : IndexExpr,
    e.parts.countP (·.symbol? = some s) =
      if s = .openBracket ∨ s = .closeBracket then e.indices else 0
  | .first base i => by
    have hname : ¬(IndexPart.name base).symbol? = some s := by simp [IndexPart.symbol?]
    rw [IndexExpr.parts, List.countP_cons_of_neg (by simpa using hname), countP_brackets,
      i.countP_parts s, IndexExpr.indices]
    split <;> rfl
  | .next e i => by
    rw [IndexExpr.parts, List.countP_append, countP_brackets, e.countP_parts s, i.countP_parts s,
      IndexExpr.indices]
    split <;> rfl

end

namespace Lexeme

variable {line : Nat} {earlier : List (List Char)} {passed : List Char} {st st' : State}

/-! ### The lexemes -/

theorem checkFollower_accepts {kind : Kind} {w : Nat} {text : List Char}
    (h : ∀ c ∈ text[w]?, ∀ allowed ∈ kind.followers?, c ∈ allowed) :
    checkFollower kind w text = .accepted kind w := by
  cases hc : text[w]? with
  | none => rw [checkFollower, hc]
  | some c => exact checkFollower_of_mem hc (h c hc)

theorem read_openBracket (before : List (List Char)) {c : Char} (hc : c ≠ '[') (cs : List Char) :
    read before '[' (c :: cs) st =
      (.accepted (.symbol .openBracket) 1, { st with openBrackets := st.openBrackets + 1 }) := by
  have hsingle : ['['].isPrefixOf (c :: cs) = false := by
    simp [List.isPrefixOf, Ne.symm hc]
  have hsymbol : symbolAt? st.openBrackets ('[' :: c :: cs) = some .openBracket := by
    simp [symbolAt?, Symbol.all, Symbol.spelling, hsingle]
  change readSymbol ('[' :: c :: cs) st = _
  rw [readSymbol, if_neg (by simp [commentSign]), hsymbol]
  exact congrArg (·, _) (checkFollower_of_followers?_eq_none rfl _ _)

/-- Inside an index a closing bracket closes it, whatever closing bracket is behind. -/
theorem read_closeBracket (before : List (List Char)) (hst : 0 < st.openBrackets) {cs : List Char}
    (hcs : ∀ c ∈ cs.head?, c ∈ Follower.afterClose) :
    read before ']' cs st =
      (.accepted (.symbol .closeBracket) 1, { st with openBrackets := st.openBrackets - 1 }) := by
  have hsymbol : symbolAt? st.openBrackets (']' :: cs) = some .closeBracket := by
    simp [symbolAt?, Symbol.all, Symbol.spelling, hst]
  change readSymbol (']' :: cs) st = _
  rw [readSymbol, if_neg (by simp [commentSign]), hsymbol]
  refine congrArg (·, _) (checkFollower_accepts fun c hc => ?_)
  rintro _ ⟨⟩
  refine hcs c ?_
  rwa [List.head?_eq_getElem?]

/-- Where no index is open two closing brackets are one lexeme. -/
theorem read_doubleCloseBracket (before : List (List Char)) (hst : st.openBrackets = 0) {c : Char}
    (hc : Text.isBlank c) (cs : List Char) :
    read before ']' (']' :: c :: cs) st = (.accepted (.symbol .doubleCloseBracket) 2, st) := by
  have hsymbol : symbolAt? st.openBrackets (']' :: ']' :: c :: cs) = some .doubleCloseBracket := by
    simp [symbolAt?, Symbol.all, Symbol.spelling, hst]
  change readSymbol (']' :: ']' :: c :: cs) st = _
  rw [readSymbol, if_neg (by simp [commentSign]), hsymbol]
  refine congrArg (·, st) (checkFollower_of_mem rfl ?_)
  rintro _ ⟨⟩
  rcases isBlank_iff.1 hc with rfl | rfl | rfl | rfl <;> decide

theorem read_numeral (before : List (List Char)) (n : Numeral) (cs : List Char) (st : State) :
    ∃ c t, n.digits = c :: t ∧ c ≠ '\n' ∧
      read before c (t ++ ']' :: cs) st = (.accepted .intLiteral n.digits.length, st) := by
  obtain ⟨c, t, ht⟩ := List.exists_cons_of_ne_nil n.ne_nil
  have hc : c.isDigit := n.isDigit c (by rw [ht]; exact List.mem_cons_self)
  have hne {x : Char} (hx : x.isDigit = false) : c ≠ x := by
    rintro rfl
    exact Bool.false_ne_true (hx.symm.trans hc)
  have hwhole : (n.digits ++ ']' :: cs).takeWhile Char.isDigit = n.digits := by
    rw [List.takeWhile_append_of_pos n.isDigit]
    exact List.append_nil _
  have hnumeral : numeral (n.digits ++ ']' :: cs) = (.intLiteral, n.digits.length) := by
    simp only [numeral, hwhole, List.drop_left]
    rfl
  have hblank : Text.isInlineBlank c = false := by
    simp [Text.isInlineBlank, Text.isGap, hne]
  refine ⟨c, t, ht, hne rfl, ?_⟩
  have hread : read before c (t ++ ']' :: cs) st = (readNumber (n.digits ++ ']' :: cs), st) := by
    simp [read, hblank, hne, hc, ht]
  have hnumber : readNumber (n.digits ++ ']' :: cs) =
      checkFollower .intLiteral n.digits.length (n.digits ++ ']' :: cs) := by
    rw [readNumber, hnumeral]
  rw [hread, hnumber]
  refine congrArg (·, st) (checkFollower_of_mem (c := ']') (by simp) ?_)
  rintro _ ⟨⟩
  decide

/-! ### From one place of a line to another -/

/-- The lexemes are written before `rest` and read as such, from the state `st` to the state `st'`:
each is one token, and no other text is between them. -/
def ReadsParts (line : Nat) (earlier : List (List Char)) (passed rest : List Char) (st : State)
    (xs : List IndexPart) (ts : List Token) (st' : State) : Prop :=
  List.Forall₂ IndexPart.IsToken xs ts ∧
    let text := xs.flatMap IndexPart.spelling
    linePieces line earlier 0 passed (text ++ rest) st =
      (ts.map .token ++ (linePieces line earlier 0 (text.reverse ++ passed) rest st').1,
        (linePieces line earlier 0 (text.reverse ++ passed) rest st').2)

variable {rest : List Char} {xs ys : List IndexPart} {ts us : List Token}

theorem ReadsParts.append {st'' : State}
    (h : ReadsParts line earlier passed (ys.flatMap IndexPart.spelling ++ rest) st xs ts st')
    (h' : ReadsParts line earlier ((xs.flatMap IndexPart.spelling).reverse ++ passed) rest st' ys us
      st'') : ReadsParts line earlier passed rest st (xs ++ ys) (ts ++ us) st'' := by
  refine ⟨List.rel_append h.1 h'.1, ?_⟩
  simp only [List.flatMap_append, List.append_assoc, h.2, h'.2, List.map_append,
    List.reverse_append]

theorem readsParts_singleton {x : IndexPart} {kind : Kind} {c : Char} {t : List Char}
    (hspelling : x.spelling = c :: t) (hc : c ≠ '\n') (hkind : x.HasKind kind)
    (hread : read (passed :: earlier) c (t ++ rest) st = (.accepted kind (t.length + 1), st')) :
    ∃ ts, ReadsParts line earlier passed rest st [x] ts st' := by
  have htoken : x.IsToken
      ⟨kind, String.ofList (c :: t), .ofWidth ⟨line, passed.length⟩ (t.length + 1)⟩ :=
    ⟨by rw [hspelling], hkind⟩
  refine ⟨_, .cons htoken .nil, ?_⟩
  simp only [List.flatMap_singleton, hspelling]
  exact linePieces_accepted line (fun h => hc h.1) hread

theorem readsParts_name (x : PlainName) {b : Char} (hb : b = '[' ∨ b = ']') :
    ∃ ts st', ReadsParts line earlier passed (b :: rest) st [.name x] ts st' ∧
      st'.openBrackets = st.openBrackets := by
  have hends : isWordChar b = false ∧ Text.isGap b = false ∧ b ∈ Follower.afterClose := by
    rcases hb with rfl | rfl <;> decide
  obtain ⟨c, t, ht, hnewline, hread⟩ :=
    read_plainName x.isPlainName (passed :: earlier) hends.1 hends.2.1 hends.2.2 rest st
  have hkind := (nameKind_eq (Prod.eta
    (nameKind st.names (afterClassKeyword (passed :: earlier)) x.word)).symm).1
  rw [← String.length_toList, ht, List.length_cons] at hread
  obtain ⟨ts, hts⟩ := readsParts_singleton (x := .name x) ht hnewline hkind hread
  exact ⟨ts, _, hts, rfl⟩

theorem readsParts_numeral (n : Numeral) :
    ∃ ts, ReadsParts line earlier passed (']' :: rest) st [.numeral n] ts st := by
  obtain ⟨c, t, ht, hnewline, hread⟩ := read_numeral (passed :: earlier) n rest st
  rw [ht, List.length_cons] at hread
  exact readsParts_singleton (x := .numeral n) ht hnewline rfl hread

theorem readsParts_opening {c : Char} (hc : c ≠ '[') (cs : List Char) :
    ∃ ts, ReadsParts line earlier passed (c :: cs) st [.opening] ts
      { st with openBrackets := st.openBrackets + 1 } :=
  readsParts_singleton (x := .opening) (t := []) rfl (by decide) rfl (read_openBracket _ hc cs)

theorem readsParts_closing (hst : 0 < st.openBrackets)
    (hrest : ∀ c ∈ rest.head?, c ∈ Follower.afterClose) :
    ∃ ts, ReadsParts line earlier passed rest st [.closing] ts
      { st with openBrackets := st.openBrackets - 1 } :=
  readsParts_singleton (x := .closing) (t := []) rfl (by decide) rfl (read_closeBracket _ hst hrest)

/-- Brackets around lexemes open one index and close it. -/
theorem readsParts_brackets {c : Char} {cs : List Char}
    (hspelling : xs.flatMap IndexPart.spelling = c :: cs) (hc : c ≠ '[')
    (hrest : ∀ c ∈ rest.head?, c ∈ Follower.afterClose)
    (h : ∀ passed st, ∃ ts st', ReadsParts line earlier passed (']' :: rest) st xs ts st' ∧
      st'.openBrackets = st.openBrackets) (passed : List Char) (st : State) :
    ∃ ts st', ReadsParts line earlier passed rest st (.opening :: (xs ++ [.closing])) ts st' ∧
      st'.openBrackets = st.openBrackets := by
  -- What is inside leaves the count as it finds it, so its closing bracket meets an open one.
  obtain ⟨us, st', hinner, hopen⟩ :=
    h ('[' :: passed) { st with openBrackets := st.openBrackets + 1 }
  have hpos : 0 < st'.openBrackets := by
    rw [hopen]
    exact Nat.succ_pos _
  obtain ⟨ts, hopening⟩ := @readsParts_opening line earlier passed st c hc (cs ++ ']' :: rest)
  obtain ⟨vs, hclosing⟩ := @readsParts_closing line earlier
    ((xs.flatMap IndexPart.spelling).reverse ++ '[' :: passed) st' rest hpos hrest
  rw [← List.cons_append, ← hspelling] at hopening
  have hbehind : ReadsParts line earlier ('[' :: passed) rest
      { st with openBrackets := st.openBrackets + 1 } (xs ++ [.closing]) (us ++ vs)
      { st' with openBrackets := st'.openBrackets - 1 } := hinner.append hclosing
  have hfirst : ReadsParts line earlier passed
      ((xs ++ [IndexPart.closing]).flatMap IndexPart.spelling ++ rest) st [.opening] ts
      { st with openBrackets := st.openBrackets + 1 } := by
    simpa [List.flatMap_append, IndexPart.spelling] using hopening
  exact ⟨ts ++ (us ++ vs), _, hfirst.append hbehind, by simp [hopen]⟩

/-! ### Names with indices -/

theorem closers_afterClose : '[' ∈ Follower.afterClose ∧ ']' ∈ Follower.afterClose := by decide

mutual

/-- Behind an index its bracket is closed. -/
theorem readsParts_index : ∀ (i : Index) (passed rest : List Char) (st : State),
    ∃ ts st', ReadsParts line earlier passed (']' :: rest) st i.parts ts st' ∧
      st'.openBrackets = st.openBrackets
  | .numeral n, _, _, st => by
    obtain ⟨ts, hts⟩ := readsParts_numeral n
    exact ⟨ts, st, hts, rfl⟩
  | .name x, _, _, _ => readsParts_name x (.inr rfl)
  | .indexed e, passed, rest, st => by
    refine readsParts_indexExpr e passed (']' :: rest) st ?_
    rintro _ ⟨⟩
    exact closers_afterClose.2

theorem readsParts_indexExpr : ∀ (e : IndexExpr) (passed rest : List Char) (st : State),
    (∀ c ∈ rest.head?, c ∈ Follower.afterClose) →
    ∃ ts st', ReadsParts line earlier passed rest st e.parts ts st' ∧
      st'.openBrackets = st.openBrackets
  | .first base i, passed, rest, st, hrest => by
    obtain ⟨c, cs, hspelling, hc⟩ := i.exists_cons
    have hname : ∃ ts st', ReadsParts line earlier passed
        ((IndexPart.opening :: (i.parts ++ [.closing])).flatMap IndexPart.spelling ++ rest) st
        [.name base] ts st' ∧ st'.openBrackets = st.openBrackets :=
      readsParts_name base (.inl rfl)
    obtain ⟨ts, st', hts, hopen⟩ := hname
    obtain ⟨us, st'', hus, hclosed⟩ := readsParts_brackets hspelling hc hrest
      (fun passed st => readsParts_index i passed rest st) _ st'
    exact ⟨ts ++ us, st'', ReadsParts.append hts hus, hclosed.trans hopen⟩
  | .next e i, passed, rest, st, hrest => by
    obtain ⟨c, cs, hspelling, hc⟩ := i.exists_cons
    obtain ⟨ts, st', hts, hopen⟩ := readsParts_indexExpr e passed
      ((IndexPart.opening :: (i.parts ++ [.closing])).flatMap IndexPart.spelling ++ rest) st
      (by rintro _ ⟨⟩; exact closers_afterClose.1)
    obtain ⟨us, st'', hus, hclosed⟩ := readsParts_brackets hspelling hc hrest
      (fun passed st => readsParts_index i passed rest st) _ st'
    exact ⟨ts ++ us, st'', ReadsParts.append hts hus, hclosed.trans hopen⟩

end

/-- Behind a name with indices the end of a block is one lexeme. -/
theorem linePieces_blockEnd (hst : st.openBrackets = 0) {cs : List Char}
    (h : EndsIndexed (']' :: ']' :: cs)) :
    ∃ ps, (linePieces line earlier 0 passed (']' :: ']' :: cs) st).1 =
      .token ⟨.symbol .doubleCloseBracket, "]]", .ofWidth ⟨line, passed.length⟩ 2⟩ :: ps := by
  cases h with
  | blank hc => cases hc
  | block hc cs =>
    have hpieces := linePieces_accepted line (c := ']') (t := [']']) (by simp)
      (read_doubleCloseBracket (passed :: earlier) hst hc cs)
    exact ⟨_, congrArg Prod.fst hpieces⟩

/-- Where no bracket is open, a name with indices is read into its lexemes, an opening and a closing
bracket for every index. No bracket is open behind it, so the end of a block is read as such. -/
theorem indexExpr_bracketed (e : IndexExpr) (hst : st.openBrackets = 0) (line : Nat)
    (earlier : List (List Char)) (passed : List Char) {rest : List Char}
    (hrest : EndsIndexed rest) :
    ∃ ts st',
      linePieces line earlier 0 passed (e.spelling ++ rest) st =
        (ts.map .token ++ (linePieces line earlier 0 (e.spelling.reverse ++ passed) rest st').1,
          (linePieces line earlier 0 (e.spelling.reverse ++ passed) rest st').2) ∧
      List.Forall₂ IndexPart.IsToken e.parts ts ∧
      ts.countP (·.kind = .symbol .openBracket) = e.indices ∧
      ts.countP (·.kind = .symbol .closeBracket) = e.indices ∧
      ts.countP (·.kind = .symbol .doubleOpenBracket) = 0 ∧
      ts.countP (·.kind = .symbol .doubleCloseBracket) = 0 ∧
      st'.openBrackets = 0 ∧
      ∀ cs, rest = ']' :: ']' :: cs →
        ∃ ps, (linePieces line earlier 0 (e.spelling.reverse ++ passed) rest st').1 =
          .token ⟨.symbol .doubleCloseBracket, "]]",
            .ofWidth ⟨line, (e.spelling.reverse ++ passed).length⟩ 2⟩ :: ps := by
  obtain ⟨ts, st', ⟨hparts, hread⟩, hopen⟩ :=
    @readsParts_indexExpr line earlier e passed rest st hrest.head?_mem
  have hcount (s : Symbol) := (IndexPart.countP_tokens hparts s).trans (e.countP_parts s)
  rw [hst] at hopen
  refine ⟨ts, st', hread, hparts, hcount _, hcount _, hcount _, hcount _, hopen, ?_⟩
  rintro cs rfl
  exact linePieces_blockEnd hopen hrest

/-- Indices inside an index and behind one another, before the end of a block: `a[b[0]][c]]]`. -/
def nestedIndices : IndexExpr :=
  .next (.first ⟨"a", by decide⟩ (.indexed (.first ⟨"b", by decide⟩
    (.numeral ⟨['0'], List.cons_ne_nil _ _, by simp⟩)))) (.name ⟨"c", by decide⟩)

theorem nestedIndices_bracketed :
    nestedIndices.spelling = ['a', '[', 'b', '[', '0', ']', ']', '[', 'c', ']'] ∧
      (State.initial .empty).openBrackets = 0 ∧ EndsIndexed [']', ']', '\n'] ∧
      ∃ (ts : List Token) (st' : State) (ps : List Piece),
        linePieces 0 [] 0 [] (nestedIndices.spelling ++ [']', ']', '\n']) (.initial .empty) =
          (ts.map .token ++
            .token ⟨.symbol .doubleCloseBracket, "]]", .ofWidth ⟨0, 10⟩ 2⟩ :: ps, st') ∧
        ts.countP (·.kind = .symbol .openBracket) = 3 ∧
        ts.countP (·.kind = .symbol .closeBracket) = 3 := by
  have hend : EndsIndexed [']', ']', '\n'] := .block rfl []
  obtain ⟨ts, st', hread, -, hopening, hclosing, -, -, -, hblock⟩ :=
    @indexExpr_bracketed (.initial .empty) nestedIndices rfl 0 [] [] _ hend
  obtain ⟨ps, hps⟩ := hblock _ rfl
  rw [hps] at hread
  exact ⟨by decide, rfl, hend, ts, _, ps, hread, hopening, hclosing⟩

end Lexeme

end Uwu
