import Uwu.Proofs.Lexeme.Width

/-! The shape of lexemes: which characters an accepted lexeme begins and ends with, where it meets
the text behind it, and which names its reading makes known. -/

namespace Uwu

namespace Kind

/-- The kinds of blanks. -/
def isBlank : Kind → Bool
  | whitespace | newline => true
  | _ => false

theorem isTrivia_of_isBlank {k : Kind} (h : k.isBlank) : k.isTrivia := by
  cases k <;> first | rfl | cases h

theorem isBlank_of_isName {k : Kind} (h : k.isName) : k.isBlank = false := by
  cases k <;> first | rfl | cases h

end Kind

namespace Lexeme

theorem isBlank_iff {c : Char} : Text.isBlank c ↔ c = ' ' ∨ c = '\t' ∨ c = '\r' ∨ c = '\n' := by
  simp [Text.isBlank, Text.isInlineBlank, Text.isGap, or_assoc]

/-- Text that ends in such a character does not end in the class keyword. -/
def isClosing (c : Char) : Bool :=
  c != 's' && !Text.isBlank c

theorem isClosing_iff {c : Char} : isClosing c ↔ c ≠ 's' ∧ Text.isBlank c = false := by
  rw [isClosing, Bool.and_eq_true, bne_iff_ne, Bool.not_eq_true']

/-- An accepted lexeme of the first `w` characters of `text`; `declared` tells whether a name there
is one of a class. -/
structure Shape (declared : Bool) (text : List Char) (st : State) (kind : Kind) (w : Nat)
    (st' : State) : Prop where
  blank : kind.isBlank → ∀ x ∈ text.take w, Text.isBlank x
  solid : kind.isBlank = false → ∀ x ∈ text.head?, Text.isBlank x = false
  /-- No word goes on behind a lexeme that ends in a word. -/
  seam : ∀ x ∈ (text.take w).getLast?, isWordChar x → ∀ y ∈ text[w]?, isWordChar y = false
  /-- What is no comment and no name ends in the class keyword only if it is the class keyword. -/
  last : kind.isTrivia = false → kind.isName = false → kind ≠ .keyword .cwass →
    ∀ x ∈ (text.take w).getLast?, isClosing x
  keyword : kind = .keyword .cwass → text.take w = Keyword.cwass.spelling.toList
  classes : st'.names.classes =
    if kind.isName && declared then (st.names.classes.intern (String.ofList (text.take w))).1
    else st.names.classes
  isClass : ∀ id, kind = .classId id → st'.names.isClass (String.ofList (text.take w))

/-! ### The character behind -/

theorem checkFollower_eq_accepted {kind kind' : Kind} {w w' : Nat} {text : List Char}
    (h : checkFollower kind w text = .accepted kind' w') :
    kind' = kind ∧ w' = w ∧
      ∀ y ∈ text[w]?, ∀ allowed ∈ kind.followers?, y ∈ allowed := by
  rw [checkFollower] at h
  split at h
  next c allowed hc ha =>
    split at h
    next hmem =>
      cases h
      refine ⟨rfl, rfl, fun y hy as has => ?_⟩
      cases hc.symm.trans hy
      cases ha.symm.trans has
      simpa using hmem
    next => cases h
  next hno =>
    cases h
    exact ⟨rfl, rfl, fun y hy as has => (hno y as hy has).elim⟩

/-- Behind words, numbers and strings no word can follow. -/
theorem isWordChar_followers {kind : Kind} {allowed : List Char}
    (h : kind.followers? = some allowed) (hs : ∀ s, kind ≠ .symbol s) :
    ∀ y ∈ allowed, isWordChar y = false := by
  have hall : allowed.all fun y => !isWordChar y := by
    cases kind with
    | symbol s => exact (hs s rfl).elim
    | keyword k =>
      cases h
      cases k <;> decide
    | _ => first | cases h; decide | cases h
  exact fun y hy => Bool.not_eq_true' _ ▸ List.all_eq_true.1 hall y hy

theorem seam_of_followers {kind : Kind} {w : Nat} {text : List Char} (hs : ∀ s, kind ≠ .symbol s)
    (hsome : kind.followers?.isSome)
    (h : ∀ y ∈ text[w]?, ∀ allowed ∈ kind.followers?, y ∈ allowed) :
    ∀ y ∈ text[w]?, isWordChar y = false := by
  obtain ⟨allowed, ha⟩ := Option.isSome_iff_exists.1 hsome
  exact fun y hy => isWordChar_followers ha hs y (h y hy allowed ha)

/-- Where characters of a kind end, another kind of character follows. -/
theorem eq_false_of_getElem?_takeWhile {p : Char → Bool} (text : List Char) :
    ∀ y ∈ text[(text.takeWhile p).length]?, p y = false := by
  induction text with
  | nil => rintro y ⟨⟩
  | cons c cs ih =>
    cases hc : p c with
    | true => simpa [hc] using ih
    | false => simp [hc]

theorem take_length_takeWhile (p : Char → Bool) (text : List Char) :
    text.take (text.takeWhile p).length = text.takeWhile p :=
  (List.prefix_iff_eq_take.1 (List.takeWhile_prefix p)).symm

theorem drop_length_takeWhile (p : Char → Bool) (text : List Char) :
    text.drop (text.takeWhile p).length = text.dropWhile p := by
  have happend := @List.drop_left _ (text.takeWhile p) (text.dropWhile p)
  rwa [List.takeWhile_append_dropWhile] at happend

/-! ### The last character -/

variable {declared : Bool} {st st' : State} {kind : Kind} {w : Nat} {c : Char} {cs : List Char}

/-- Lexemes that are no blanks and no names, and do not end in a word like the class keyword. -/
theorem shape_of_isClosing (hc : Text.isBlank c = false)
    (hkind : kind.isBlank = false ∧ kind.isName = false ∧ kind ≠ .keyword .cwass)
    (hseam : ∀ x ∈ ((c :: cs).take w).getLast?, isWordChar x →
      ∀ y ∈ (c :: cs)[w]?, isWordChar y = false)
    (hlast : kind.isTrivia = false → ∀ x ∈ ((c :: cs).take w).getLast?, isClosing x)
    (hnames : st'.names = st.names) : Shape declared (c :: cs) st kind w st' where
  blank h := by
    rw [hkind.1] at h
    cases h
  solid _ := by
    rintro x ⟨⟩
    exact hc
  seam := hseam
  last ht _ _ x hx := hlast ht x hx
  keyword h := absurd h hkind.2.2
  classes := by rw [hkind.2.1, hnames]; rfl
  isClass id h := by
    rw [h] at hkind
    cases hkind.2.1

/-! ### Numbers -/

theorem numeral_kind (text : List Char) :
    (numeral text).1 = .intLiteral ∨ (numeral text).1 = .floatLiteral := by
  simp only [numeral]
  split
  · split
    · exact .inl rfl
    · exact .inr rfl
  · exact .inl rfl

/-- A number is made of digits and a point. -/
theorem numeral_chars (text : List Char) :
    ∀ x ∈ text.take (numeral text).2, x.isDigit ∨ x = '.' := by
  have digits (cs : List Char) :
      ∀ x ∈ cs.take (cs.takeWhile Char.isDigit).length, x.isDigit ∨ x = '.' := by
    rw [take_length_takeWhile]
    exact fun x hx => .inl (List.all_eq_true.1 List.all_takeWhile x hx)
  simp only [numeral]
  split
  next rest hrest =>
    split
    next => exact digits text
    next =>
      rw [Nat.add_assoc, List.take_add, hrest, Nat.add_comm 1, List.take_succ_cons]
      exact List.forall_mem_append.2 ⟨digits text, List.forall_mem_cons.2 ⟨.inr rfl, digits rest⟩⟩
  next => exact digits text

theorem isClosing_of_digit {x : Char} (h : x.isDigit ∨ x = '.') : isClosing x := by
  rcases h with h | rfl
  · refine isClosing_iff.2 ⟨?_, ?_⟩
    · rintro rfl
      cases h
    · cases hb : Text.isBlank x with
      | false => rfl
      | true => rcases isBlank_iff.1 hb with rfl | rfl | rfl | rfl <;> cases h
  · rfl

theorem shape_readNumber (hc : Text.isBlank c = false)
    (h : readNumber (c :: cs) = .accepted kind w) :
    Shape declared (c :: cs) st kind w st := by
  have hn : checkFollower (numeral (c :: cs)).1 (numeral (c :: cs)).2 (c :: cs) =
      .accepted kind w := h
  obtain ⟨rfl, rfl, hf⟩ := checkFollower_eq_accepted hn
  have hk := numeral_kind (c :: cs)
  refine shape_of_isClosing hc ?_ (fun _ _ _ => ?_) (fun _ x hx => ?_) rfl
  · rcases hk with hk | hk <;> simp [hk, Kind.isBlank, Kind.isName]
  · refine seam_of_followers (fun s hs => ?_) ?_ hf
    · rcases hk with hk | hk <;> cases hk.symm.trans hs
    · rcases hk with hk | hk <;> rw [hk] <;> rfl
  · exact isClosing_of_digit (numeral_chars _ x (List.mem_of_getLast? hx))

/-! ### Strings -/

theorem segmentEnd?_eq_some {run n : Nat} {text : List Char} {e : Char}
    (h : segmentEnd? run text = some (n, e)) : text[n]? = some e ∧ isSegmentEnd e := by
  induction text generalizing run n with
  | nil => cases h
  | cons x xs ih =>
    rw [segmentEnd?] at h
    split at h
    next he =>
      cases h
      exact ⟨rfl, (Bool.and_eq_true _ _ ▸ he).1⟩
    next =>
      obtain ⟨⟨m, e'⟩, hm, he⟩ := Option.map_eq_some_iff.1 h
      cases he
      exact ih hm

/-- A segment of a string ends in its delimiter. -/
theorem getLast?_segment {n : Nat} {e : Char} (h : segmentEnd? 0 cs = some (n, e)) :
    ((c :: cs).take (n + 2)).getLast? = some e := by
  have hat : (c :: cs)[n + 2 - 1]? = some e := (segmentEnd?_eq_some h).1
  rw [List.getLast?_take, if_neg (by omega), hat]
  rfl

theorem shape_segment {n : Nat} {e : Char} (hc : Text.isBlank c = false)
    (hkind : kind.isBlank = false ∧ kind.isName = false ∧ kind ≠ .keyword .cwass)
    (hend : segmentEnd? 0 cs = some (n, e)) (hnames : st'.names = st.names) :
    Shape declared (c :: cs) st kind (n + 2) st' := by
  obtain ⟨-, hs⟩ := segmentEnd?_eq_some hend
  have hlast : ∀ x ∈ ((c :: cs).take (n + 2)).getLast?, x = e := by
    rw [getLast?_segment hend]
    exact fun x hx => (Option.some.inj hx).symm
  have hcases : e = '"' ∨ e = '|' := by simpa [isSegmentEnd] using hs
  refine shape_of_isClosing hc hkind (fun x hx hw => ?_) (fun _ x hx => ?_) hnames
  · rw [hlast x hx] at hw
    rcases hcases with rfl | rfl <;> cases hw
  · rw [hlast x hx]
    rcases hcases with rfl | rfl <;> rfl

theorem shape_readString (hc : Text.isBlank c = false)
    (h : readString (c :: cs) st = (.accepted kind w, st')) :
    Shape declared (c :: cs) st kind w st' := by
  simp only [readString, List.tail_cons] at h
  split at h
  next hend =>
    obtain ⟨hr, rfl⟩ := Prod.mk.inj h
    obtain ⟨rfl, rfl, -⟩ := checkFollower_eq_accepted hr
    exact shape_segment hc (by decide) hend rfl
  next hend =>
    obtain ⟨hr, rfl⟩ := Prod.mk.inj h
    obtain ⟨rfl, rfl, -⟩ := checkFollower_eq_accepted hr
    exact shape_segment hc (by decide) hend rfl
  next => cases (Prod.mk.inj h).1

theorem shape_readStringPart (hc : Text.isBlank c = false)
    (h : readStringPart (c :: cs) st = (.accepted kind w, st')) :
    Shape declared (c :: cs) st kind w st' := by
  simp only [readStringPart, List.tail_cons] at h
  split at h
  next hend =>
    obtain ⟨hr, rfl⟩ := Prod.mk.inj h
    obtain ⟨rfl, rfl, -⟩ := checkFollower_eq_accepted hr
    exact shape_segment hc (by decide) hend rfl
  next hend =>
    obtain ⟨hr, rfl⟩ := Prod.mk.inj h
    obtain ⟨rfl, rfl, -⟩ := checkFollower_eq_accepted hr
    exact shape_segment hc (by decide) hend rfl
  next => cases (Prod.mk.inj h).1

/-! ### Comments and symbols -/

theorem getLast?_spelling (s : Symbol) :
    ∀ x ∈ s.spelling.toList.getLast?, isClosing x ∧ isWordChar x = false := by
  have hall : s.spelling.toList.getLast?.all fun x => isClosing x && !isWordChar x := by
    cases s <;> decide
  intro x hx
  have hx := (Option.all_eq_true _ _).1 hall x hx
  rwa [Bool.and_eq_true, Bool.not_eq_true'] at hx

theorem symbolAt?_eq_some {n : Nat} {text : List Char} {s : Symbol}
    (h : symbolAt? n text = some s) : text.take s.spelling.length = s.spelling.toList := by
  have hs := List.find?_some h
  rw [Bool.and_eq_true] at hs
  rw [← String.length_toList]
  exact (List.prefix_iff_eq_take.1 (List.isPrefixOf_iff_prefix.1 hs.1)).symm

theorem shape_readSymbol (hc : Text.isBlank c = false)
    (h : readSymbol (c :: cs) st = (.accepted kind w, st')) :
    Shape declared (c :: cs) st kind w st' := by
  rw [readSymbol] at h
  split at h
  next =>
    obtain ⟨hr, rfl⟩ := Prod.mk.inj h
    obtain ⟨rfl, rfl, -⟩ := checkFollower_eq_accepted hr
    refine shape_of_isClosing hc (by decide) (fun _ _ _ y hy => ?_) (by rintro ⟨⟩) rfl
    -- A comment reaches up to the newline.
    have hnewline := eq_false_of_getElem?_takeWhile _ y hy
    rw [bne_eq_false_iff_eq] at hnewline
    rw [hnewline]
    rfl
  next =>
    split at h
    next s hs =>
      obtain ⟨hr, rfl⟩ := Prod.mk.inj h
      obtain ⟨rfl, rfl, -⟩ := checkFollower_eq_accepted hr
      have htake := symbolAt?_eq_some hs
      refine shape_of_isClosing hc ⟨rfl, rfl, by simp⟩ (fun x hx hw => ?_) (fun _ x hx => ?_) rfl
      · rw [htake] at hx
        rw [(getLast?_spelling s x hx).2] at hw
        cases hw
      · rw [htake] at hx
        exact (getLast?_spelling s x hx).1
    next => cases (Prod.mk.inj h).1

/-! ### Words -/

/-- A spelling that ends in no blank and the text that it stands for end alike. -/
theorem getLast?_take_gapWidth {spelling text : List Char} {v : Nat} {x : Char}
    (h : gapWidth? spelling text = some v) (hx : spelling.getLast? = some x) (hb : x ≠ ' ') :
    (text.take v).getLast? = some x := by
  induction spelling generalizing text v with
  | nil => cases hx
  | cons s ss ih =>
    rw [List.getLast?_cons] at hx
    by_cases hs : s = ' '
    · simp only [gapWidth?, hs, if_true] at h
      split at h
      · cases h
      obtain ⟨u, hu, rfl⟩ := Option.map_eq_some_iff.1 h
      have hss : ss.getLast? = some x := by
        cases hl : ss.getLast? with
        | none =>
          rw [hl, hs] at hx
          exact absurd (Option.some.inj hx).symm hb
        | some y => rwa [hl] at hx
      rw [List.take_add, drop_length_takeWhile, List.getLast?_append, ih hu hss, Option.some_or]
    · cases text with
      | nil => simp [gapWidth?, hs] at h
      | cons y ys =>
        simp only [gapWidth?, hs, if_false] at h
        split at h
        next hsy =>
          obtain ⟨u, hu, rfl⟩ := Option.map_eq_some_iff.1 h
          rw [Nat.add_comm, List.take_succ_cons, List.getLast?_cons]
          cases hl : ss.getLast? with
          | none =>
            rw [List.getLast?_eq_none_iff] at hl
            subst hl
            cases hu
            rw [List.take_zero, ← hsy]
            exact hx
          | some z =>
            rw [hl] at hx
            cases hx
            rw [ih hu hl]
            rfl
        next => cases h

theorem getLast?_keyword {k : Keyword} (h : k ≠ .cwass) :
    ∀ x ∈ k.spelling.toList.getLast?, isClosing x := by
  have hall : k.spelling.toList.getLast?.all isClosing := by
    cases k <;> first | decide | exact absurd rfl h
  exact (Option.all_eq_true _ _).1 hall

theorem gapWidth?_of_doubleKeyword? {text : List Char} {k : Keyword} {v : Nat}
    (h : doubleKeyword? text = some (k, v)) :
    k ∈ Keyword.doubles ∧ gapWidth? k.spelling.toList text = some v := by
  obtain ⟨k', hk, hwidth⟩ := List.exists_of_findSome?_eq_some h
  split at hwidth
  next => cases hwidth
  next v' hv =>
    split at hwidth
    next => cases hwidth
    next =>
      cases hwidth
      exact ⟨hk, hv⟩

/-- A keyword of two words is not the class keyword. -/
theorem doubleKeyword?_eq_some {text : List Char} {k : Keyword} {v : Nat}
    (h : doubleKeyword? text = some (k, v)) :
    k ≠ .cwass ∧ (text.take v).getLast? = k.spelling.toList.getLast? := by
  obtain ⟨hk, hu⟩ := gapWidth?_of_doubleKeyword? h
  simp only [Keyword.doubles, List.mem_cons, List.not_mem_nil, or_false] at hk
  rcases hk with rfl | rfl
  · exact ⟨by decide, getLast?_take_gapWidth hu rfl (by decide)⟩
  · exact ⟨by decide, getLast?_take_gapWidth hu rfl (by decide)⟩

theorem spelling_of_ofWord? {word : String} {k : Keyword} (h : Keyword.ofWord? word = some k) :
    k.spelling = word := by
  have hfind : Keyword.singles.find? (fun k => k.spelling == word) = some k := h
  have hk := List.find?_some hfind
  exact eq_of_beq hk

end Lexeme

/-! ### Names -/

namespace NameTable

variable {t : NameTable} {name w : String} {id : Nat}

/-- The number of a name is its place in the list. -/
theorem id?_eq (t : NameTable) (name : String) : t.id? name = t.toList.idxOf? name :=
  t.inStep.get?_eq name

/-- A name that is known is not added again. -/
theorem intern_of_id? (h : t.id? name = some id) : t.intern name = (t, id) := by
  simp only [intern, Interner.intern_of_some h]

theorem intern_of_none (h : t.id? name = none) :
    (t.intern name).1.toList = t.toList ++ [name] ∧ (t.intern name).2 = t.size := by
  have hnew := Interner.intern_of_none h
  exact ⟨congrArg (fun r => r.1.names) hnew, congrArg Prod.snd hnew⟩

theorem mem_of_id?_isSome : (t.id? name).isSome ↔ name ∈ t.toList := by
  rw [id?_eq, List.isSome_idxOf?]

theorem mem_intern : w ∈ (t.intern name).1.toList ↔ w ∈ t.toList ∨ w = name := by
  cases h : t.id? name with
  | some id =>
    have hmem := mem_of_id?_isSome.1 (Option.isSome_of_eq_some h)
    rw [intern_of_id? h]
    exact ⟨.inl, fun hw => hw.elim (fun hw => hw) fun he => he ▸ hmem⟩
  | none => rw [(intern_of_none h).1, List.mem_append, List.mem_singleton]

end NameTable

theorem Names.isClass_iff {n : Names} {w : String} : n.isClass w ↔ w ∈ n.classes.toList :=
  NameTable.mem_of_id?_isSome

namespace Lexeme

theorem nameKind_eq {names names' : Names} {declared : Bool} {word : String} {kind : Kind}
    (h : nameKind names declared word = (names', kind)) :
    kind.isName ∧
      names'.classes = (if declared then (names.classes.intern word).1 else names.classes) ∧
      ∀ id, kind = .classId id → names'.isClass word := by
  rw [nameKind] at h
  split at h
  next hd =>
    cases h
    exact ⟨rfl, (if_pos hd).symm, fun _ _ =>
      Names.isClass_iff.2 (NameTable.mem_intern.2 (.inr rfl))⟩
  next hd =>
    split at h
    next id hid =>
      cases h
      exact ⟨rfl, (if_neg hd).symm, fun _ _ => Option.isSome_of_eq_some hid⟩
    next =>
      cases h
      refine ⟨rfl, (if_neg hd).symm, ?_⟩
      rintro id ⟨⟩

variable {st st' : State} {kind : Kind} {w : Nat} {c : Char} {cs : List Char}
  {before : List (List Char)}

theorem shape_readName (hc : Text.isBlank c = false)
    (h : readName before ((c :: cs).takeWhile isWordChar) (c :: cs) st = (.accepted kind w, st')) :
    Shape (afterClassKeyword before) (c :: cs) st kind w st' := by
  rw [readName] at h
  split at h
  next => cases (Prod.mk.inj h).1
  next =>
    obtain ⟨⟨names', k⟩, hn⟩ : ∃ q, nameKind st.names (afterClassKeyword before)
      (String.ofList ((c :: cs).takeWhile isWordChar)) = q := ⟨_, rfl⟩
    obtain ⟨hname, hclasses, hclass⟩ := nameKind_eq hn
    rw [hn] at h
    obtain ⟨hr, rfl⟩ := Prod.mk.inj h
    obtain ⟨rfl, rfl, -⟩ := checkFollower_eq_accepted hr
    constructor
    case blank =>
      intro hb
      cases (Kind.isBlank_of_isName hname).symm.trans hb
    case solid =>
      rintro - x ⟨⟩
      exact hc
    case seam => exact fun _ _ _ => eq_false_of_getElem?_takeWhile _
    case last =>
      intro _ hn
      cases hname.symm.trans hn
    case keyword =>
      intro hk
      rw [hk] at hname
      cases hname
    case classes =>
      rw [hname, Bool.true_and, take_length_takeWhile]
      exact hclasses
    case isClass =>
      rw [take_length_takeWhile]
      exact hclass

theorem shape_readWord (hc : Text.isBlank c = false)
    (h : readWord before (c :: cs) st = (.accepted kind w, st')) :
    Shape (afterClassKeyword before) (c :: cs) st kind w st' := by
  simp only [readWord] at h
  split at h
  next k v hk =>
    obtain ⟨hr, rfl⟩ := Prod.mk.inj h
    obtain ⟨rfl, rfl, hf⟩ := checkFollower_eq_accepted hr
    obtain ⟨hne, hl⟩ := doubleKeyword?_eq_some hk
    have hseam := @seam_of_followers (.keyword k) _ _ (by simp) rfl hf
    refine shape_of_isClosing hc ⟨rfl, rfl, by simpa using hne⟩ (fun _ _ _ => hseam)
      (fun _ x hx => getLast?_keyword hne x ?_) rfl
    rwa [hl] at hx
  next =>
    split at h
    next k hk =>
      obtain ⟨hr, rfl⟩ := Prod.mk.inj h
      obtain ⟨rfl, rfl, hf⟩ := checkFollower_eq_accepted hr
      have hs : (c :: cs).take ((c :: cs).takeWhile isWordChar).length = k.spelling.toList := by
        rw [take_length_takeWhile, spelling_of_ofWord? hk, String.toList_ofList]
      constructor
      case blank => rintro ⟨⟩
      case solid =>
        rintro - x ⟨⟩
        exact hc
      case seam => exact fun _ _ _ => eq_false_of_getElem?_takeWhile _
      case last =>
        intro _ _ hne x hx
        rw [hs] at hx
        exact getLast?_keyword (by simpa using hne) x hx
      case keyword =>
        rintro ⟨⟩
        exact hs
      case classes => rfl
      case isClass => rintro id ⟨⟩
    next => exact shape_readName hc h

/-! ### All lexemes -/

theorem isBlank_of_isInlineBlank {x : Char} (h : Text.isInlineBlank x) : Text.isBlank x := by
  rw [Text.isBlank, h, Bool.true_or]

/-- Blanks are blank, and make no names known. -/
theorem shape_blank {declared : Bool} (hk : kind.isBlank)
    (hb : ∀ x ∈ (c :: cs).take w, Text.isBlank x) (hnames : st'.names = st.names) :
    Shape declared (c :: cs) st kind w st' := by
  have hname : kind.isName = false := by
    cases hn : kind.isName with
    | false => rfl
    | true => cases (Kind.isBlank_of_isName hn).symm.trans hk
  constructor
  case blank => exact fun _ => hb
  case solid =>
    intro h
    cases hk.symm.trans h
  case seam =>
    intro x hx hw
    rcases isBlank_iff.1 (hb x (List.mem_of_getLast? hx)) with rfl | rfl | rfl | rfl <;> cases hw
  case last =>
    intro ht
    cases (Kind.isTrivia_of_isBlank hk).symm.trans ht
  case keyword =>
    rintro rfl
    cases hk
  case classes => rw [hname, hnames]; rfl
  case isClass =>
    rintro id rfl
    cases hk

theorem shape_read (h : read before c cs st = (.accepted kind w, st')) :
    Shape (afterClassKeyword before) (c :: cs) st kind w st' := by
  simp only [read] at h
  split at h
  next hc =>
    obtain ⟨hr, rfl⟩ := Prod.mk.inj h
    obtain ⟨rfl, rfl, -⟩ := checkFollower_eq_accepted hr
    refine shape_blank rfl (fun x hx => ?_) rfl
    rw [List.take_succ_cons, List.take_zero, List.mem_singleton] at hx
    rw [hx, hc]
    rfl
  next hnewline =>
    split at h
    next hblank =>
      obtain ⟨hr, rfl⟩ := Prod.mk.inj h
      obtain ⟨rfl, rfl, -⟩ := checkFollower_eq_accepted hr
      refine shape_blank rfl (fun x hx => isBlank_of_isInlineBlank ?_) rfl
      rw [take_length_takeWhile] at hx
      exact List.all_eq_true.1 List.all_takeWhile x hx
    next hblank =>
      have hc : Text.isBlank c = false := by
        simpa [Text.isBlank, hnewline] using hblank
      split at h
      · exact shape_readString hc h
      · split at h
        · exact shape_readStringPart hc h
        · split at h
          · obtain ⟨hr, rfl⟩ := Prod.mk.inj h
            exact shape_readNumber hc hr
          · split at h
            · exact shape_readWord hc h
            · exact shape_readSymbol hc h

end Lexeme

end Uwu
