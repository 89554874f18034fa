import Mathlib.Order.Basic
import Uwu.Proofs.Lexeme.Shape
import Uwu.Proofs.Lexeme.Tiling

/-! The numbers of names. Tables only grow at their end, so a name keeps the number that it was
given when it was first read, and the tokens of a document agree with the tables behind it. -/

namespace Uwu

/-! ### Tables that grow -/

namespace NameTable

/-- A table stands below those that it grows into. -/
instance : Preorder NameTable where
  le t u := t.toList <+: u.toList
  le_refl _ := List.prefix_rfl
  le_trans _ _ _ := List.IsPrefix.trans

variable {t u : NameTable} {name : String} {id : Nat}

theorem id?_of_le (h : t ≤ u) (hid : t.id? name = some id) : u.id? name = some id := by
  obtain ⟨ns, hns⟩ := h
  rw [id?_eq, List.idxOf?] at hid ⊢
  rw [← hns, List.findIdx?_append, hid, Option.some_or]

theorem name?_of_id? (h : t.id? name = some id) : t.name? id = some name := by
  rw [id?_eq, List.idxOf?, List.findIdx?_eq_some_iff_getElem] at h
  obtain ⟨hlt, hname, -⟩ := h
  exact (List.getElem?_eq_getElem hlt).trans (congrArg some (eq_of_beq hname))

theorem le_intern (t : NameTable) (name : String) : t ≤ (t.intern name).1 := by
  cases h : t.id? name with
  | some id => rw [intern_of_id? h]
  | none => exact ⟨[name], (intern_of_none h).1.symm⟩

theorem id?_intern (t : NameTable) (name : String) :
    (t.intern name).1.id? name = some (t.intern name).2 := by
  cases h : t.id? name with
  | some id => rw [intern_of_id? h, h]
  | none =>
    obtain ⟨hlist, hid⟩ := intern_of_none h
    rw [id?_eq, List.idxOf?] at h ⊢
    rw [hlist, hid, List.findIdx?_append, h]
    simp [size, toList]

end NameTable

namespace Names

instance : Preorder Names where
  le m n := m.identifiers ≤ n.identifiers ∧ m.classes ≤ n.classes
  le_refl _ := ⟨le_rfl, le_rfl⟩
  le_trans _ _ _ h h' := ⟨h.1.trans h'.1, h.2.trans h'.2⟩

theorem le_withIdentifier (n : Names) (name : String) : n ≤ (n.withIdentifier name).1 :=
  ⟨n.identifiers.le_intern name, le_rfl⟩

theorem le_withClass (n : Names) (name : String) : n ≤ (n.withClass name).1 :=
  ⟨le_rfl, n.classes.le_intern name⟩

end Names

/-! ### Kinds and lexemes -/

/-- The lexeme is one of the kind: a name of this number, which is no keyword, or what the kind is
spelled. The two words of a keyword may stand apart. -/
def Kind.Fits (names : Names) (lexeme : String) : Kind → Prop
  | .identifier id => names.identifiers.id? lexeme = some id ∧ Keyword.ofWord? lexeme = none
  | .classId id => names.classes.id? lexeme = some id ∧ Keyword.ofWord? lexeme = none
  | .keyword k => k ∈ Keyword.singles → lexeme = k.spelling
  | .symbol s => lexeme = s.spelling
  | _ => True

theorem Kind.Fits.mono {m n : Names} {lexeme : String} {k : Kind} (h : k.Fits m lexeme)
    (hle : m ≤ n) : k.Fits n lexeme := by
  cases k with
  | identifier id => exact ⟨NameTable.id?_of_le hle.1 h.1, h.2⟩
  | classId id => exact ⟨NameTable.id?_of_le hle.2 h.1, h.2⟩
  | _ => exact h

namespace Lexeme

variable {st st' : State} {kind : Kind} {w : Nat} {c : Char} {cs : List Char}
  {before : List (List Char)}

theorem le_nameKind (names : Names) (declared : Bool) (word : String) :
    names ≤ (nameKind names declared word).1 := by
  rw [nameKind]
  split
  next => exact names.le_withClass word
  next =>
    split
    next => exact le_rfl
    next => exact names.le_withIdentifier word

theorem fits_nameKind {word : String} (h : Keyword.ofWord? word = none) (names : Names)
    (declared : Bool) :
    (nameKind names declared word).2.Fits (nameKind names declared word).1 word := by
  rw [nameKind]
  split
  next => exact ⟨names.classes.id?_intern word, h⟩
  next =>
    split
    next id hid => exact ⟨hid, h⟩
    next => exact ⟨names.identifiers.id?_intern word, h⟩

theorem not_mem_singles_of_doubleKeyword? {text : List Char} {k : Keyword} {v : Nat}
    (h : doubleKeyword? text = some (k, v)) : k ∉ Keyword.singles := by
  have hall : ∀ k ∈ Keyword.doubles, k ∉ Keyword.singles := by decide
  obtain ⟨k', hk, h⟩ := List.exists_of_findSome?_eq_some h
  split at h
  · cases h
  · split at h
    · cases h
    · cases h
      exact hall k hk

/-! ### Readings -/

theorem names_readString (text : List Char) (st : State) :
    (readString text st).2.names = st.names := by
  rw [readString]
  split <;> rfl

theorem names_readStringPart (text : List Char) (st : State) :
    (readStringPart text st).2.names = st.names := by
  rw [readStringPart]
  split <;> rfl

theorem names_readSymbol (text : List Char) (st : State) :
    (readSymbol text st).2.names = st.names := by
  rw [readSymbol]
  split
  · rfl
  · split <;> rfl

theorem le_readWord (before : List (List Char)) (text : List Char) (st : State) :
    st.names ≤ (readWord before text st).2.names := by
  simp only [readWord]
  split
  · exact le_rfl
  · split
    · exact le_rfl
    · rw [readName]
      split
      · exact le_rfl
      · exact le_nameKind _ _ _

/-- A reading forgets no name. -/
theorem le_read (before : List (List Char)) (c : Char) (cs : List Char) (st : State) :
    st.names ≤ (read before c cs st).2.names := by
  simp only [read]
  split
  · exact le_rfl
  · split
    · exact le_rfl
    · split
      · exact (names_readString _ _).ge
      · split
        · exact (names_readStringPart _ _).ge
        · split
          · exact le_rfl
          · split
            · exact le_readWord _ _ _
            · exact (names_readSymbol _ _).ge

theorem fits_readString (h : readString (c :: cs) st = (.accepted kind w, st')) (names : Names)
    (lexeme : String) : kind.Fits names lexeme := by
  rw [readString] at h
  split at h
  next =>
    obtain ⟨rfl, -⟩ := checkFollower_eq_accepted (Prod.mk.inj h).1
    trivial
  next =>
    obtain ⟨rfl, -⟩ := checkFollower_eq_accepted (Prod.mk.inj h).1
    trivial
  next => cases (Prod.mk.inj h).1

theorem fits_readStringPart (h : readStringPart (c :: cs) st = (.accepted kind w, st'))
    (names : Names) (lexeme : String) : kind.Fits names lexeme := by
  rw [readStringPart] at h
  split at h
  next =>
    obtain ⟨rfl, -⟩ := checkFollower_eq_accepted (Prod.mk.inj h).1
    trivial
  next =>
    obtain ⟨rfl, -⟩ := checkFollower_eq_accepted (Prod.mk.inj h).1
    trivial
  next => cases (Prod.mk.inj h).1

theorem fits_readSymbol (h : readSymbol (c :: cs) st = (.accepted kind w, st')) (names : Names) :
    kind.Fits names (String.ofList ((c :: cs).take w)) := by
  rw [readSymbol] at h
  split at h
  next =>
    obtain ⟨rfl, -⟩ := checkFollower_eq_accepted (Prod.mk.inj h).1
    trivial
  next =>
    split at h
    next s hs =>
      obtain ⟨rfl, rfl, -⟩ := checkFollower_eq_accepted (Prod.mk.inj h).1
      rw [symbolAt?_eq_some hs, String.ofList_toList]
      rfl
    next => cases (Prod.mk.inj h).1

theorem fits_readWord (h : readWord before (c :: cs) st = (.accepted kind w, st')) :
    kind.Fits st'.names (String.ofList ((c :: cs).take w)) := by
  simp only [readWord] at h
  split at h
  next k v hk =>
    obtain ⟨rfl, -⟩ := checkFollower_eq_accepted (Prod.mk.inj h).1
    exact fun hmem => absurd hmem (not_mem_singles_of_doubleKeyword? hk)
  next =>
    split at h
    next k hk =>
      obtain ⟨rfl, rfl, -⟩ := checkFollower_eq_accepted (Prod.mk.inj h).1
      rw [take_length_takeWhile]
      exact fun _ => (spelling_of_ofWord? hk).symm
    next hword =>
      rw [readName] at h
      split at h
      next => cases (Prod.mk.inj h).1
      next =>
        obtain ⟨hr, rfl⟩ := Prod.mk.inj h
        obtain ⟨rfl, rfl, -⟩ := checkFollower_eq_accepted hr
        rw [take_length_takeWhile]
        exact fits_nameKind hword _ _

/-- An accepted lexeme is one of its kind. -/
theorem fits_read (h : read before c cs st = (.accepted kind w, st')) :
    kind.Fits st'.names (String.ofList ((c :: cs).take w)) := by
  simp only [read] at h
  split at h
  · obtain ⟨rfl, -⟩ := checkFollower_eq_accepted (Prod.mk.inj h).1
    trivial
  · split at h
    · obtain ⟨rfl, -⟩ := checkFollower_eq_accepted (Prod.mk.inj h).1
      trivial
    · split at h
      · exact fits_readString h _ _
      · split at h
        · exact fits_readStringPart h _ _
        · split at h
          · have hr : checkFollower (numeral (c :: cs)).1 (numeral (c :: cs)).2 (c :: cs) =
                .accepted kind w := (Prod.mk.inj h).1
            rw [(checkFollower_eq_accepted hr).1]
            rcases numeral_kind (c :: cs) with hk | hk <;> rw [hk] <;> trivial
          · split at h
            · exact fits_readWord h
            · exact fits_readSymbol h _

/-! ### Documents -/

/-- The tokens among pieces are lexemes of their kinds. -/
def AllFit (names : Names) (ps : List Piece) : Prop :=
  ∀ t ∈ ps.filterMap Piece.token?, t.kind.Fits names t.lexeme

theorem AllFit.mono {m n : Names} {ps : List Piece} (h : AllFit m ps) (hle : m ≤ n) : AllFit n ps :=
  fun t ht => (h t ht).mono hle

theorem allFit_linePieces (line : Nat) (earlier : List (List Char)) (text : List Char) (skip : Nat)
    (passed : List Char) (st : State) :
    st.names ≤ (linePieces line earlier skip passed text st).2.names ∧
      AllFit (linePieces line earlier skip passed text st).2.names
        (linePieces line earlier skip passed text st).1 := by
  induction text generalizing skip passed st with
  | nil => cases skip <;> exact ⟨le_rfl, nofun⟩
  | cons c cs ih =>
    cases skip with
    | succ skip => exact ih skip (c :: passed) st
    | zero =>
      obtain ⟨⟨r, st'⟩, hr⟩ : ∃ q, read (passed :: earlier) c cs st = q := ⟨_, rfl⟩
      have hle := le_read (passed :: earlier) c cs st
      rw [hr] at hle
      obtain ⟨hle', hfit⟩ := ih (r.width - 1) (c :: passed) st'
      simp only [linePieces, hr]
      refine ⟨le_trans hle hle', ?_⟩
      have hhere : AllFit (linePieces line earlier (r.width - 1) (c :: passed) cs st').2.names
          (r.piece ⟨line, passed.length⟩ (c :: cs) ::
            (linePieces line earlier (r.width - 1) (c :: passed) cs st').1) := by
        cases r with
        | rejected cause w => exact hfit
        | accepted kind w => exact List.forall_mem_cons.2 ⟨(fits_read hr).mono hle', hfit⟩
      split <;> exact hhere

theorem allFit_pieces (n : Nat) (earlier : List (List Char)) (ls : Document) (st : State) :
    st.names ≤ (pieces n earlier ls st).2.names ∧
      AllFit (pieces n earlier ls st).2.names (pieces n earlier ls st).1 := by
  induction ls generalizing n earlier st with
  | nil => exact ⟨le_rfl, nofun⟩
  | cons l ls ih =>
    obtain ⟨hle, hfit⟩ := allFit_linePieces n earlier l 0 [] st
    obtain ⟨hle', hfit'⟩ := ih (n + 1) (l.reverse :: earlier) (linePieces n earlier 0 [] l st).2
    refine ⟨le_trans hle hle', fun t ht => ?_⟩
    simp only [pieces, List.filterMap_append, List.mem_append] at ht
    exact ht.elim (hfit.mono hle' t) (hfit' t)

end Lexeme

theorem Token.fits_reclassify {names : Names} {t : Token} (h : t.kind.Fits names t.lexeme) :
    (t.reclassify names).kind.Fits names (t.reclassify names).lexeme := by
  rw [reclassify]
  split
  next id hk =>
    rw [hk] at h
    split
    next id hid => exact ⟨hid, h.2⟩
    next => rwa [hk]
  next => exact h

namespace Lexed

/-- A reading keeps the numbers of the names known before it. -/
theorem names_le_ofLines (lines : List String) (names : Names) :
    names ≤ (ofLines lines names).names :=
  (Lexeme.allFit_pieces 0 [] (Document.ofStrings lines) (.initial names)).1

/-- Every token is a lexeme of its kind, a name with the number that its table gives it in the end.
This is so for documents with mistakes too. -/
theorem fits_ofLines (lines : List String) (names : Names) {t : Token}
    (ht : t ∈ (ofLines lines names).tokens) :
    t.kind.Fits (ofLines lines names).names t.lexeme := by
  rw [tokens_ofLines, List.mem_append, List.mem_singleton] at ht
  rcases ht with ht | rfl
  · obtain ⟨u, hu, rfl⟩ := List.mem_map.1 ht
    exact Token.fits_reclassify
      ((Lexeme.allFit_pieces 0 [] (Document.ofStrings lines) (.initial names)).2 u hu)
  · trivial

/-- No class is left among the identifiers. -/
theorem not_isClass_ofLines (lines : List String) (names : Names) {t : Token}
    (ht : t ∈ (ofLines lines names).tokens) {id : Nat} (hid : t.kind = .identifier id) :
    (ofLines lines names).names.isClass t.lexeme = false := by
  rw [tokens_ofLines, List.mem_append, List.mem_singleton] at ht
  rcases ht with ht | rfl
  · obtain ⟨u, hu, rfl⟩ := List.mem_map.1 ht
    rw [Token.reclassify] at hid ⊢
    split at hid
    next _ hk =>
      split at hid
      next => cases hid
      next hnone =>
        have hnone : (ofLines lines names).names.classes.id? u.lexeme = none := hnone
        simp [Names.isClass, hnone]
    next hk => exact absurd hid (hk id)
  · cases hid

end Lexed

end Uwu
