import Uwu.Proofs.Spacing.Gaps

/-! The readings of texts with other gaps. A lexeme that is accepted in front of a text is accepted
in front of it with other gaps too, and keywords of two words are, whatever gap is between these. -/

namespace Uwu.Lexeme

open Text (isGap isInlineBlank)

variable {cs ds word word' rest rest' : List Char} {kind : Kind} {w : Nat} {st st' : State}
  {before before' : List (List Char)}

/-! ### The character behind -/

/-- A space may follow a lexeme exactly if a tab may. -/
theorem gap_mem_followers {allowed : List Char} (h : kind.followers? = some allowed) :
    ' ' ∈ allowed ↔ '\t' ∈ allowed := by
  cases kind with
  | keyword k =>
    cases h
    cases k <;> decide
  | symbol s => cases s <;> first | cases h; decide | cases h
  | _ => first | cases h; decide | cases h

/-- What may stand behind a lexeme may be another gap. -/
theorem checkFollower_respaced {kind' : Kind} (hrest : Respaced rest rest')
    (h : checkFollower kind w (word ++ rest) = .accepted kind' word.length) :
    checkFollower kind word'.length (word' ++ rest') = .accepted kind word'.length := by
  obtain ⟨rfl, rfl, hf⟩ := checkFollower_eq_accepted h
  have hnext (x y : List Char) : (x ++ y)[x.length]? = y.head? := by
    rw [← List.head?_drop, List.drop_left]
  rw [hnext] at hf
  cases hd : rest'.head? with
  | none => rw [checkFollower, hnext, hd]
  | some d =>
    apply checkFollower_of_mem ((hnext word' rest').trans hd)
    intro allowed hallowed
    obtain ⟨c, hc, hcd⟩ := hrest.head? d hd
    have hmem := hf c hc allowed hallowed
    have hiff := gap_mem_followers hallowed
    rcases hcd with rfl | ⟨hgap, hgap'⟩
    · exact hmem
    · rcases isGap_iff.1 hgap with rfl | rfl <;> rcases isGap_iff.1 hgap' with rfl | rfl
      · exact hmem
      · exact hiff.1 hmem
      · exact hiff.2 hmem
      · exact hmem

theorem checkFollower_behind {kind' : Kind} (hrest : Respaced rest rest')
    (h : checkFollower kind w (word ++ rest) = .accepted kind' word.length) :
    checkFollower kind w (word ++ rest') = .accepted kind' word.length := by
  obtain ⟨rfl, rfl, -⟩ := checkFollower_eq_accepted h
  exact checkFollower_respaced hrest h

/-! ### Numbers, strings, symbols and comments -/

/-- What is no gap reaches as far in either text. -/
theorem isDigit_of_isGap : ∀ c, isGap c → c.isDigit = false := by
  intro c hc
  rcases isGap_iff.1 hc with rfl | rfl <;> rfl

theorem numeral_respaced (h : Respaced cs ds) : numeral ds = numeral cs := by
  obtain ⟨hwhole, hbehind⟩ := h.takeWhile isDigit_of_isGap
  simp only [numeral, drop_length_takeWhile]
  rw [hwhole]
  generalize cs.dropWhile Char.isDigit = cs' at hbehind ⊢
  generalize ds.dropWhile Char.isDigit = ds' at hbehind ⊢
  cases hbehind with
  | nil => rfl
  | gap hc hd _ =>
    rcases isGap_iff.1 hc with rfl | rfl <;> rcases isGap_iff.1 hd with rfl | rfl <;> rfl
  | @char c cs ds hc hfraction =>
    by_cases hpoint : c = '.'
    · subst hpoint
      simp only [(hfraction.takeWhile isDigit_of_isGap).1]
    · simp [hpoint]

theorem readNumber_respaced (hrest : Respaced rest rest')
    (h : readNumber (word ++ rest) = .accepted kind word.length) :
    readNumber (word ++ rest') = .accepted kind word.length := by
  have hnumeral := numeral_respaced (hrest.append_left word)
  have hcheck : checkFollower (numeral (word ++ rest)).1 (numeral (word ++ rest)).2 (word ++ rest) =
      .accepted kind word.length := h
  change checkFollower (numeral (word ++ rest')).1 (numeral (word ++ rest')).2 _ = _
  rw [hnumeral]
  exact checkFollower_behind hrest hcheck

/-- The end of a segment does not depend on what is behind it. -/
theorem segmentEnd?_append {run n : Nat} {e : Char} (hn : n < word.length)
    (h : segmentEnd? run (word ++ rest) = some (n, e)) :
    segmentEnd? run (word ++ rest') = some (n, e) := by
  induction word generalizing run n with
  | nil => cases hn
  | cons c word ih =>
    rw [List.cons_append, segmentEnd?] at h ⊢
    split at h
    next hend => rw [if_pos hend, h]
    next hend =>
      obtain ⟨⟨m, e'⟩, hm, he⟩ := Option.map_eq_some_iff.1 h
      cases he
      rw [if_neg hend, ih (Nat.lt_of_succ_lt_succ hn) hm]
      rfl

/-- A segment and the delimiters at its ends. -/
theorem segment_respaced {c e : Char} {n : Nat} {kind' : Kind} (hrest : Respaced rest rest')
    (hend : segmentEnd? 0 (word ++ rest) = some (n, e))
    (h : checkFollower kind (n + 2) (c :: (word ++ rest)) = .accepted kind' (word.length + 1)) :
    segmentEnd? 0 (word ++ rest') = some (n, e) ∧
      checkFollower kind (n + 2) (c :: (word ++ rest')) = .accepted kind' (word.length + 1) := by
  obtain ⟨-, hw, -⟩ := checkFollower_eq_accepted h
  have hn : n < word.length := by omega
  exact ⟨segmentEnd?_append hn hend, @checkFollower_behind (c :: word) _ _ _ _ _ hrest h⟩

/-- A segment from its delimiter on. It is read as one of two kinds, as a quote or a bar ends it. -/
def readSegment (quoted barred : Kind × State) (text : List Char) (st : State) : Reading × State :=
  match segmentEnd? 0 text.tail with
  | some (n, '"') => (checkFollower quoted.1 (n + 2) text, quoted.2)
  | some (n, _) => (checkFollower barred.1 (n + 2) text, barred.2)
  | none => readUnterminated text st

theorem readString_eq (text : List Char) (st : State) :
    readString text st =
      readSegment (.stringLiteral, st) (.stringPartStart, { st with interpolating := true })
        text st := rfl

theorem readStringPart_eq (text : List Char) (st : State) :
    readStringPart text st =
      readSegment (.stringPartEnd, { st with interpolating := false }) (.stringPartMid, st)
        text st := rfl

theorem readSegment_respaced {quoted barred : Kind × State} {c : Char}
    (hrest : Respaced rest rest')
    (h : readSegment quoted barred (c :: (word ++ rest)) st =
      (.accepted kind (word.length + 1), st')) :
    readSegment quoted barred (c :: (word ++ rest')) st =
      (.accepted kind (word.length + 1), st') := by
  simp only [readSegment, List.tail_cons] at h ⊢
  split at h
  next n hend =>
    obtain ⟨hr, rfl⟩ := Prod.mk.inj h
    obtain ⟨hend', hr'⟩ := segment_respaced hrest hend hr
    rw [hend']
    exact congrArg (·, _) hr'
  next n e hquote hend =>
    obtain ⟨hr, rfl⟩ := Prod.mk.inj h
    obtain ⟨hend', hr'⟩ := segment_respaced hrest hend hr
    simp [hend', hr']
  next => cases (Prod.mk.inj h).1

theorem kind_readSegment {quoted barred : Kind × State}
    (h : readSegment quoted barred cs st = (.accepted kind w, st')) :
    kind = quoted.1 ∨ kind = barred.1 := by
  rw [readSegment] at h
  split at h
  next => exact .inl (checkFollower_eq_accepted (Prod.mk.inj h).1).1
  next => exact .inr (checkFollower_eq_accepted (Prod.mk.inj h).1).1
  next => cases (Prod.mk.inj h).1

/-- A word that a test passes and what is behind it does not. -/
theorem length_takeWhile_append {p : Char → Bool} :
    ((word ++ rest).takeWhile p).length = word.length ↔
      (∀ c ∈ word, p c) ∧ ∀ c ∈ rest.head?, p c = false := by
  induction word with
  | nil => cases rest <;> simp [List.takeWhile_cons]
  | cons c word ih =>
    cases hc : p c with
    | true => simpa [hc] using ih
    | false => simp [hc]

/-- A test that passes both blanks of a gap, or neither, ends at the same place. -/
theorem takeWhile_respaced {p : Char → Bool} (hp : p ' ' = p '\t') (hrest : Respaced rest rest')
    (h : ((word ++ rest).takeWhile p).length = word.length) :
    ((word ++ rest').takeWhile p).length = word.length := by
  obtain ⟨hword, hbehind⟩ := length_takeWhile_append.1 h
  exact length_takeWhile_append.2 ⟨hword, hrest.head?_eq_false hp hbehind⟩

theorem not_isGap_spelling (s : Symbol) : ∀ c ∈ s.spelling.toList, isGap c = false := by
  have hall : s.spelling.toList.all fun c => !isGap c := by
    cases s <;> decide
  intro c hc
  simpa using List.all_eq_true.1 hall c hc

theorem symbolAt?_respaced (n : Nat) (h : Respaced cs ds) : symbolAt? n ds = symbolAt? n cs := by
  have hsign : (fun s : Symbol => s.spelling.toList.isPrefixOf ds) =
      fun s => s.spelling.toList.isPrefixOf cs :=
    funext fun s => h.isPrefixOf (not_isGap_spelling s)
  have hs (s : Symbol) : s.spelling.toList.isPrefixOf ds = s.spelling.toList.isPrefixOf cs :=
    congrFun hsign s
  simp only [symbolAt?, hs]

theorem readSymbol_respaced (hrest : Respaced rest rest')
    (h : readSymbol (word ++ rest) st = (.accepted kind word.length, st')) :
    readSymbol (word ++ rest') st = (.accepted kind word.length, st') := by
  have hr : Respaced (word ++ rest) (word ++ rest') := hrest.append_left word
  rw [readSymbol] at h ⊢
  have hcomment : ∀ c ∈ commentSign, isGap c = false := by simp [commentSign, isGap]
  rw [hr.isPrefixOf hcomment, symbolAt?_respaced _ hr]
  split at h
  next hsign =>
    obtain ⟨hcheck, rfl⟩ := Prod.mk.inj h
    obtain ⟨rfl, hw, -⟩ := checkFollower_eq_accepted hcheck
    have hw' : restWidth (word ++ rest') = word.length := takeWhile_respaced rfl hrest hw.symm
    rw [← hw] at hcheck
    rw [if_pos hsign, hw', checkFollower_behind hrest hcheck]
  next hsign =>
    rw [if_neg hsign]
    split at h
    next s hs =>
      obtain ⟨hcheck, rfl⟩ := Prod.mk.inj h
      exact congrArg (·, _) (checkFollower_behind hrest hcheck)
    next => cases (Prod.mk.inj h).1

theorem not_keyword_readSymbol {k : Keyword}
    (h : readSymbol cs st = (.accepted (.keyword k) w, st')) : False := by
  rw [readSymbol] at h
  split at h
  next => cases (checkFollower_eq_accepted (Prod.mk.inj h).1).1
  next =>
    split at h
    next => cases (checkFollower_eq_accepted (Prod.mk.inj h).1).1
    next => cases (Prod.mk.inj h).1

/-! ### Keywords of two words -/

theorem rel_map {r r' : Nat → Nat → Prop} {x y : Option Nat} {f g : Nat → Nat}
    (h : Option.Rel r x y) (hf : ∀ v v', r v v' → r' (f v) (g v')) :
    Option.Rel r' (x.map f) (y.map g) := by
  cases h with
  | none => exact .none
  | some hv => exact .some (hf _ _ hv)

/-- A spelling in which a space stands for any gap is there in both texts or in neither, and what is
behind it differs in the gaps only. -/
theorem gapWidth?_respaced {spelling : List Char} (hs : '\t' ∉ spelling) (h : Respaced cs ds) :
    Option.Rel (fun v v' => Respaced (cs.drop v) (ds.drop v')) (gapWidth? spelling cs)
      (gapWidth? spelling ds) := by
  induction spelling generalizing cs ds with
  | nil => exact .some h
  | cons s ss ih =>
    rw [List.mem_cons, not_or] at hs
    by_cases hspace : s = ' '
    · subst hspace
      simp only [gapWidth?, if_true]
      cases h with
      | nil => exact .none
      | char hc behind =>
        simp only [List.takeWhile_cons, hc]
        exact .none
      | @gap c d cs ds hc hd behind =>
        rw [List.takeWhile_cons_of_pos hc, List.takeWhile_cons_of_pos hd,
          List.dropWhile_cons_of_pos hc, List.dropWhile_cons_of_pos hd]
        simp only [List.isEmpty_cons, if_false, Bool.false_eq_true]
        have drop (c : Char) (cs : List Char) (v : Nat) :
            (c :: cs).drop ((c :: cs.takeWhile isGap).length + v) =
              (cs.dropWhile isGap).drop v := by
          rw [← List.drop_drop, List.length_cons, List.drop_succ_cons, drop_length_takeWhile]
        apply rel_map (ih hs.2 behind)
        intro v v' hv
        rwa [drop, drop]
    · have hgap {c : Char} (hc : isGap c) : s ≠ c := by
        rintro rfl
        rcases isGap_iff.1 hc with h | h
        · exact hspace h
        · exact hs.1 h.symm
      cases h with
      | nil => simp [gapWidth?, hspace]
      | @char c cs ds hc behind =>
        simp only [gapWidth?, hspace, if_false]
        by_cases hsc : s = c
        · simp only [if_pos hsc]
          apply rel_map (ih hs.2 behind)
          intro v v' hv
          rwa [Nat.add_comm 1, Nat.add_comm 1]
        · simp only [if_neg hsc]
          exact .none
      | gap hc hd behind =>
        simp only [gapWidth?, hspace, if_false, if_neg (hgap hc), if_neg (hgap hd)]
        exact .none

theorem isWordChar_of_isGap : ∀ c, isGap c → isWordChar c = false := by
  intro c hc
  rcases isGap_iff.1 hc with rfl | rfl <;> rfl

/-- A keyword of two words is at the beginning of both texts or of neither. -/
theorem doubleKeyword?_respaced (h : Respaced cs ds) :
    Option.Rel (fun x y => y.1 = x.1 ∧ Respaced (cs.drop x.2) (ds.drop y.2)) (doubleKeyword? cs)
      (doubleKeyword? ds) := by
  have hall : ∀ k ∈ Keyword.doubles, '\t' ∉ k.spelling.toList := by decide
  rw [doubleKeyword?, doubleKeyword?]
  generalize Keyword.doubles = ks at hall
  induction ks with
  | nil => exact .none
  | cons k ks ih =>
    rw [List.forall_mem_cons] at hall
    have hwidth := gapWidth?_respaced hall.1 h
    rw [List.findSome?_cons, List.findSome?_cons]
    cases hc : gapWidth? k.spelling.toList cs <;> cases hd : gapWidth? k.spelling.toList ds <;>
      rw [hc, hd] at hwidth
    case none.none => exact ih hall.2
    case some.some v v' =>
      cases hwidth with | some hdrop =>
      have hnext : ds[v']?.any isWordChar = cs[v]?.any isWordChar := by
        rw [← List.head?_drop, ← List.head?_drop]
        exact hdrop.any_head? isWordChar_of_isGap
      dsimp only
      rw [hnext]
      by_cases hword : cs[v]?.any isWordChar
      · simp only [if_pos hword]
        exact ih hall.2
      · simp only [if_neg hword]
        exact .some ⟨rfl, hdrop⟩
    all_goals cases hwidth

/-- A spelling without a space stands for itself alone. -/
theorem gapWidth?_eq_some_iff {spelling : List Char} (hs : ' ' ∉ spelling) {v : Nat} :
    gapWidth? spelling cs = some v ↔ v = spelling.length ∧ cs.take v = spelling := by
  induction spelling generalizing cs v with
  | nil =>
    rw [gapWidth?, Option.some.injEq, eq_comm]
    refine ⟨fun h => ⟨h, by rw [h]; rfl⟩, fun h => h.1⟩
  | cons s ss ih =>
    rw [List.mem_cons, not_or] at hs
    cases cs with
    | nil => simp [gapWidth?, Ne.symm hs.1]
    | cons c cs =>
      simp only [gapWidth?, if_neg (Ne.symm hs.1)]
      by_cases hsc : s = c
      · subst hsc
        rw [if_pos rfl, Option.map_eq_some_iff]
        constructor
        · rintro ⟨u, hu, rfl⟩
          obtain ⟨rfl, htake⟩ := (ih hs.2).1 hu
          rw [Nat.add_comm, List.take_succ_cons, htake]
          exact ⟨rfl, rfl⟩
        · rintro ⟨rfl, htake⟩
          rw [List.length_cons, List.take_succ_cons, List.cons.injEq] at htake
          exact ⟨ss.length, (ih hs.2).2 ⟨rfl, htake.2⟩, Nat.add_comm _ _⟩
      · rw [if_neg hsc]
        constructor
        · rintro ⟨⟩
        · rintro ⟨rfl, htake⟩
          rw [List.length_cons, List.take_succ_cons, List.cons.injEq] at htake
          exact absurd htake.1.symm hsc

/-- A spelling of two words stands for them with any gap between them. -/
theorem gapWidth?_words {first second g more : List Char} (hfirst : ' ' ∉ first)
    (hsecond : ∀ c ∈ second, isGap c = false) (hne : second ≠ []) (hg : IsGap g) :
    gapWidth? (first ++ ' ' :: second) (first ++ (g ++ second) ++ more) =
      some (first ++ (g ++ second)).length := by
  induction first with
  | nil =>
    obtain ⟨c, second, rfl⟩ := List.exists_cons_of_ne_nil hne
    have hspace : ' ' ∉ c :: second := by
      intro hmem
      cases hsecond _ hmem
    have hc : isGap c = false := hsecond c List.mem_cons_self
    have htake : (g ++ (c :: second ++ more)).takeWhile isGap = g := by
      rw [hg.takeWhile_append, List.cons_append, List.takeWhile_cons_of_neg (by simp [hc]),
        List.append_nil]
    have hdrop : (g ++ (c :: second ++ more)).dropWhile isGap = c :: second ++ more := by
      rw [List.dropWhile_append_of_pos hg.2, List.cons_append,
        List.dropWhile_cons_of_neg (by simp [hc])]
    have hwidth : gapWidth? (c :: second) (c :: second ++ more) = some (c :: second).length :=
      (gapWidth?_eq_some_iff hspace).2 ⟨rfl, List.take_left⟩
    change gapWidth? (' ' :: c :: second) (g ++ (c :: second) ++ more) = some (g ++ _).length
    rw [List.append_assoc, gapWidth?.eq_def]
    simp only [if_true, htake, hdrop, hwidth]
    simp [hg.1]
  | cons s first ih =>
    rw [List.mem_cons, not_or] at hfirst
    simp only [List.cons_append, gapWidth?, if_neg (Ne.symm hfirst.1), if_true]
    rw [ih hfirst.2]
    simp [Nat.add_comm]

theorem exists_gap_of_gapWidth? {first second : List Char} {v : Nat} (hfirst : ' ' ∉ first)
    (hsecond : ' ' ∉ second) (h : gapWidth? (first ++ ' ' :: second) cs = some v) :
    ∃ g, IsGap g ∧ cs.take v = first ++ (g ++ second) := by
  induction first generalizing cs v with
  | nil =>
    simp only [List.nil_append, gapWidth?, if_true] at h
    split at h
    next => cases h
    next hempty =>
      obtain ⟨u, hu, rfl⟩ := Option.map_eq_some_iff.1 h
      refine ⟨cs.takeWhile isGap, ⟨by simpa using hempty, ?_⟩, ?_⟩
      · exact List.all_eq_true.1 List.all_takeWhile
      · rw [List.take_add, take_length_takeWhile, drop_length_takeWhile,
          ((gapWidth?_eq_some_iff hsecond).1 hu).2]
        rfl
  | cons s first ih =>
    rw [List.mem_cons, not_or] at hfirst
    cases cs with
    | nil => simp [gapWidth?, Ne.symm hfirst.1] at h
    | cons c cs =>
      simp only [List.cons_append, gapWidth?, if_neg (Ne.symm hfirst.1)] at h
      split at h
      next hsc =>
        obtain ⟨u, hu, rfl⟩ := Option.map_eq_some_iff.1 h
        obtain ⟨g, hg, htake⟩ := ih hfirst.2 hu
        refine ⟨g, hg, ?_⟩
        rw [Nat.add_comm, List.take_succ_cons, htake, hsc]
        rfl
      next => cases h

/-- A keyword with a space in it is one of two words, with no blank in either. -/
theorem halves_of_spelling {k : Keyword} {first second : List Char}
    (h : k.spelling.toList = first ++ ' ' :: second) :
    k ∈ Keyword.doubles ∧ ' ' ∉ first ∧ (∀ c ∈ second, isGap c = false) ∧ second ≠ [] := by
  have hspace : ' ' ∈ k.spelling.toList := by simp [h]
  have hfacts : k ∈ Keyword.doubles ∧ k.spelling.toList.count ' ' = 1 ∧
      '\t' ∉ k.spelling.toList ∧ k.spelling.toList.getLast? ≠ some ' ' := by
    revert hspace
    cases k <;> decide
  obtain ⟨hk, hcount, htab, hlast⟩ := hfacts
  rw [h, List.count_append, List.count_cons_self] at hcount
  have hfirst : ' ' ∉ first := List.count_eq_zero.1 (by omega)
  have hsecond : ' ' ∉ second := List.count_eq_zero.1 (by omega)
  refine ⟨hk, hfirst, fun c hc => ?_, ?_⟩
  · rw [← Bool.not_eq_true, isGap_iff]
    rintro (rfl | rfl)
    · exact hsecond hc
    · exact htab (by simp [h, hc])
  · rintro rfl
    simp [h] at hlast

theorem exists_halves {k : Keyword} (h : k ∈ Keyword.doubles) :
    ∃ first second, k.spelling.toList = first ++ ' ' :: second := by
  simp only [Keyword.doubles, List.mem_cons, List.not_mem_nil, or_false] at h
  rcases h with rfl | rfl
  · exact ⟨['e', 'w', 's', 'e'], ['i', 'w', 'f'], by decide⟩
  · exact ⟨['d', 'o'], ['w', 'h', 'i', 'w', 'e'], by decide⟩

/-- Such a keyword is written as its words with a gap between them. -/
theorem exists_gap_of_doubleKeyword? {k : Keyword} {first second : List Char}
    (hs : k.spelling.toList = first ++ ' ' :: second)
    (h : doubleKeyword? (word ++ rest) = some (k, word.length)) :
    ∃ g, IsGap g ∧ word = first ++ (g ++ second) := by
  obtain ⟨-, hfirst, hsecond, -⟩ := halves_of_spelling hs
  have hspace : ' ' ∉ second := by
    intro hmem
    cases hsecond _ hmem
  obtain ⟨-, hwidth⟩ := gapWidth?_of_doubleKeyword? h
  rw [hs] at hwidth
  obtain ⟨g, hg, htake⟩ := exists_gap_of_gapWidth? hfirst hspace hwidth
  rw [List.take_left] at htake
  exact ⟨g, hg, htake⟩

theorem respaced_words {k : Keyword} {first second g : List Char}
    (hs : k.spelling.toList = first ++ ' ' :: second) (hg : IsGap g) (hrest : Respaced rest rest')
    (h : doubleKeyword? (word ++ rest) = some (k, word.length)) :
    Respaced (word ++ rest) (first ++ (g ++ second) ++ rest') := by
  obtain ⟨g₀, hg₀, rfl⟩ := exists_gap_of_doubleKeyword? hs h
  simp only [List.append_assoc]
  exact ((hrest.append_left second).append_gap hg₀ hg).append_left first

/-- It may be written with another gap between them. -/
theorem doubleKeyword?_words {k : Keyword} {first second g : List Char}
    (hs : k.spelling.toList = first ++ ' ' :: second) (hg : IsGap g) (hrest : Respaced rest rest')
    (h : doubleKeyword? (word ++ rest) = some (k, word.length)) :
    doubleKeyword? (first ++ (g ++ second) ++ rest') =
      some (k, (first ++ (g ++ second)).length) := by
  obtain ⟨-, hfirst, hsecond, hne⟩ := halves_of_spelling hs
  have hdouble := doubleKeyword?_respaced (respaced_words hs hg hrest h)
  rw [h] at hdouble
  cases hk : doubleKeyword? (first ++ (g ++ second) ++ rest') with
  | none =>
    rw [hk] at hdouble
    cases hdouble
  | some x =>
    obtain ⟨k', v⟩ := x
    rw [hk] at hdouble
    obtain ⟨rfl, -⟩ : k' = k ∧ _ := by cases hdouble with | some hx => exact hx
    have hv := (gapWidth?_of_doubleKeyword? hk).2
    rw [hs, gapWidth?_words hfirst hsecond hne hg] at hv
    rw [Option.some.inj hv]

/-! ### Words -/

theorem readName_respaced {name : List Char} (hrest : Respaced rest rest')
    (hbefore : afterClassKeyword before' = afterClassKeyword before)
    (h : readName before name (word ++ rest) st = (.accepted kind word.length, st')) :
    readName before' name (word ++ rest') st = (.accepted kind word.length, st') := by
  rw [readName] at h ⊢
  split at h
  next => cases (Prod.mk.inj h).1
  next hlonger =>
    obtain ⟨hcheck, rfl⟩ := Prod.mk.inj h
    obtain ⟨-, hw, -⟩ := checkFollower_eq_accepted hcheck
    have hne : rest' ≠ [] := by
      intro hnil
      rw [hrest.eq_nil_iff.1 hnil, List.append_nil] at hlonger
      omega
    have hlonger' : ¬(word ++ rest').length ≤ name.length := by
      have hpos := List.length_pos_iff.2 hne
      rw [List.length_append]
      omega
    rw [if_neg hlonger', hbefore]
    exact congrArg (·, _) (checkFollower_behind hrest hcheck)

theorem readWord_respaced (hrest : Respaced rest rest')
    (hbefore : afterClassKeyword before' = afterClassKeyword before)
    (h : readWord before (word ++ rest) st = (.accepted kind word.length, st')) :
    readWord before' (word ++ rest') st = (.accepted kind word.length, st') := by
  have hr : Respaced (word ++ rest) (word ++ rest') := hrest.append_left word
  have hdouble := doubleKeyword?_respaced hr
  simp only [readWord, (hr.takeWhile isWordChar_of_isGap).1] at h ⊢
  split at h
  next k v hk =>
    obtain ⟨hcheck, rfl⟩ := Prod.mk.inj h
    obtain ⟨rfl, rfl, -⟩ := checkFollower_eq_accepted hcheck
    obtain ⟨first, second, hs⟩ := exists_halves (gapWidth?_of_doubleKeyword? hk).1
    obtain ⟨g, hg, rfl⟩ := exists_gap_of_doubleKeyword? hs hk
    rw [doubleKeyword?_words hs hg hrest hk]
    exact congrArg (·, _) (checkFollower_behind hrest hcheck)
  next hk =>
    rw [hk] at hdouble
    have hk' : doubleKeyword? (word ++ rest') = none := by
      cases hd : doubleKeyword? (word ++ rest') with
      | none => rfl
      | some x =>
        rw [hd] at hdouble
        cases hdouble
    rw [hk']
    split at h
    next =>
      obtain ⟨hcheck, rfl⟩ := Prod.mk.inj h
      exact congrArg (·, _) (checkFollower_behind hrest hcheck)
    next => exact readName_respaced hrest hbefore h

/-! ### All lexemes -/

/-- A lexeme is read the same in front of a text with other gaps. -/
theorem read_respaced {c : Char} (hrest : Respaced rest rest')
    (hbefore : afterClassKeyword before' = afterClassKeyword before)
    (h : read before c (word ++ rest) st = (.accepted kind (word.length + 1), st')) :
    read before' c (word ++ rest') st = (.accepted kind (word.length + 1), st') := by
  have hcheck {kind kind' : Kind} {w : Nat}
      (h : checkFollower kind w (c :: (word ++ rest)) = .accepted kind' (word.length + 1)) :
      checkFollower kind w (c :: (word ++ rest')) = .accepted kind' (word.length + 1) :=
    @checkFollower_behind (c :: word) _ _ _ _ _ hrest h
  simp only [read] at h ⊢
  split at h
  next hc =>
    obtain ⟨hr, rfl⟩ := Prod.mk.inj h
    rw [if_pos hc, hcheck hr]
  next hc =>
    rw [if_neg hc]
    split at h
    next hblank =>
      obtain ⟨hr, rfl⟩ := Prod.mk.inj h
      obtain ⟨-, hw, -⟩ := checkFollower_eq_accepted hr
      have hw' := @takeWhile_respaced (c :: word) _ _ isInlineBlank rfl hrest hw.symm
      rw [List.cons_append] at hw'
      rw [← hw] at hr
      rw [if_pos hblank, hw']
      exact congrArg (·, _) (hcheck hr)
    next hblank =>
      rw [if_neg hblank]
      split at h
      next hquote =>
        rw [readString_eq] at h
        rw [if_pos hquote, readString_eq, readSegment_respaced hrest h]
      next hquote =>
        rw [if_neg hquote]
        split at h
        next hbar =>
          rw [readStringPart_eq] at h
          rw [if_pos hbar, readStringPart_eq, readSegment_respaced hrest h]
        next hbar =>
          rw [if_neg hbar]
          split at h
          next hdigit =>
            obtain ⟨hr, rfl⟩ := Prod.mk.inj h
            rw [if_pos hdigit]
            exact congrArg (·, _) (@readNumber_respaced (c :: word) _ _ _ hrest hr)
          next hdigit =>
            rw [if_neg hdigit]
            split at h
            next hword =>
              rw [if_pos hword]
              exact @readWord_respaced (c :: word) _ _ _ _ _ _ _ hrest hbefore h
            next hword =>
              rw [if_neg hword]
              exact @readSymbol_respaced (c :: word) _ _ _ _ _ hrest h

theorem isWordChar_of_isWordStart {c : Char} (hc : isWordStart c) : isWordChar c := by
  simp only [isWordStart, isWordChar, Char.isAlphanum, Bool.or_eq_true] at hc ⊢
  rcases hc with h | h
  · exact .inl (.inl h)
  · exact .inr h

theorem not_newline_of_isGap {c : Char} (hc : isGap c) : c ≠ '\n' := by
  rintro rfl
  cases hc

/-- In the place of a gap another gap is read. -/
theorem read_gap {c d : Char} (hword : IsGap (c :: word)) (hword' : IsGap (d :: word'))
    (hrest : Respaced rest rest')
    (h : read before c (word ++ rest) st = (.accepted kind (word.length + 1), st')) :
    read before' d (word' ++ rest') st = (.accepted kind (word'.length + 1), st') := by
  have blank {x : Char} (hx : isGap x) : isInlineBlank x := by rw [isInlineBlank, hx, Bool.true_or]
  have hc : isGap c := hword.2 c List.mem_cons_self
  have hd : isGap d := hword'.2 d List.mem_cons_self
  simp only [read, if_neg (not_newline_of_isGap hc), if_neg (not_newline_of_isGap hd),
    if_pos (blank hc), if_pos (blank hd)] at h ⊢
  obtain ⟨hr, rfl⟩ := Prod.mk.inj h
  obtain ⟨rfl, hw, -⟩ := checkFollower_eq_accepted hr
  have hend := (@length_takeWhile_append (c :: word) rest isInlineBlank).1 hw.symm
  have hw' : ((d :: (word' ++ rest')).takeWhile isInlineBlank).length = (d :: word').length :=
    length_takeWhile_append.2 ⟨fun x hx => blank (hword'.2 x hx), hrest.head?_eq_false rfl hend.2⟩
  rw [hw', checkFollower_of_followers?_eq_none rfl]
  rfl

theorem doubleKeyword?_of_readWord {k : Keyword} (hk : k ∈ Keyword.doubles)
    (h : readWord before cs st = (.accepted (.keyword k) w, st')) :
    st' = st ∧ doubleKeyword? cs = some (k, w) := by
  simp only [readWord] at h
  split at h
  next k' v hdouble =>
    obtain ⟨hr, rfl⟩ := Prod.mk.inj h
    obtain ⟨hkind, rfl, -⟩ := checkFollower_eq_accepted hr
    cases hkind
    exact ⟨rfl, hdouble⟩
  next =>
    split at h
    next k' hword =>
      obtain ⟨hkind, -, -⟩ := checkFollower_eq_accepted (Prod.mk.inj h).1
      cases hkind
      have hsingle : k ∈ Keyword.singles := List.mem_of_find?_eq_some hword
      have hapart : ∀ k ∈ Keyword.doubles, k ∉ Keyword.singles := by decide
      exact absurd hsingle (hapart k hk)
    next =>
      rw [readName] at h
      split at h
      next => cases (Prod.mk.inj h).1
      next =>
        obtain ⟨⟨names, kind⟩, hn⟩ : ∃ q, nameKind st.names (afterClassKeyword before)
          (String.ofList (cs.takeWhile isWordChar)) = q := ⟨_, rfl⟩
        rw [hn] at h
        obtain ⟨rfl, -, -⟩ := checkFollower_eq_accepted (Prod.mk.inj h).1
        cases (nameKind_eq hn).1

/-- What is read as a keyword of two words begins with one of them. -/
theorem doubleKeyword?_of_read {c : Char} {k : Keyword} (hk : k ∈ Keyword.doubles)
    (h : read before c cs st = (.accepted (.keyword k) w, st')) :
    isWordStart c ∧ st' = st ∧ doubleKeyword? (c :: cs) = some (k, w) := by
  simp only [read] at h
  split at h
  next => cases (checkFollower_eq_accepted (Prod.mk.inj h).1).1
  next =>
    split at h
    next => cases (checkFollower_eq_accepted (Prod.mk.inj h).1).1
    next =>
      split at h
      next =>
        rw [readString_eq] at h
        rcases kind_readSegment h with hkind | hkind <;> cases hkind
      next =>
        split at h
        next =>
          rw [readStringPart_eq] at h
          rcases kind_readSegment h with hkind | hkind <;> cases hkind
        next =>
          split at h
          next =>
            have hkind := (checkFollower_eq_accepted (Prod.mk.inj h).1).1
            rcases numeral_kind (c :: cs) with hn | hn <;> cases hkind.trans hn
          next =>
            split at h
            next hword => exact ⟨hword, doubleKeyword?_of_readWord hk h⟩
            next => exact (not_keyword_readSymbol h).elim

variable (before') in
/-- In the place of a keyword of two words its words are read with another gap between them. -/
theorem read_words {c : Char} {k : Keyword} {first second g : List Char}
    (hs : k.spelling.toList = first ++ ' ' :: second) (hg : IsGap g) (hrest : Respaced rest rest')
    (h : read before c (word ++ rest) st = (.accepted (.keyword k) (word.length + 1), st')) :
    ∃ t, first ++ (g ++ second) = c :: t ∧ Respaced (c :: (word ++ rest)) (c :: (t ++ rest')) ∧
      read before' c (t ++ rest') st = (.accepted (.keyword k) (t.length + 1), st') := by
  obtain ⟨hstart, rfl, hdouble⟩ := doubleKeyword?_of_read (halves_of_spelling hs).1 h
  have hdouble' := @doubleKeyword?_words (c :: word) _ _ _ _ _ _ hs hg hrest hdouble
  have hr := @respaced_words (c :: word) _ _ _ _ _ _ hs hg hrest hdouble
  obtain ⟨g₀, hg₀, hword⟩ := @exists_gap_of_doubleKeyword? (c :: word) _ _ _ _ hs hdouble
  have hc : ¬isGap c := by
    intro hc
    cases (isWordChar_of_isGap c hc).symm.trans (isWordChar_of_isWordStart hstart)
  obtain ⟨t, ht⟩ : ∃ t, first ++ (g ++ second) = c :: t := by
    cases first with
    | nil =>
      obtain ⟨d, g₀, rfl, hd, -⟩ := hg₀.exists_cons
      obtain ⟨rfl, -⟩ := List.cons.inj hword
      exact absurd hd hc
    | cons d first =>
      obtain ⟨rfl, -⟩ := List.cons.inj hword
      exact ⟨_, rfl⟩
  rw [ht] at hdouble' hr
  refine ⟨t, ht, hr, ?_⟩
  rw [List.cons_append] at hdouble'
  rw [read_of_isWordStart hstart] at h ⊢
  simp only [readWord, hdouble, hdouble'] at h ⊢
  have hcheck := @checkFollower_respaced (c :: word) (c :: t) _ _ _ _ _ hrest (Prod.mk.inj h).1
  exact congrArg (·, _) hcheck

end Uwu.Lexeme
