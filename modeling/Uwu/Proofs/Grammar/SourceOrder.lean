import Mathlib.Data.List.Nodup
import Uwu.Proofs.Grammar.Heads
import Uwu.Proofs.Grammar.Spelled
import Uwu.Proofs.Stages

/-! Classes and programs keep what they are made of by its sort, and say it in source order. A
parser that makes a member or an item puts its start where it stands and takes the token there, so
the starts lie in the order of the tokens, and an accepted program says all of its tokens. -/

namespace Uwu

/-- What is in strict order is what any arrangement of it is sorted into. -/
theorem sortBy_eq_of_increasing {α : Type} {start : α → Position} {xs ys : List α}
    (hperm : xs.Perm ys) (hys : (ys.map start).Pairwise (· < ·)) :
    sortBy (fun a b => start a ≤ start b) xs = ys := by
  have hle {p q : Position} (h : p < q) : p ≤ q := by
    rw [Position.lt_def] at h
    rw [Position.le_def]
    omega
  have hne {p q : Position} (h : p < q) : p ≠ q := by
    rintro rfl
    rw [Position.lt_def] at h
    omega
  have hsorted := (sortBy_perm (fun a b => start a ≤ start b) xs).trans hperm
  have hordered : ys.Pairwise fun a b => start a ≤ start b := (List.pairwise_map.1 hys).imp hle
  refine List.Perm.eq_of_pairwise (fun a b ha hb hab hba => ?_)
    (Position.pairwise_sortBy start xs) hordered hsorted
  exact List.inj_on_of_nodup_map (hys.imp hne) (hsorted.subset ha) hb
    (Position.le_antisymm hab hba)

namespace Grammar

/-! ### Starts -/

section Starts

variable {α : Type} {start : α → Position} {p : Parse α} {s t : State}

/-- Where the tokens that are left start. -/
def State.starts (s : State) : List Position :=
  s.stream.tokens.map fun t => t.span.start

theorem Shrinks.starts (h : Shrinks s t) : t.starts.Sublist s.starts :=
  h.sublist.map _

/-- What is made starts at the current token, which is taken. -/
def StartsHere (start : α → Position) (p : Parse α) (s : State) : Prop :=
  Outcome p s (fun a t => (start a :: t.starts).Sublist s.starts) fun t => t.starts.Sublist s.starts

theorem Reads.startsHere (h : Reads Shrinks 1 p s)
    (hp : Outcome p s (fun a _ => start a = s.stream.current.span.start) fun _ => True) :
    StartsHere start p s := by
  refine Outcome.mono (h.and hp) (fun a t ⟨⟨hsuffix, hlt⟩, ha⟩ => ?_) fun t ht => ht.1.starts
  rw [Shrinks] at hsuffix
  rw [ha, State.starts, State.starts, Stream.current]
  cases hts : s.stream.tokens with
  | nil =>
    rw [hts, List.length_nil] at hlt
    exact absurd hlt (Nat.not_succ_le_zero _)
  | cons u us =>
    rw [hts] at hsuffix hlt
    rcases List.suffix_cons_iff.1 hsuffix with heq | hsuffix
    · rw [heq] at hlt
      exact absurd hlt (Nat.not_succ_le_self _)
    · exact (hsuffix.sublist.map _).cons_cons _

/-- One that is broken is skipped, and starts nowhere. -/
theorem outcome_upTo_starts {more : Kind → Bool} {skip : State → State → State}
    (hp : ∀ t, StartsHere start p t)
    (hskip : ∀ t u, (skip t u).stream.tokens <:+ u.stream.tokens) (n : Nat) :
    Outcome (upTo more (recovering p skip) n) s
      (fun as t => ((as.filterMap id).map start ++ t.starts).Sublist s.starts) fun _ => True := by
  induction n generalizing s with
  | zero => exact List.Sublist.refl _
  | succ n ih =>
    rw [upTo, outcome_bind, outcome_currentKind]
    split
    next =>
      have hone : Outcome (recovering p skip) s
          (fun a t => ((a.toList.map start) ++ t.starts).Sublist s.starts) fun _ => True := by
        refine outcome_recovering (Outcome.mono (hp s) (fun _ _ h => h) fun t h d => ?_)
        exact ((hskip s { t with recorded := t.recorded ++ [d] }).sublist.map _).trans h
      rw [outcome_bind]
      refine Outcome.mono hone (fun a t ha => ?_) fun _ => id
      rw [outcome_bind]
      refine Outcome.mono ih (fun as u has => ?_) fun _ => id
      have htail := (has.append_left (a.toList.map start)).trans ha
      change (((a :: as).filterMap id).map start ++ u.starts).Sublist s.starts
      cases a <;> exact htail
    next => exact List.Sublist.refl _

theorem outcome_many_starts {more : Kind → Bool} {skip : State → State → State}
    (hp : ∀ t, StartsHere start p t)
    (hskip : ∀ t u, (skip t u).stream.tokens <:+ u.stream.tokens) :
    Outcome (many more (recovering p skip)) s
      (fun as t => ((as.filterMap id).map start ++ t.starts).Sublist s.starts) fun _ => True :=
  outcome_upTo_starts hp hskip _

theorem State.Sound.starts {names : Names} (h : s.Sound names) : s.starts.Pairwise (· < ·) :=
  List.pairwise_map.2 h.increasing

end Starts

/-! ### Members -/

section

variable {names : Names} {s : State} {m : Mark} {g : List Bool}

theorem Reads.shrinks {α : Type} {p : Parse α} {n : Nat} (h : Reads Keeps n p s) :
    Reads Shrinks n p s :=
  Outcome.mono h (fun _ _ ⟨hR, hl⟩ => ⟨hR.suffix, hl⟩) fun _ hR => hR.suffix

theorem keeps_function : Reads Keeps 1 (function names) s :=
  reads_function fun _ => keeps_blockOf fun _ => keeps_statement names

theorem outcome_expectKeyword (k : Keyword) : Outcome (expectKeyword k) s
    (fun a _ => a.start = s.stream.current.span.start) fun _ => True := by
  rw [expectKeyword, outcome_bind, outcome_expect]
  split
  next => rfl
  next => trivial

theorem outcome_expectName : Outcome expectName s
    (fun a _ => a.span.start = s.stream.current.span.start) fun _ => True := by
  rw [expectName, outcome_bind, outcome_currentKind]
  split
  next => rfl
  next => trivial

/-- What is made at last decides. -/
theorem outcome_then {α β : Type} {p : Parse α} {f : α → Parse β} {P : β → Prop}
    (hf : ∀ a t, Outcome (f a) t (fun b _ => P b) fun _ => True) :
    Outcome (p >>= f) s (fun b _ => P b) fun _ => True := by
  rw [outcome_bind]
  exact outcome_always hf fun _ => trivial

theorem outcome_function : Outcome (function names) s
    (fun f _ => f.span.start = s.stream.current.span.start) fun _ => True := by
  rw [function, outcome_bind]
  refine Outcome.mono (outcome_expectKeyword _) (fun a t ha => ?_) fun _ => id
  exact outcome_then fun _ _ => outcome_then fun _ _ => outcome_then fun _ _ =>
    outcome_then fun _ _ => outcome_then fun _ _ => ha

theorem outcome_declaration : Outcome (declaration names) s
    (fun d _ => d.span.start = s.stream.current.span.start) fun _ => True := by
  rw [declaration, outcome_bind]
  refine Outcome.mono outcome_expectName (fun a t ha => ?_) fun _ => id
  refine outcome_then fun _ _ => outcome_then fun _ _ => outcome_then fun isConst t => ?_
  have rest (type : DataType) (value : Option Expr) (t : State) : Outcome (do
      let stop ← expectSymbol .terminator
      if isConst && value.isNone then record ⟨.constantWithoutValue a.value, a.span⟩
      return (⟨a, type, isConst, value, a.span.through stop⟩ : Declaration)) t
      (fun d _ => d.span.start = s.stream.current.span.start) fun _ => True := by
    refine outcome_then fun _ _ => ?_
    split
    next => exact ha
    next => exact ha
  refine outcome_then fun _ t => ?_
  split
  next => exact outcome_then fun _ _ => outcome_then fun _ _ => rest _ _ _
  next => exact rest _ _ _

theorem startsHere_classMember : StartsHere Member.start (classMember names) s := by
  refine (keeps_classMember names).shrinks.startsHere ?_
  rw [classMember, outcome_bind, outcome_currentKind]
  split
  next =>
    rw [outcome_bind]
    exact outcome_function.mono (fun _ _ h => h) fun _ => id
  next =>
    have hproperty : Outcome (Member.property <$> declaration names) s
        (fun m _ => m.start = s.stream.current.span.start) fun _ => True :=
      (outcome_map _ _).2 outcome_declaration
    rw [outcome_bind]
    change Outcome (if _ then _ else _) s _ _
    split
    next => exact hproperty
    next => trivial

/-! ### Classes -/

/-- The signs of what is made are written in another way that is the same for sound tokens. -/
theorem Spells.resay {α : Type} {signs signs' : α → List Sign} {C : Mark → Prop} {p : Parse α}
    (h : Spells names m (Says signs C) p s)
    (hsame : Outcome p s (fun a _ => s.Sound names → signs' a = signs a) fun _ => True) :
    Spells names m (Says signs' C) p s := by
  refine Outcome.mono (h.and hsame) (fun a t ⟨⟨xs, m', ⟨hxs, hm'⟩, ht⟩, ha⟩ => ?_)
    fun _ _ => trivial
  refine ⟨signs' a, m', ⟨rfl, hm'⟩, fun hclean => ⟨(ht hclean).1, fun hsound => ?_⟩⟩
  rw [ha hsound, ← hxs]
  exact (ht hclean).2 hsound

/-- The sorts of members hold every member once. -/
theorem members_perm (ms : List Member) :
    ((ms.filterMap Member.property?).map Member.property ++
      (ms.filterMap Member.method?).map Member.method).Perm ms := by
  induction ms with
  | nil => exact .nil
  | cons x ms ih =>
    cases x with
    | property d => exact ih.cons _
    | method f => exact List.perm_middle.trans (ih.cons _)

theorem spells_classMember (hm : m.At g) :
    Spells names m (Says (memberSigns names) (Mark.At g)) (classMember names) s := by
  rw [classMember, spells_currentKind_bind]
  split
  next => exact (spells_function hm).result fun f xs m' h => h
  next =>
    rw [spells_declarationAhead_bind]
    split
    next => exact (spells_declaration hm).result fun d xs m' h => ⟨h.1, h.2.1⟩
    next => exact spells_failUnexpected _

/-- The members that a class keeps of those that are read. -/
def keptMembers (ms : List (Option Member)) : List Member :=
  ((ms.filterMap id).filterMap Member.property?).map Member.property ++
    ((ms.filterMap id).filterMap Member.method?).map Member.method

/-- Members are read in the order in which they start. -/
theorem spells_members (hm : m.At g) :
    Spells names m
      (Says (fun ms => (sortBy (fun a b => Member.start a ≤ b.start) (keptMembers ms)).flatMap
        (memberSigns names)) (Mark.At g))
      (many insideBlock (recovering (classMember names) skipStatement)) s := by
  have hread : Spells names m
      (Says (fun ms => ms.flatMap fun found => (found.map (memberSigns names)).getD []) (Mark.At g))
      (many insideBlock (recovering (classMember names) skipStatement)) s :=
    spells_many (fun m' t hm' _ => spells_recovering hm' (fun _ _ => rfl) (spells_classMember hm'))
      hm
  refine hread.resay (Outcome.mono (outcome_many_starts (fun _ => startsHere_classMember)
    skipStatement_suffix) (fun ms t hstarts hsound => ?_) fun _ => id)
  have hincreasing := hsound.starts.sublist ((List.sublist_append_left _ _).trans hstarts)
  rw [keptMembers, sortBy_eq_of_increasing (members_perm _) hincreasing, flatMap_filterMap_id]

theorem spells_className (hm : m.At g) :
    Spells names m (Says (fun x => [classSign names x.1.value]) (Mark.Calls g))
      (className names) s := by
  rw [className, spells_current_bind]
  split
  next id hk =>
    have hunit : Spells names m
        (Says (fun _ => [classSign names s.stream.current.lexeme]) (Mark.Calls g))
        (unitType names) s := by
      rw [unitType, spells_current_bind, typeOf?, hk]
      exact .next hk rfl (sign_classId hk) (spells_pure ⟨rfl, hm, rfl⟩)
    exact hunit.result fun _ _ _ h => h
  next => exact spells_failExpected _

theorem spells_classItem (hm : m.At g) :
    Spells names m (Says (classItemSigns names) (Mark.At g)) (classItem names) s := by
  have hat : Mark.At g ⟨.keyword .cwass, m.groups⟩ := hm
  refine .keyword fun _ t => (spells_className hat).andThen fun ⟨name, type⟩ m' t hm' => ?_
  refine (spells_params hm').andThen fun ps m' t hm' => .symbol rfl fun _ t => ?_
  have hat : Mark.At g ⟨.symbol .doubleOpenBracket, m'.groups⟩ := hm'
  refine (spells_members hat).andThen fun ms m' t hm' => ?_
  exact .symbol rfl fun _ _ => spells_pure ⟨rfl, hm'⟩

theorem shrinks_expectSymbol (x : Symbol) : Reads Shrinks 0 (expectSymbol x) s := by
  rw [Reads, outcome_expectSymbol]
  split
  next =>
    rw [State.tokens_next, List.length_tail]
    exact ⟨by rw [Shrinks, State.tokens_next]; exact List.tail_suffix _, by omega⟩
  next => exact List.suffix_rfl

theorem shrinks_recovering {α : Type} {p : Parse α} {skip : State → State → State} {n : Nat}
    (h : Reads Shrinks n p s) (hskip : ∀ t u, (skip t u).stream.tokens <:+ u.stream.tokens) :
    Reads Shrinks 0 (recovering p skip) s := by
  refine outcome_recovering (Outcome.mono h.zero (fun _ _ ht => ht) fun t ht d => ?_)
  have hsuffix : Shrinks s (skip s { t with recorded := t.recorded ++ [d] }) :=
    (hskip s { t with recorded := t.recorded ++ [d] }).trans ht
  exact ⟨hsuffix, hsuffix.length_le⟩

theorem shrinks_className : Reads Shrinks 0 (className names) s := by
  rw [className, reads_current_bind]
  split
  next id hk =>
    have hunit : Reads Shrinks 0 (unitType names) s := by
      rw [unitType, reads_current_bind, typeOf?, hk]
      exact (Reads.next (by rw [State.kind, hk]; rfl) fun _ _ => reads_pure _).zero
    exact hunit.result _
  next => exact reads_failExpected _

theorem shrinks_classItem : Reads Shrinks 1 (classItem names) s := by
  refine Reads.andThen ((reads_expect rfl).result _) fun _ _ => ?_
  refine shrinks_className.andThen fun ⟨name, type⟩ _ => ?_
  refine (reads_params names).zero.andThen fun _ _ => (shrinks_expectSymbol _).andThen fun _ _ => ?_
  refine Reads.andThen (reads_many fun t _ =>
    shrinks_recovering (keeps_classMember names).shrinks skipStatement_suffix) fun _ _ => ?_
  exact (shrinks_expectSymbol _).result _

/-! ### Items -/

theorem spells_item (hm : m.At g) :
    Spells names m (Says (itemSigns names) (Mark.At g)) (item names) s := by
  rw [item, spells_currentKind_bind]
  split
  next =>
    have hat : Mark.At g ⟨.keyword .gwobaw, m.groups⟩ := hm
    have hglobal : Spells names m (Says (fun d => itemSigns names (.global d)) (Mark.At g))
        (global names) s := by
      refine .keyword fun _ t => (spells_declaration hat).result ?_
      rintro d xs m' ⟨rfl, hm'⟩
      exact ⟨rfl, hm'.1⟩
    exact hglobal.result fun _ _ _ h => h
  next => exact (spells_classItem hm).result fun _ _ _ h => h
  next =>
    rw [spells_nextKind_bind]
    refine (spells_function hm).result fun f xs m' h => ?_
    split <;> exact h
  next => exact spells_current_bind.2 (spells_failHere _)

theorem shrinks_global : Reads Shrinks 1 (global names) s :=
  Reads.andThen ((reads_expect rfl).result _) fun _ _ => ((reads_declaration names).result _).zero

theorem shrinks_item : Reads Shrinks 1 (item names) s := by
  rw [item, reads_currentKind_bind]
  split
  next => exact shrinks_global.result _
  next => exact shrinks_classItem.result _
  next => exact reads_nextKind_bind.2 (keeps_function.shrinks.result _)
  next => exact reads_current_bind.2 (reads_failHere _)

theorem startsHere_item : StartsHere Item.start (item names) s := by
  refine shrinks_item.startsHere ?_
  rw [item, outcome_bind, outcome_currentKind]
  split
  next =>
    have hglobal : Outcome (Item.global <$> global names) s
        (fun i _ => i.start = s.stream.current.span.start) fun _ => True := by
      rw [outcome_map, global, outcome_bind]
      exact (outcome_expectKeyword _).mono (fun a t ha => outcome_then fun _ _ => ha) fun _ => id
    exact hglobal
  next =>
    have hclass : Outcome (Item.cls <$> classItem names) s
        (fun i _ => i.start = s.stream.current.span.start) fun _ => True := by
      rw [outcome_map, classItem, outcome_bind]
      refine (outcome_expectKeyword _).mono (fun a t ha => ?_) fun _ => id
      refine outcome_then ?_
      rintro ⟨name, type⟩ _
      refine outcome_then fun _ _ => outcome_then fun _ _ => ?_
      exact outcome_then fun _ _ => outcome_then fun _ _ => ha
    exact hclass
  next =>
    have hfunction (isEntry : Bool) : Outcome (do
        let f ← function names
        return if isEntry then .entry f else .function f) s
        (fun i _ => Item.start i = s.stream.current.span.start) fun _ => True := by
      rw [outcome_bind]
      refine outcome_function.mono (fun f t hf => ?_) fun _ => id
      cases isEntry <;> exact hf
    exact hfunction _
  next => trivial

/-! ### Rounds -/

theorem Outcome.of_ok {α : Type} {p : Parse α} {ok : α → State → Prop} {fail : State → Prop}
    {a : α} {t : State} (h : Outcome p s ok fail) (hp : p s = .ok a t) : ok a t := by
  unfold Outcome at h
  rwa [hp] at h

/-- The items up to the end, where none is broken and no entry follows another; one may have been
read before. -/
inductive Rounds (names : Names) : Bool → State → List Item → State → Prop
  | stop {b : Bool} {s : State} (hk : s.kind = .endOfFile) : Rounds names b s [] s
  | entry {s t u : State} {f : Function} {is : List Item} (hi : item names s = .ok (.entry f) t)
    (hclean : t.recorded = []) (rest : Rounds names true t is u) :
    Rounds names false s (.entry f :: is) u
  | other {b : Bool} {s t u : State} {i : Item} {is : List Item} (hi : item names s = .ok i t)
    (he : i.entry? = none) (hclean : t.recorded = []) (rest : Rounds names b t is u) :
    Rounds names b s (i :: is) u

namespace Rounds

variable {b : Bool} {t u : State} {is : List Item}

theorem kind (h : Rounds names b s is u) : u.kind = .endOfFile := by
  induction h with
  | stop hk => exact hk
  | entry _ _ _ ih | other _ _ _ _ ih => exact ih

theorem entries (h : Rounds names b s is u) :
    (is.filterMap Item.entry?).length + b.toNat ≤ 1 := by
  induction h with
  | stop => simpa using Bool.toNat_le _
  | entry _ _ _ ih =>
    rw [Bool.toNat_true] at ih
    simpa [Item.entry?] using ih
  | other _ he _ _ ih => rwa [List.filterMap_cons_none he]

theorem starts (h : Rounds names b s is u) :
    (is.map Item.start ++ u.starts).Sublist s.starts := by
  have hcons {i : Item} {is : List Item} {s t u : State} (hi : item names s = .ok i t)
      (ih : (is.map Item.start ++ u.starts).Sublist t.starts) :
      ((i :: is).map Item.start ++ u.starts).Sublist s.starts :=
    (ih.cons_cons i.start).trans (Outcome.of_ok startsHere_item hi)
  induction h with
  | stop => exact List.Sublist.refl _
  | entry hi _ _ ih => exact hcons hi ih
  | other hi _ _ _ ih => exact hcons hi ih

theorem signs (h : Rounds names b s is u) (hs : s.Sound names) (hm : m.At g) :
    ∃ m', u.Sound names ∧ s.ahead m = is.flatMap (itemSigns names) ++ u.ahead m' := by
  have hcons {i : Item} {is : List Item} {s t u : State} {m : Mark}
      (hi : item names s = .ok i t) (hclean : t.recorded = []) (hs : s.Sound names) (hm : m.At g)
      (ih : ∀ m, t.Sound names → m.At g →
        ∃ m', u.Sound names ∧ t.ahead m = is.flatMap (itemSigns names) ++ u.ahead m') :
      ∃ m', u.Sound names ∧ s.ahead m = (i :: is).flatMap (itemSigns names) ++ u.ahead m' := by
    obtain ⟨xs, m', ⟨rfl, hm'⟩, ht⟩ := Outcome.of_ok (spells_item hm) hi
    obtain ⟨hsound, hahead⟩ := (ht hclean).2 hs
    obtain ⟨m'', hu, hrest⟩ := ih m' hsound hm'
    exact ⟨m'', hu, by rw [hahead, hrest, List.flatMap_cons, List.append_assoc]⟩
  induction h generalizing m with
  | stop => exact ⟨m, hs, rfl⟩
  | entry hi hclean _ ih => exact hcons hi hclean hs hm fun m hs hm => ih hs hm
  | other hi _ hclean _ ih => exact hcons hi hclean hs hm fun m hs hm => ih hs hm

end Rounds

theorem outcome_self {α : Type} (p : Parse α) :
    Outcome p s (fun a t => p s = .ok a t) fun _ => True := by
  unfold Outcome
  split
  next a t hp => exact hp
  next => trivial

/-- Where a broken item took nothing, the skip takes a token. -/
theorem skipItem_shorter {t : State} (hs : s.kind ≠ .endOfFile)
    (ht : t.stream.tokens.length ≤ s.stream.tokens.length) :
    (skipItem s t).stream.tokens.length < s.stream.tokens.length := by
  have hpos : 0 < s.stream.tokens.length := by
    rw [State.tokens_eq_cons hs]
    exact Nat.succ_pos _
  have hle : t.stream.skipItem.tokens.length ≤ t.stream.tokens.length :=
    skipItemFrom_suffix.length_le
  simp only [skipItem]
  split
  next heq =>
    have htail : t.stream.skipItem.advance.tokens = t.stream.skipItem.tokens.tail :=
      State.tokens_next { t with stream := t.stream.skipItem }
    rw [htail, List.length_tail]
    omega
  next hne =>
    change t.stream.skipItem.tokens.length < _
    omega

/-- A round takes a token, be its item broken or not. -/
theorem outcome_round (hs : s.kind ≠ .endOfFile) :
    Outcome (recovering (item names) skipItem) s (fun found t =>
      t.stream.tokens.length < s.stream.tokens.length ∧ (found = none → t.recorded ≠ []) ∧
        ∀ i, found = some i → item names s = .ok i t ∧ (t.recorded = [] → s.recorded = []))
      fun _ => False := by
  have hspells : Spells names .start (Says (itemSigns names) (Mark.At [])) (item names) s :=
    spells_item rfl
  have hitem := (outcome_self (item names)).and (startsHere_item.and hspells)
  refine outcome_recovering (Outcome.mono hitem ?_ ?_)
  · rintro i t ⟨hi, hstarts, xs, m', -, hclean⟩
    have hlength := hstarts.length_le
    simp only [State.starts, List.length_cons, List.length_map] at hlength
    refine ⟨hlength, nofun, ?_⟩
    rintro _ ⟨⟩
    exact ⟨hi, fun h => (hclean h).1⟩
  · rintro t ⟨-, hstarts, -⟩ d
    have hlength := hstarts.length_le
    simp only [State.starts, List.length_map] at hlength
    refine ⟨skipItem_shorter hs hlength, fun _ => ?_, nofun⟩
    have hrecorded (t : State) : (skipItem s t).recorded = t.recorded := by
      rw [skipItem]
      split <;> rfl
    rw [hrecorded]
    simp

theorem outcome_itemsUpTo {n : Nat} (hn : s.stream.tokens.length < n) (b : Bool) :
    Outcome (itemsUpTo names n b) s
      (fun is u => u.recorded = [] → s.recorded = [] ∧ Rounds names b s is u) fun _ => True := by
  induction n generalizing s b with
  | zero => exact absurd hn (Nat.not_lt_zero _)
  | succ n ih =>
    rw [itemsUpTo, outcome_bind, outcome_currentKind]
    split
    next hk => exact fun hclean => ⟨hclean, .stop hk⟩
    next hk =>
      rw [outcome_bind]
      refine Outcome.mono (outcome_round hk) ?_ fun _ => False.elim
      rintro found t ⟨hlt, hnone, hsome⟩
      have hnext : t.stream.tokens.length < n := by omega
      split
      next =>
        exact (ih hnext b).mono (fun is u hu hclean => absurd (hu hclean).1 (hnone rfl)) fun _ => id
      next f =>
        obtain ⟨hitem, hgrows⟩ := hsome _ rfl
        cases b with
        | true =>
          change Outcome (itemsUpTo names n true >>= fun is => pure (.entry f :: is))
            { t with recorded := t.recorded ++ _ } _ _
          rw [outcome_bind]
          refine Outcome.mono (ih ?_ true) (fun is u hu hclean => ?_) fun _ => id
          · exact hnext
          · have hdirty := (hu hclean).1
            simp at hdirty
        | false =>
          change Outcome (itemsUpTo names n true >>= fun is => pure (.entry f :: is)) t _ _
          rw [outcome_bind]
          refine Outcome.mono (ih hnext true) (fun is u hu hclean => ?_) fun _ => id
          obtain ⟨hclean, hrest⟩ := hu hclean
          exact ⟨hgrows hclean, .entry hitem hclean hrest⟩
      next i hentry =>
        obtain ⟨hitem, hgrows⟩ := hsome _ rfl
        have he : i.entry? = none := by
          cases i with
          | entry f => exact absurd rfl (hentry f)
          | _ => rfl
        rw [outcome_bind]
        refine Outcome.mono (ih hnext b) (fun is u hu hclean => ?_) fun _ => id
        obtain ⟨hclean, hrest⟩ := hu hclean
        exact ⟨hgrows hclean, .other hitem he hclean hrest⟩

theorem outcome_items : Outcome (items names) s
    (fun is u => u.recorded = [] → Rounds names false s is u) fun _ => True := by
  rw [items, outcome_bind, outcome_bound, outcome_bind]
  refine Outcome.mono (outcome_itemsUpTo (Nat.lt_succ_self _) false) (fun is u hu => ?_) fun _ => id
  split
  next =>
    intro hdirty
    change u.recorded ++ _ = [] at hdirty
    simp at hdirty
  next => exact fun hclean => (hu hclean).2

end

/-! ### The whole text -/

/-- The sorts of items hold every item once. -/
theorem items_perm (is : List Item) :
    ((is.filterMap Item.global?).map Item.global ++
      ((is.filterMap Item.function?).map Item.function ++
        ((is.filterMap Item.class?).map Item.cls ++
          (is.filterMap Item.entry?).map Item.entry))).Perm is := by
  induction is with
  | nil => exact .nil
  | cons i is ih =>
    refine List.Perm.trans ?_ (ih.cons i)
    cases i with
    | global d => exact .refl _
    | function f => exact List.perm_middle
    | cls c =>
      refine List.Perm.trans (.append_left _ List.perm_middle) List.perm_middle
    | entry f =>
      refine List.Perm.trans (.append_left _ (.append_left _ List.perm_middle)) ?_
      refine List.Perm.trans (.append_left _ List.perm_middle) List.perm_middle

/-- The end leaves its sign behind all others. -/
theorem essential_append_end (m : Mark) (ts : List Token) {t : Token} (ht : t.kind = .endOfFile) :
    essential m (ts ++ [t]) = essential m ts ++ [t] := by
  induction ts generalizing m with
  | nil => simp [essential, ht, Mark.drops]
  | cons u us ih =>
    have hnext : ((us ++ [t]).head?.map Token.kind).getD .endOfFile =
        (us.head?.map Token.kind).getD .endOfFile := by
      cases us with
      | nil => simp [ht]
      | cons => rfl
    rw [List.cons_append, essential, essential, ih, hnext]
    split <;> rfl

end Grammar

open Grammar

/-- The parts of an accepted program are the items that its rounds read, by their sorts. -/
theorem Program.items_ofTokens {tokens : List Token} {names : Names} {p : Program}
    (h : Program.ofTokens tokens names = .ok p) :
    ∃ is u, Rounds names false (.ofTokens tokens) is u ∧
      (p.globals.map Item.global ++ (p.functions.map Item.function ++
        (p.classes.map Item.cls ++ [Item.entry p.entry]))).Perm is := by
  rw [Program.ofTokens] at h
  split at h
  next => cases h
  next is u hitems =>
    split at h
    next entry others hclean hentries =>
      cases h
      have hrounds := Outcome.of_ok outcome_items hitems hclean
      have hone : others = [] := by
        have hle := hrounds.entries
        rw [hentries, List.length_cons, Bool.toNat_false] at hle
        exact List.eq_nil_of_length_eq_zero (by omega)
      have hperm := items_perm is
      rw [hentries, hone] at hperm
      exact ⟨is, u, hrounds, hperm⟩
    next => cases h

namespace Lexed

/-- A parser starts with the tokens before the end that are no trivia, and these are sound. -/
theorem sound_ofLines (lines : List String) (names : Names) :
    (State.ofTokens (ofLines lines names).tokens).Sound (ofLines lines names).names ∧
      ∃ ts, (ofLines lines names).tokens =
          ts ++ [⟨.endOfFile, "", .point (Document.ofStrings lines).endPosition⟩] ∧
        (State.ofTokens (ofLines lines names).tokens).stream.tokens =
          ts.filter fun t => !t.kind.isTrivia := by
  obtain ⟨ts, hts, hinside⟩ := ends_ofLines lines names
  have htokens : (State.ofTokens (ofLines lines names).tokens).stream.tokens =
      ts.filter fun t => !t.kind.isTrivia := by
    simp [State.ofTokens, Stream.ofTokens, hts, Kind.isTrivia]
  have hsub : (ts.filter fun t => !t.kind.isTrivia).Sublist (ofLines lines names).tokens := by
    rw [hts]
    exact List.filter_sublist.trans (List.sublist_append_left _ _)
  refine ⟨⟨?_, ?_, ?_⟩, ts, hts, htokens⟩
  · rw [htokens]
    exact fun t ht => fits_ofLines lines names (hsub.subset ht)
  · rw [htokens]
    exact fun t ht => hinside t (List.mem_of_mem_filter ht)
  · rw [htokens]
    refine ((increasing_ofLines lines names).sublist hsub).imp_of_mem fun {t u} ht _ hlt => ?_
    have hle := (lexeme_ofLines lines names (hsub.subset ht)).1
    rw [Position.lt_def] at hlt ⊢
    rw [Position.le_def] at hle
    omega

end Lexed

/-- The items of an accepted program say all of the tokens before the end. -/
theorem Program.ahead_ofTokens {tokens : List Token} {names : Names} {p : Program}
    (hsound : (State.ofTokens tokens).Sound names) (h : Program.ofTokens tokens names = .ok p) :
    (State.ofTokens tokens).ahead .start = p.items.flatMap (itemSigns names) := by
  obtain ⟨is, u, hrounds, hperm⟩ := Program.items_ofTokens h
  have hm : Mark.At [] .start := rfl
  obtain ⟨m', hu, hahead⟩ := hrounds.signs hsound hm
  have hend : u.ahead m' = [] := by
    have hnil : u.stream.tokens = [] := by
      by_contra hne
      obtain ⟨v, vs, hvs⟩ := List.exists_cons_of_ne_nil hne
      have hk := hrounds.kind
      rw [State.kind, Stream.current, hvs] at hk
      exact hu.inside v (by simp [hvs]) hk
    rw [State.ahead, hnil]
    rfl
  have hitems : p.items = is := sortBy_eq_of_increasing hperm
    (hsound.starts.sublist ((List.sublist_append_left _ _).trans hrounds.starts))
  rw [hahead, hend, List.append_nil, hitems]

/-- An accepted program says its tokens: in source order its signs are those of the tokens, once the
parentheses that only group are left out, and the commas before the end of a list. -/
theorem Program.signs_ofTokens (lines : List String) (names : Names) {p : Program}
    (h : Program.ofTokens (Lexed.ofLines lines names).tokens (Lexed.ofLines lines names).names =
      .ok p) :
    (essential .start ((Lexed.ofLines lines names).tokens.filter fun t => !t.kind.isTrivia)).map
      Token.sign = p.signs (Lexed.ofLines lines names).names := by
  obtain ⟨hsound, ts, hts, htokens⟩ := Lexed.sound_ofLines lines names
  have hahead := Program.ahead_ofTokens hsound h
  rw [State.ahead, htokens] at hahead
  have hfilter : (Lexed.ofLines lines names).tokens.filter (fun t => !t.kind.isTrivia) =
      ts.filter (fun t => !t.kind.isTrivia) ++
        [⟨.endOfFile, "", .point (Document.ofStrings lines).endPosition⟩] := by
    rw [hts, List.filter_append]
    rfl
  rw [hfilter, essential_append_end _ _ rfl, List.map_append, hahead, Program.signs]
  rfl

/-- A class with a method before its property, an entry before a global, two groups and four commas
before the end of a list. -/
def mixedItems : String :=
  "cwass Cat(age-chan, ) [[\nfwunc left-kun(k-kun, ) [[\nwetuwn (9 - k) / 2~\n]]\n" ++
    "lives-chan-dono = 9~\n]]\nfwunc mainuwu-san() [[\nxs-chan[] = \x7b1, (2), \x7d~\n" ++
    "pwint(\"a|n|b\", xs[0], )~\n]]\ngwobaw n-chan = 2~\n"

theorem mixedItems_signs : ∃ p, (compile mixedItems .empty).outcome = .ok p ∧
    (p.globals.length = 1 ∧ p.classes.length = 1) ∧
    (essential .start ((Lexed.ofLines (splitLines mixedItems) .empty).tokens.filter
      fun t => !t.kind.isTrivia)).map Token.sign =
        p.signs (Lexed.ofLines (splitLines mixedItems) .empty).names := by
  have hs : mixedItems.toList = _ := toList_append_of_eq
    (toList_append_of_eq (toList_of_eq rfl) (toList_of_eq rfl)) (toList_of_eq rfl)
  obtain ⟨p, hp, ht⟩ := exists_compiled mixedItems .empty
    (fun p => p.globals.length == 1 && p.classes.length == 1) hs (by decide +kernel)
  rw [Bool.and_eq_true, beq_iff_eq, beq_iff_eq] at ht
  exact ⟨p, hp, ht, Program.signs_ofTokens _ _ (compile_eq_ok.1 hp).2.1⟩

end Uwu
