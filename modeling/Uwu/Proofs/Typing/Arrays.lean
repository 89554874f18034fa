import Mathlib.Data.List.MinMax
import Mathlib.Order.Bounds.Defs
import Uwu.Proofs.Typing.Calls

/-! The types of array literals. A literal compares its own elements only, and has a type just when
all the leaves in it, however nested, are of one base type and at one depth. Leaves and literals
without a base type are compared by an order: they are below whatever is at least as deep. -/

namespace Uwu

open Typing

/-! ### Leaves -/

mutual

/-- The expressions in nested array literals that are no array literals, from left to right. -/
def Expr.leaves : Expr → List Expr
  | .array elements _ => leavesOf elements
  | e => [e]

def leavesOf : List Expr → List Expr
  | [] => []
  | e :: es => e.leaves ++ leavesOf es

end

namespace Typing

variable (env : Env)

mutual

/-- The types of the leaves and of the literals without elements, each with as many levels more as
there are literals around it; around the expression there are `level` of them. -/
def ranks (level : Nat) : Expr → List DataType
  | .array elements _ =>
    if elements.isEmpty then [.blankArray (1 + level)] else ranksOf (level + 1) elements
  | e => [(typeOf env e).value.arrayOf level]

def ranksOf (level : Nat) : List Expr → List DataType
  | [] => []
  | e :: es => ranks level e ++ ranksOf level es

end

/-- All the types with a base are one type, and the others are no deeper. -/
def Uniform (ts : List DataType) : Prop :=
  ∃ base dimension, ∀ t ∈ ts,
    if t.base = .san then t.dimension ≤ dimension else t = ⟨base, dimension⟩

/-- The leaves have types, without mistakes. -/
def Known (es : List Expr) : Prop :=
  ∀ e ∈ es, (typeOf env e).mistakes = [] ∧ (typeOf env e).value.isNothing = false

/-- No array literal in the expression is found to have elements of different types. -/
def Unmixed (e : Expr) : Prop :=
  ∀ m ∈ (typeOf env e).mistakes, ∀ types, m.cause ≠ .mixedArray types

/-- The elements of nested literals in another order, at any level. -/
inductive Shuffled : Expr → Expr → Prop where
  | refl (e : Expr) : Shuffled e e
  | elements {es es' : List Expr} (h : es.Perm es') (span span' : Span) :
    Shuffled (.array es span) (.array es' span')
  | within {e e' : Expr} (before after : List Expr) (span : Span) (h : Shuffled e e') :
    Shuffled (.array (before ++ e :: after) span) (.array (before ++ e' :: after) span)
  | trans {e e' e'' : Expr} (h : Shuffled e e') (h' : Shuffled e' e'') : Shuffled e e''

/-! ### The order of types -/

/-- Whatever the elements of type `u` are, they may stand beside elements of type `t`. -/
def Under (u t : DataType) : Prop :=
  u = t ∨ u.base = .san ∧ u.dimension ≤ t.dimension

/-- One of the types, and above the others. -/
def Greatest (ts : List DataType) (t : DataType) : Prop :=
  t ∈ ts ∧ ∀ u ∈ ts, Under u t

theorem Under.refl (t : DataType) : Under t t :=
  .inl rfl

theorem Under.trans {t u v : DataType} (h : Under t u) (h' : Under u v) : Under t v := by
  rcases h' with rfl | ⟨hbase, hle⟩
  · exact h
  · rcases h with rfl | ⟨hb, hl⟩
    · exact .inr ⟨hbase, hle⟩
    · exact .inr ⟨hb, Nat.le_trans hl hle⟩

theorem Under.arrayOf {t u : DataType} (h : Under t u) (n : Nat) :
    Under (t.arrayOf n) (u.arrayOf n) := by
  rcases h with rfl | ⟨hb, hl⟩
  · exact .refl _
  · exact .inr ⟨hb, Nat.add_le_add_right hl n⟩

theorem uniform_iff {ts : List DataType} : Uniform ts ↔ ∃ t, ∀ u ∈ ts, Under u t := by
  constructor
  · rintro ⟨base, dimension, h⟩
    refine ⟨⟨base, dimension⟩, fun u hu => ?_⟩
    have hu := h u hu
    split at hu
    next hb => exact .inr ⟨hb, hu⟩
    next => exact .inl hu
  · rintro ⟨⟨base, dimension⟩, h⟩
    refine ⟨base, dimension, fun u hu => ?_⟩
    rcases h u hu with rfl | ⟨hb, hl⟩
    · split
      next => exact Nat.le_refl _
      next => rfl
    · rw [if_pos hb]
      exact hl

theorem Greatest.unique {ts : List DataType} {t u : DataType} (h : Greatest ts t)
    (h' : Greatest ts u) : t = u := by
  rcases h.2 u h'.1 with rfl | ⟨hu, hle⟩
  · rfl
  · rcases h'.2 t h.1 with rfl | ⟨ht, hge⟩
    · rfl
    · obtain ⟨base, dimension⟩ := t
      rw [DataType.mk.injEq]
      exact ⟨ht.trans hu.symm, Nat.le_antisymm hge hle⟩

theorem Greatest.uniform {ts : List DataType} {t : DataType} (h : Greatest ts t) : Uniform ts :=
  uniform_iff.2 ⟨t, h.2⟩

/-- Types that are uniform have a greatest one: the one with a base, or else the deepest. -/
theorem Uniform.exists_greatest {ts : List DataType} (h : Uniform ts) (hne : ts ≠ []) :
    ∃ t, Greatest ts t := by
  obtain ⟨t, ht⟩ := uniform_iff.1 h
  by_cases hmem : t ∈ ts
  · exact ⟨t, hmem, ht⟩
  · obtain ⟨deepest, hd⟩ : ∃ d, d ∈ ts.argmax DataType.dimension :=
      Option.ne_none_iff_exists'.1 fun hnone => hne (List.argmax_eq_none.1 hnone)
    have hlow : ∀ u ∈ ts, u.base = .san := fun u hu =>
      (ht u hu).elim (fun heq => absurd (heq ▸ hu) hmem) And.left
    exact ⟨deepest, List.argmax_mem hd, fun u hu =>
      .inr ⟨hlow u hu, List.le_of_mem_argmax hu hd⟩⟩

/-- The greatest of the greatest is above all. -/
theorem Greatest.flatMap {α : Type} {l : List α} {f : α → List DataType} {g : α → DataType}
    {t : DataType} (h : Greatest (l.map g) t) (hg : ∀ a ∈ l, Greatest (f a) (g a)) :
    Greatest (l.flatMap f) t := by
  obtain ⟨a, ha, rfl⟩ := List.mem_map.1 h.1
  refine ⟨List.mem_flatMap.2 ⟨a, ha, (hg a ha).1⟩, fun u hu => ?_⟩
  obtain ⟨b, hb, hu⟩ := List.mem_flatMap.1 hu
  exact ((hg b hb).2 u hu).trans (h.2 _ (List.mem_map_of_mem hb))

theorem Greatest.arrayOf {ts : List DataType} {t : DataType} (h : Greatest ts t) (n : Nat) :
    Greatest (ts.map (·.arrayOf n)) (t.arrayOf n) := by
  refine ⟨List.mem_map_of_mem h.1, fun u hu => ?_⟩
  obtain ⟨v, hv, rfl⟩ := List.mem_map.1 hu
  exact (h.2 v hv).arrayOf n

theorem Uniform.mono {ts us : List DataType} (h : Uniform us) (hsub : ts ⊆ us) : Uniform ts := by
  obtain ⟨base, dimension, h⟩ := h
  exact ⟨base, dimension, fun t ht => h t (hsub ht)⟩

theorem Uniform.of_arrayOf {ts : List DataType} {n : Nat} (h : Uniform (ts.map (·.arrayOf n))) :
    Uniform ts := by
  obtain ⟨base, dimension, h⟩ := h
  refine ⟨base, dimension - n, fun t ht => ?_⟩
  have ht : if t.base = .san then t.dimension + n ≤ dimension
      else t.arrayOf n = ⟨base, dimension⟩ := h _ (List.mem_map_of_mem ht)
  split at ht
  next hb =>
    rw [if_pos hb]
    omega
  next hb =>
    rw [if_neg hb]
    obtain ⟨rfl, rfl⟩ := DataType.mk.inj ht
    rw [Nat.add_sub_cancel]

/-! ### One literal -/

theorem foldl_max_le_iff {ns : List Nat} {m n : Nat} :
    ns.foldl max m ≤ n ↔ m ≤ n ∧ ∀ k ∈ ns, k ≤ n := by
  induction ns generalizing m with
  | nil => simp
  | cons k ns ih =>
    rw [List.foldl_cons, ih, List.forall_mem_cons, Nat.max_le, and_assoc]

theorem le_foldl_max {ns : List Nat} {m n : Nat} (h : n ∈ ns) : n ≤ ns.foldl max m :=
  (foldl_max_le_iff.1 (Nat.le_refl _)).2 n h

theorem uniform_of_base_eq_san {ts : List DataType} (h : ∀ t ∈ ts, t.base = .san) : Uniform ts := by
  refine ⟨.san, (ts.map DataType.dimension).foldl max 0, fun t ht => ?_⟩
  rw [if_pos (h t ht)]
  exact le_foldl_max (List.mem_map_of_mem ht)

theorem isBlankArray_iff {t : DataType} (h : t.isNothing = false) :
    t.isBlankArray = true ↔ t.base = .san := by
  rw [DataType.isNothing, Bool.and_eq_false_iff, beq_eq_false_iff_ne, beq_eq_false_iff_ne] at h
  rw [DataType.isBlankArray, Bool.and_eq_true, beq_iff_eq, decide_eq_true_eq]
  exact ⟨And.left, fun hb => ⟨hb, Nat.pos_of_ne_zero (h.resolve_left (not_not_intro hb))⟩⟩

section Literal

variable {types : List DataType} (hknown : ∀ t ∈ types, t.isNothing = false)

include hknown

theorem not_any_isNothing : ¬ types.any DataType.isNothing := by
  rw [List.any_eq_true]
  rintro ⟨t, ht, hn⟩
  exact Bool.false_ne_true ((hknown t ht).symm.trans hn)

theorem mem_filter_isBlankArray {t : DataType} :
    t ∈ types.filter DataType.isBlankArray ↔ t ∈ types ∧ t.base = .san := by
  rw [List.mem_filter]
  exact and_congr_right fun ht => isBlankArray_iff (hknown t ht)

theorem mem_filter_not_isBlankArray {t : DataType} :
    t ∈ types.filter (not ∘ DataType.isBlankArray) ↔ t ∈ types ∧ t.base ≠ .san := by
  rw [List.mem_filter, Function.comp_apply, Bool.not_eq_true', ← Bool.not_eq_true]
  exact and_congr_right fun ht => not_congr (isBlankArray_iff (hknown t ht))

theorem arrayType_of_greatest {t : DataType} (h : Greatest types t) (span : Span) :
    arrayType types span = pure (t.arrayOf 1) := by
  have hdepth : ((types.filter DataType.isBlankArray).map DataType.dimension).foldl max 0
      ≤ t.dimension := by
    refine foldl_max_le_iff.2 ⟨Nat.zero_le _, fun k hk => ?_⟩
    obtain ⟨u, hu, rfl⟩ := List.mem_map.1 hk
    rcases h.2 u (List.mem_filter.1 hu).1 with rfl | hu
    · exact Nat.le_refl _
    · exact hu.2
  rw [arrayType, if_neg (not_any_isNothing hknown), List.partition_eq_filter_filter]
  dsimp only
  split
  next hnil =>
    -- Then no type has a base, and the greatest is the deepest.
    have hb : t.base = .san := by
      by_contra hb
      exact List.not_mem_nil (hnil ▸ (mem_filter_not_isBlankArray hknown).2 ⟨h.1, hb⟩)
    have hle := le_foldl_max (m := 0)
      (List.mem_map_of_mem (f := DataType.dimension) ((mem_filter_isBlankArray hknown).2 ⟨h.1, hb⟩))
    rw [Nat.le_antisymm hdepth hle]
    exact congrArg pure (congrArg (DataType.mk · _) hb.symm)
  next u us hcons =>
    -- The types with a base are below the greatest, so they are that type.
    have heq : ∀ v ∈ u :: us, v = t := fun v hv => by
      rw [← hcons, mem_filter_not_isBlankArray hknown] at hv
      exact (h.2 v hv.1).resolve_right fun hb => hv.2 hb.1
    obtain rfl := heq u (List.mem_cons_self ..)
    rw [if_pos]
    rw [Bool.and_eq_true, List.all_eq_true, decide_eq_true_eq]
    exact ⟨fun v hv => beq_iff_eq.2 (heq v (List.mem_cons_of_mem _ hv)), hdepth⟩

theorem arrayType_of_not_uniform (h : ¬ Uniform types) (span : Span) :
    arrayType types span = arrayMistake types span := by
  rw [arrayType, if_neg (not_any_isNothing hknown), List.partition_eq_filter_filter]
  dsimp only
  split
  next hnil =>
    refine absurd (uniform_of_base_eq_san fun t ht => ?_) h
    by_contra hb
    exact List.not_mem_nil (hnil ▸ (mem_filter_not_isBlankArray hknown).2 ⟨ht, hb⟩)
  next u us hcons =>
    refine if_neg fun hall => h (uniform_iff.2 ⟨u, fun t ht => ?_⟩)
    rw [Bool.and_eq_true, List.all_eq_true, decide_eq_true_eq, foldl_max_le_iff] at hall
    obtain ⟨hsame, -, hdepth⟩ := hall
    by_cases hb : t.base = .san
    · exact .inr ⟨hb, hdepth _ (List.mem_map_of_mem ((mem_filter_isBlankArray hknown).2 ⟨ht, hb⟩))⟩
    · have ht : t ∈ u :: us := hcons ▸ (mem_filter_not_isBlankArray hknown).2 ⟨ht, hb⟩
      rcases List.mem_cons.1 ht with rfl | ht
      · exact .refl _
      · exact .inl (eq_of_beq (hsame t ht))

omit hknown in
theorem arrayType_of_nothing (h : ∃ t ∈ types, t.isNothing) (span : Span) :
    arrayType types span = pure .san := by
  rw [arrayType, if_pos (List.any_eq_true.2 h)]

end Literal

/-! ### Nested literals -/

theorem leavesOf_eq (es : List Expr) : leavesOf es = es.flatMap Expr.leaves := by
  induction es with
  | nil => rfl
  | cons e es ih => rw [leavesOf, List.flatMap_cons, ih]

section Nested

variable (env : Env)

theorem ranksOf_eq (level : Nat) (es : List Expr) :
    ranksOf env level es = es.flatMap (ranks env level) := by
  induction es with
  | nil => rfl
  | cons e es ih => rw [ranksOf, List.flatMap_cons, ih]

mutual

theorem ranks_eq (level : Nat) : ∀ e : Expr,
    ranks env level e = (ranks env 0 e).map (·.arrayOf level)
  | .array elements _ => by
    rw [ranks, ranks, ranksOf_eq_map (level + 1) elements, ranksOf_eq_map 1 elements]
    split
    next => rfl
    next =>
      rw [List.map_map]
      refine List.map_congr_left fun t _ => ?_
      rw [Function.comp_apply, DataType.arrayOf, DataType.arrayOf, DataType.arrayOf, Nat.add_assoc,
        Nat.add_comm 1]
  | .literal _ _ | .format _ _ | .input _ _ | .prefixed _ _ _ | .infixed _ _ _ _
  | .postfixed _ _ _ | .place _ => rfl

theorem ranksOf_eq_map (level : Nat) : ∀ es : List Expr,
    ranksOf env level es = (ranksOf env 0 es).map (·.arrayOf level)
  | [] => rfl
  | e :: es => by rw [ranksOf, ranksOf, List.map_append, ranks_eq level e, ranksOf_eq_map level es]

end

/-- The ranks of elements are those of their literal, but for the level of the literal. -/
theorem ranks_array {es : List Expr} (h : es ≠ []) (span : Span) :
    ranks env 0 (.array es span) = (es.flatMap (ranks env 0)).map (·.arrayOf 1) := by
  rw [ranks, if_neg (mt List.isEmpty_iff.1 h), ranksOf_eq_map, ranksOf_eq]

theorem mistakes_typesOf (es : List Expr) :
    (typesOf env es).mistakes = es.flatMap fun e => (typeOf env e).mistakes := by
  induction es with
  | nil => rfl
  | cons e es ih =>
    rw [typesOf, List.flatMap_cons, ← ih, Checked.mistakes_bind, Checked.mistakes_bind,
      Checked.mistakes_pure, List.append_nil]

theorem value_array (es : List Expr) (span : Span) :
    (typeOf env (.array es span)).value =
      (arrayType (es.map fun e => (typeOf env e).value) span).value := by
  rw [typeOf, Checked.value_bind, value_typesOf]

theorem mistakes_array (es : List Expr) (span : Span) :
    (typeOf env (.array es span)).mistakes = (es.flatMap fun e => (typeOf env e).mistakes) ++
      (arrayType (es.map fun e => (typeOf env e).value) span).mistakes := by
  rw [typeOf, Checked.mistakes_bind, value_typesOf, mistakes_typesOf]

/-- What the check of an expression gives. -/
inductive Comes (e : Expr) : Prop where
  /-- The greatest of its ranks. -/
  | fits (clean : (typeOf env e).mistakes = []) (known : (typeOf env e).value.isNothing = false)
    (greatest : Greatest (ranks env 0 e) (typeOf env e).value)
  /-- Mistakes in the array literals, as the ranks have no greatest. -/
  | mixed (found : (typeOf env e).mistakes ≠ [])
    (only : ∀ m ∈ (typeOf env e).mistakes, ∃ types, m.cause = .mixedArray types)
    (nothing : (typeOf env e).value = .san) (apart : ¬ Uniform (ranks env 0 e))

variable {env}

theorem Comes.of_mistakes_eq_nil {e : Expr} (h : Comes env e) (hm : (typeOf env e).mistakes = []) :
    (typeOf env e).value.isNothing = false ∧ Greatest (ranks env 0 e) (typeOf env e).value := by
  cases h with
  | fits clean known greatest => exact ⟨known, greatest⟩
  | mixed found => exact absurd hm found

theorem Comes.mixed_of_mem {e : Expr} (h : Comes env e) {m : Diagnostic}
    (hm : m ∈ (typeOf env e).mistakes) : ∃ types, m.cause = .mixedArray types := by
  cases h with
  | fits clean => exact absurd (clean ▸ hm) List.not_mem_nil
  | mixed _ only => exact only m hm

theorem ranks_subset_of_mem {e : Expr} {es : List Expr} (h : e ∈ es) :
    ranks env 0 e ⊆ es.flatMap (ranks env 0) :=
  fun _ ht => List.mem_flatMap.2 ⟨e, h, ht⟩

/-- An element whose ranks have no greatest leaves the literal without one. -/
theorem Comes.array_of_mixed {es : List Expr} (h : ∀ e ∈ es, Comes env e)
    (hm : ∃ e ∈ es, (typeOf env e).mistakes ≠ []) (span : Span) : Comes env (.array es span) := by
  obtain ⟨e, he, hm⟩ := hm
  cases h e he with
  | fits clean => exact absurd clean hm
  | mixed found only nothing apart =>
    have hsan : arrayType (es.map fun e => (typeOf env e).value) span = pure .san :=
      arrayType_of_nothing ⟨_, List.mem_map_of_mem he, by rw [nothing]; rfl⟩ span
    have hmistakes := mistakes_array env es span
    rw [hsan, Checked.mistakes_pure, List.append_nil] at hmistakes
    refine .mixed ?_ ?_ ?_ ?_
    · rw [hmistakes]
      exact fun hnil => hm (List.flatMap_eq_nil_iff.1 hnil e he)
    · rw [hmistakes]
      rintro m hmem
      obtain ⟨e', he', hmem⟩ := List.mem_flatMap.1 hmem
      exact (h e' he').mixed_of_mem hmem
    · rw [value_array, hsan]
      rfl
    · rw [ranks_array env (List.ne_nil_of_mem he)]
      exact fun hu => apart (hu.of_arrayOf.mono (ranks_subset_of_mem he))

/-- Elements that have a greatest rank each are compared by it. -/
theorem Comes.array_of_fits {es : List Expr} (h : ∀ e ∈ es, Comes env e)
    (hm : ∀ e ∈ es, (typeOf env e).mistakes = []) (hne : es ≠ []) (span : Span) :
    Comes env (.array es span) := by
  let types := es.map fun e => (typeOf env e).value
  have hknown : ∀ t ∈ types, t.isNothing = false := by
    intro t ht
    obtain ⟨e, he, rfl⟩ := List.mem_map.1 ht
    exact ((h e he).of_mistakes_eq_nil (hm e he)).1
  have hgreatest e (he : e ∈ es) := ((h e he).of_mistakes_eq_nil (hm e he)).2
  have hmistakes : (typeOf env (.array es span)).mistakes = (arrayType types span).mistakes := by
    rw [mistakes_array, List.flatMap_eq_nil_iff.2 hm, List.nil_append]
  by_cases hu : Uniform types
  · obtain ⟨t, ht⟩ := hu.exists_greatest (mt List.map_eq_nil_iff.1 hne)
    have heq := arrayType_of_greatest hknown ht span
    have hvalue : (typeOf env (.array es span)).value = t.arrayOf 1 := by
      rw [value_array, heq]
      rfl
    refine .fits ?_ ?_ ?_
    · rw [hmistakes, heq]
      rfl
    · rw [hvalue, DataType.isNothing, Bool.and_eq_false_iff]
      exact .inr rfl
    · rw [hvalue, ranks_array env hne]
      exact (ht.flatMap hgreatest).arrayOf 1
  · have heq := arrayType_of_not_uniform hknown hu span
    rw [heq] at hmistakes
    refine .mixed ?_ ?_ ?_ ?_
    · rw [hmistakes]
      exact List.cons_ne_nil _ _
    · rw [hmistakes]
      rintro m hmem
      cases List.mem_singleton.1 hmem
      exact ⟨_, rfl⟩
    · rw [value_array]
      exact congrArg Checked.value heq
    · rw [ranks_array env hne]
      refine fun hr => hu (hr.of_arrayOf.mono fun t ht => ?_)
      obtain ⟨e, he, rfl⟩ := List.mem_map.1 ht
      exact ranks_subset_of_mem he (hgreatest e he).1

theorem Comes.array {es : List Expr} (h : ∀ e ∈ es, Comes env e) (span : Span) :
    Comes env (.array es span) := by
  by_cases hne : es = []
  · obtain rfl := hne
    exact .fits rfl rfl ⟨List.mem_singleton_self _, fun u hu => .inl (List.mem_singleton.1 hu)⟩
  · by_cases hm : ∀ e ∈ es, (typeOf env e).mistakes = []
    · exact array_of_fits h hm hne span
    · push Not at hm
      exact array_of_mixed h hm span

theorem Comes.leaf {e : Expr} (hranks : ranks env 0 e = [(typeOf env e).value.arrayOf 0])
    (h : Known env [e]) : Comes env e := by
  obtain ⟨hclean, hknown⟩ := h e (List.mem_singleton_self e)
  refine .fits hclean hknown ⟨?_, fun u hu => .inl ?_⟩
  · rw [hranks]
    exact List.mem_singleton_self _
  · rw [hranks] at hu
    exact List.mem_singleton.1 hu

mutual

theorem comes : ∀ e : Expr, Known env e.leaves → Comes env e
  | .array es span, h => .array (comes_all es h) span
  | .literal _ _, h | .format _ _, h | .input _ _, h | .prefixed _ _ _, h | .infixed _ _ _ _, h
  | .postfixed _ _ _, h | .place _, h => .leaf rfl h

theorem comes_all : ∀ es : List Expr, Known env (leavesOf es) → ∀ e ∈ es, Comes env e
  | [], _ => fun _ he => absurd he List.not_mem_nil
  | e :: es, h => List.forall_mem_cons.2
    ⟨comes e fun l hl => h l (List.mem_append_left _ hl),
      comes_all es fun l hl => h l (List.mem_append_right _ hl)⟩

end

theorem Comes.unmixed_iff {e : Expr} (h : Comes env e) :
    Unmixed env e ↔ Uniform (ranks env 0 e) := by
  cases h with
  | fits clean known greatest =>
    refine iff_of_true (fun m hm => ?_) greatest.uniform
    exact absurd (clean ▸ hm) List.not_mem_nil
  | mixed found only nothing apart =>
    refine iff_of_false (fun hn => ?_) apart
    obtain ⟨m, hm⟩ := List.exists_mem_of_ne_nil _ found
    obtain ⟨types, hc⟩ := only m hm
    exact hn m hm types hc

/-- Uniform ranks have a greatest, which is the type. -/
theorem Comes.greatest {e : Expr} (h : Comes env e) (hu : Uniform (ranks env 0 e)) :
    Greatest (ranks env 0 e) (typeOf env e).value := by
  cases h with
  | fits _ _ greatest => exact greatest
  | mixed _ _ _ apart => exact absurd hu apart

theorem Comes.value_eq_san {e : Expr} (h : Comes env e) (hu : ¬ Uniform (ranks env 0 e)) :
    (typeOf env e).value = .san := by
  cases h with
  | fits _ _ greatest => exact absurd greatest.uniform hu
  | mixed _ _ nothing => exact nothing

/-! ### Other orders, and no leaves -/

theorem Shuffled.leaves_perm {e e' : Expr} (h : Shuffled e e') : e.leaves.Perm e'.leaves := by
  induction h with
  | refl e => exact .refl _
  | elements h span span' =>
    rw [Expr.leaves, Expr.leaves, leavesOf_eq, leavesOf_eq]
    exact h.flatMap_right _
  | within before after span _ ih =>
    simp only [Expr.leaves, leavesOf_eq, List.flatMap_append, List.flatMap_cons]
    exact (ih.append_right _).append_left _
  | trans _ _ ih ih' => exact ih.trans ih'

theorem Shuffled.ranks_perm {e e' : Expr} (h : Shuffled e e') (level : Nat) :
    (ranks env level e).Perm (ranks env level e') := by
  induction h generalizing level with
  | refl e => exact .refl _
  | elements h span span' =>
    rw [ranks, ranks, h.isEmpty_eq, ranksOf_eq, ranksOf_eq]
    split
    · exact .refl _
    · exact h.flatMap_right _
  | within before after span _ ih =>
    rw [ranks, ranks, if_neg (by simp), if_neg (by simp)]
    simp only [ranksOf_eq, List.flatMap_append, List.flatMap_cons]
    exact ((ih _).append_right _).append_left _
  | trans _ _ ih ih' => exact (ih level).trans (ih' level)

theorem Uniform.perm {ts us : List DataType} (h : ts.Perm us) : Uniform us ↔ Uniform ts :=
  ⟨fun hu => hu.mono h.subset, fun hu => hu.mono h.symm.subset⟩

theorem Shuffled.known {e e' : Expr} (h : Shuffled e e') (hk : Known env e.leaves) :
    Known env e'.leaves :=
  fun l hl => hk l (h.leaves_perm.symm.subset hl)

theorem Shuffled.value_eq {e e' : Expr} (h : Shuffled e e') (hk : Known env e.leaves) :
    (typeOf env e').value = (typeOf env e).value := by
  have hcomes := comes e hk
  have hcomes' := comes e' (h.known hk)
  have hperm : (ranks env 0 e).Perm (ranks env 0 e') := h.ranks_perm 0
  by_cases hu : Uniform (ranks env 0 e)
  · obtain ⟨hmem, habove⟩ := hcomes'.greatest ((Uniform.perm hperm).2 hu)
    refine Greatest.unique ⟨hperm.symm.subset hmem, fun u hu => ?_⟩ (hcomes.greatest hu)
    exact habove u (hperm.subset hu)
  · rw [hcomes.value_eq_san hu, hcomes'.value_eq_san (mt (Uniform.perm hperm).1 hu)]

theorem Shuffled.unmixed_iff {e e' : Expr} (h : Shuffled e e') (hk : Known env e.leaves) :
    Unmixed env e' ↔ Unmixed env e := by
  rw [(comes e hk).unmixed_iff, (comes e' (h.known hk)).unmixed_iff]
  exact Uniform.perm (h.ranks_perm 0)

theorem Greatest.append_blankArray {ts us : List DataType} {m n : Nat}
    (h : Greatest ts (.blankArray m)) (h' : Greatest us (.blankArray n)) :
    Greatest (ts ++ us) (.blankArray (max m n)) := by
  have hm : Under (.blankArray m) (.blankArray (max m n)) := .inr ⟨rfl, Nat.le_max_left ..⟩
  have hn : Under (.blankArray n) (.blankArray (max m n)) := .inr ⟨rfl, Nat.le_max_right ..⟩
  refine ⟨?_, fun u hu => ?_⟩
  · rcases Nat.le_total m n with hle | hle
    · rw [Nat.max_eq_right hle]
      exact List.mem_append_right _ h'.1
    · rw [Nat.max_eq_left hle]
      exact List.mem_append_left _ h.1
  · rcases List.mem_append.1 hu with hu | hu
    · exact (h.2 u hu).trans hm
    · exact (h'.2 u hu).trans hn

mutual

/-- Without leaves the deepest literal without elements is the greatest. -/
theorem greatest_blankArray : ∀ e : Expr, e.leaves = [] →
    Greatest (ranks env 0 e) (.blankArray e.arrayDepth)
  | .array [] _, _ => ⟨List.mem_singleton_self _, fun _ hu => .inl (List.mem_singleton.1 hu)⟩
  | .array (e :: es) span, h => by
    rw [ranks_array env (List.cons_ne_nil e es), Expr.arrayDepth, Nat.add_comm]
    exact (greatest_blankArrays (e :: es) h (List.cons_ne_nil e es)).arrayOf 1

theorem greatest_blankArrays : ∀ es : List Expr, leavesOf es = [] → es ≠ [] →
    Greatest (es.flatMap (ranks env 0)) (.blankArray (arrayDepths es))
  | [e], h, _ => by
    rw [arrayDepths, arrayDepths, Nat.max_zero, List.flatMap_singleton]
    exact greatest_blankArray e (List.append_eq_nil_iff.1 h).1
  | e :: e' :: es, h, _ => by
    obtain ⟨he, hes⟩ := List.append_eq_nil_iff.1 h
    exact (greatest_blankArray e he).append_blankArray
      (greatest_blankArrays (e' :: es) hes (List.cons_ne_nil e' es))

end

/-- A nested literal whose leaves have types is accepted just when its ranks are uniform, whatever
the order of the elements is, and its type is then the greatest of them. -/
theorem nestedArray_typed (env : Env) (es : List Expr) (span : Span)
    (h : Known env (leavesOf es)) :
    let e := Expr.array es span
    let type := (typeOf env e).value
    (Unmixed env e ↔ Uniform (ranks env 0 e)) ∧
      (Uniform (ranks env 0 e) → ∀ t ∈ ranks env 0 e, t.base ≠ .san → type = t) ∧
      ((∀ t ∈ ranks env 0 e, t.base = .san) →
        type.base = .san ∧ IsGreatest {d | ∃ t ∈ ranks env 0 e, t.dimension = d} type.dimension) ∧
      (leavesOf es = [] → type = .blankArray e.arrayDepth) ∧
      ∀ e', Shuffled e e' →
        (Unmixed env e' ↔ Unmixed env e) ∧ (typeOf env e').value = type := by
  intro e type
  have hcomes : Comes env e := comes e h
  refine ⟨hcomes.unmixed_iff, fun hu t ht hb => ?_, fun hb => ?_, fun hnil => ?_, fun e' hs => ?_⟩
  · exact (((hcomes.greatest hu).2 t ht).resolve_right fun hsan => hb hsan.1).symm
  · obtain ⟨hmem, habove⟩ := hcomes.greatest (uniform_of_base_eq_san hb)
    refine ⟨hb _ hmem, ⟨_, hmem, rfl⟩, ?_⟩
    rintro d ⟨t, ht, rfl⟩
    rcases habove t ht with heq | hle
    · exact Nat.le_of_eq (congrArg DataType.dimension heq)
    · exact hle.2
  · have hgreatest : Greatest (ranks env 0 e) (.blankArray e.arrayDepth) :=
      greatest_blankArray e hnil
    exact (hcomes.greatest hgreatest.uniform).unique hgreatest
  · exact ⟨hs.unmixed_iff h, hs.value_eq h⟩

/-- The elements of `{{}, {1, 2}}`. -/
def blankThenNumbers : List Expr :=
  [.array [] ⟨⟨0, 1⟩, ⟨0, 2⟩⟩,
    .array [.literal (.int 1) ⟨⟨0, 6⟩, ⟨0, 6⟩⟩, .literal (.int 2) ⟨⟨0, 9⟩, ⟨0, 9⟩⟩]
      ⟨⟨0, 5⟩, ⟨0, 10⟩⟩]

theorem blankThenNumbers_typed :
    let env : Env := ⟨.empty, none, .empty, []⟩
    let span : Span := ⟨⟨0, 0⟩, ⟨0, 11⟩⟩
    Known env (leavesOf blankThenNumbers) ∧ Unmixed env (.array blankThenNumbers span) ∧
      (typeOf env (.array blankThenNumbers span)).value = ⟨.chan, 2⟩ ∧
      (typeOf env (.array blankThenNumbers.reverse span)).value = ⟨.chan, 2⟩ := by
  intro env span
  have hknown : Known env (leavesOf blankThenNumbers) :=
    List.forall_mem_cons.2 ⟨⟨rfl, rfl⟩, List.forall_mem_cons.2 ⟨⟨rfl, rfl⟩, List.forall_mem_nil _⟩⟩
  obtain ⟨hiff, hbased, -, -, hshuffled⟩ := nestedArray_typed env blankThenNumbers span hknown
  have huniform : Uniform (ranks env 0 (.array blankThenNumbers span)) :=
    ⟨.chan, 2, by decide⟩
  have htype := hbased huniform ⟨.chan, 2⟩ (by decide) (by decide)
  have hreverse := hshuffled _ (.elements (List.reverse_perm blankThenNumbers).symm span span)
  exact ⟨hknown, hiff.2 huniform, htype, hreverse.2.trans htype⟩

end Nested

end Typing

end Uwu
