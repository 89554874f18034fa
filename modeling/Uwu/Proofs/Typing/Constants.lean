import Uwu.Proofs.Stages
import Uwu.Proofs.Typing.Bodies

/-! Programs that compile write no constants, except in initialisers: in the value of a global or a
property, a path that starts from a variable declared there or later is not looked at. -/

namespace Uwu

namespace Typing

/-! ### More declarations -/

/-- The variables of `earlier` are the same in `vars`. -/
def Variables.Within (earlier vars : Variables) : Prop :=
  ∀ name v, earlier.get? name = some v → vars.get? name = some v

theorem Variables.within_declare (vars : Variables) (d : Declaration) :
    vars.Within (vars.declare d) := by
  intro name v hv
  rw [Variables.declare, Table.get?_addNew]
  split
  next hn =>
    rw [← eq_of_beq hn, hv]
    rfl
  next => exact hv

theorem Variables.within_foldl_declare (ds : List Declaration) (vars : Variables) :
    vars.Within (ds.foldl declare vars) := by
  induction ds generalizing vars with
  | nil => exact fun _ _ hv => hv
  | cons d ds ih => exact fun name v hv => ih (vars.declare d) name v (vars.within_declare d name v hv)

section Within

variable {signatures : Signatures} {cls : Option String} {earlier vars : Variables}

theorem get?_eq_of_within (h : earlier.Within vars) {name : String}
    (hn : earlier.contains name) : earlier.get? name = vars.get? name := by
  obtain ⟨v, hv⟩ := Option.isSome_iff_exists.1 hn
  rw [hv, h name v hv]

theorem rootOf?_eq_of_within (h : earlier.Within vars) {l : Link}
    (hn : ∀ n, rootVariable? (.link l) = some n → earlier.contains n.value) :
    rootOf? signatures cls earlier l = rootOf? signatures cls vars l := by
  cases l with
  | name n => rw [rootOf?_name, rootOf?_name, get?_eq_of_within h (hn n rfl)]
  | indexed n es span => rw [rootOf?_indexed, rootOf?_indexed, get?_eq_of_within h (hn n rfl)]
  | call n es span => rfl

theorem pathType_eq_of_within (h : earlier.Within vars) : ∀ {p : Place},
    (∀ n, rootVariable? p = some n → earlier.contains n.value) →
      pathType signatures cls earlier p = pathType signatures cls vars p
  | .link l, hn => by rw [pathType, pathType, rootOf?_eq_of_within h hn]
  | .construct .., _ => rfl
  | .member object l _, hn => by rw [pathType, pathType, pathType_eq_of_within (p := object) h hn]

/-- What a path ends in does not depend on what is declared after the variable it starts from. -/
theorem endsInConstant_eq_of_within (h : earlier.Within vars) {p : Place}
    (hn : ∀ n, rootVariable? p = some n → earlier.contains n.value) :
    endsInConstant signatures cls earlier p = endsInConstant signatures cls vars p := by
  unfold endsInConstant
  cases p with
  | link l => rw [declarationOf?, declarationOf?, rootOf?_eq_of_within h hn]
  | construct => rfl
  | member object l span => rw [declarationOf?, declarationOf?, pathType_eq_of_within (p := object) h hn]

end Within

theorem Write.contains_of_not_isForward {w : Write} (h : ¬w.isForward) (n : Name)
    (hn : rootVariable? w.target = some n) : w.earlier.contains n.value := by
  unfold isForward at h
  rw [hn, Option.any_some, Bool.not_eq_true', Bool.not_eq_false] at h
  exact h

/-! ### What is declared before a write -/

theorem within_initialiserWrites {cls : Option String} {visible : Variables}
    {ds : List Declaration} {earlier : Variables}
    (h : (ds.foldl Variables.declare earlier).Within visible) :
    ∀ w ∈ initialiserWrites cls visible ds earlier, w.earlier.Within w.vars := by
  induction ds generalizing earlier with
  | nil => exact List.forall_mem_nil _
  | cons d ds ih =>
    refine List.forall_mem_append.2 ⟨List.forall_mem_map.2 fun target _ => ?_, ih h⟩
    intro name v hv
    exact h name v (Variables.within_foldl_declare (d :: ds) earlier name v hv)

theorem earlier_writesTo {cls : Option String} {vars : Variables} {targets : List Place} :
    ∀ w ∈ writesTo cls vars targets, w.earlier = w.vars :=
  List.forall_mem_map.2 fun _ _ => rfl

section Bodies

variable {cls : Option String}

mutual

theorem earlier_stmtWrites : ∀ {st : Stmt} {vars : Variables},
    ∀ w ∈ stmtWrites cls st vars, w.earlier = w.vars
  | .declare _, _ | .assign _, _ | .evaluate _ _, _ | .print _ _, _ | .leave (some _) _, _ => by
    rw [stmtWrites]
    exact earlier_writesTo
  | .branch condition body elseIfs none _, vars => by
    rw [stmtWrites, List.append_nil]
    exact List.forall_mem_append.2 ⟨List.forall_mem_append.2 ⟨earlier_writesTo,
      earlier_blockWrites⟩, earlier_elseIfWrites⟩
  | .branch condition body elseIfs (some b) _, vars => by
    rw [stmtWrites]
    exact List.forall_mem_append.2 ⟨List.forall_mem_append.2 ⟨List.forall_mem_append.2
      ⟨earlier_writesTo, earlier_blockWrites⟩, earlier_elseIfWrites⟩, earlier_blockWrites⟩
  | .repeatWhile _ condition body _, vars => by
    rw [stmtWrites]
    exact List.forall_mem_append.2 ⟨earlier_writesTo, earlier_blockWrites⟩
  | .count start condition update body _, vars => by
    rw [stmtWrites]
    exact List.forall_mem_append.2 ⟨List.forall_mem_append.2 ⟨earlier_writesTo,
      earlier_writesTo⟩, earlier_blockWrites⟩
  | .leave none _, _ | .stop _, _ => by
    rw [stmtWrites]
    exact List.forall_mem_nil _

theorem earlier_blockWrites : ∀ {b : Block} {vars : Variables},
    ∀ w ∈ blockWrites cls b vars, w.earlier = w.vars
  | ⟨body, _⟩, vars => by
    rw [blockWrites]
    exact earlier_stmtsWrites

theorem earlier_stmtsWrites : ∀ {sts : List Stmt} {vars : Variables},
    ∀ w ∈ stmtsWrites cls sts vars, w.earlier = w.vars
  | [], _ => by
    rw [stmtsWrites]
    exact List.forall_mem_nil _
  | st :: sts, vars => by
    rw [stmtsWrites]
    exact List.forall_mem_append.2 ⟨earlier_stmtWrites, earlier_stmtsWrites⟩

theorem earlier_elseIfWrites : ∀ {es : List ElseIf} {vars : Variables},
    ∀ w ∈ elseIfWrites cls es vars, w.earlier = w.vars
  | [], _ => by
    rw [elseIfWrites]
    exact List.forall_mem_nil _
  | ⟨condition, body, _⟩ :: es, vars => by
    rw [elseIfWrites]
    exact List.forall_mem_append.2 ⟨List.forall_mem_append.2 ⟨earlier_writesTo,
      earlier_blockWrites⟩, earlier_elseIfWrites⟩

end

end Bodies

end Typing

open Typing

/-! ### Programs that compile -/

/-- Without mistakes in types no write hits what is a constant by the declarations before it. -/
theorem kept_writes {p : Program} (h : p.checkTypes.mistakes = []) :
    Kept (Signatures.ofProgram p) p.writes :=
  (checkProgram_kept p .initial h).2

theorem earlier_bodyWrites (p : Program) : ∀ w ∈ p.bodyWrites, w.earlier = w.vars := by
  refine List.forall_mem_append.2 ⟨?_, ?_⟩
  · exact List.forall_mem_flatMap.2 fun f _ => earlier_blockWrites
  · exact List.forall_mem_flatMap.2 fun c _ => List.forall_mem_flatMap.2 fun f _ =>
      earlier_blockWrites

theorem within_programInitialisers (p : Program) :
    ∀ w ∈ p.initialiserWrites, w.earlier.Within w.vars := by
  refine List.forall_mem_append.2 ⟨?_, ?_⟩
  · exact within_initialiserWrites fun _ _ hv => hv
  · exact List.forall_mem_flatMap.2 fun c _ => within_initialiserWrites fun _ _ hv => hv

theorem not_hitsConstant_of_bodyWrites {p : Program} (h : p.checkTypes.mistakes = []) :
    ∀ w ∈ p.bodyWrites, w.hitsConstant p = false := by
  intro w hw
  have hk := kept_writes h w (List.mem_append_right _ hw)
  rw [earlier_bodyWrites p w hw] at hk
  exact hk

theorem not_hitsConstant_of_not_isForward {p : Program} (h : p.checkTypes.mistakes = [])
    {w : Write} (hw : w ∈ p.initialiserWrites) (hf : ¬w.isForward) : w.hitsConstant p = false := by
  have hk := kept_writes h w (List.mem_append_left _ hw)
  rw [endsInConstant_eq_of_within (within_programInitialisers p w hw)
    (Write.contains_of_not_isForward hf)] at hk
  exact hk

/-- In the bodies of a program that compiles no constant is written, and none at all exactly if no
initialiser writes one by a path that starts from a variable declared with it or later. -/
theorem constants_kept_iff {source : String} {names : Names} {p : Program}
    (h : (compile source names).outcome = .ok p) :
    (∀ w ∈ p.bodyWrites, w.hitsConstant p = false) ∧
      ((∀ w ∈ p.writes, w.hitsConstant p = false) ↔
        ∀ w ∈ p.initialiserWrites, w.isForward → w.hitsConstant p = false) := by
  have ht := (Program.mistakes_eq_nil.1 (compile_eq_ok.1 h).2.2).2
  have hb := not_hitsConstant_of_bodyWrites ht
  refine ⟨hb, ?_, ?_⟩
  · intro hall w hw _
    exact hall w (List.mem_append_left _ hw)
  · intro hi
    refine List.forall_mem_append.2 ⟨?_, hb⟩
    intro w hw
    by_cases hf : w.isForward
    · exact hi w hw hf
    · exact not_hitsConstant_of_not_isForward ht hw hf

/-- A program with a constant `k` that writes `n` twice, in the value of `m` and in its entry. -/
def keptConstant : String :=
  "gwobaw k-chan-dono = 3~\ngwobaw n-chan = 1~\ngwobaw m-chan = n++~\n" ++
    "fwunc mainuwu-san() [[\nn = k~\n]]\n"

theorem keptConstant_notWritten : ∃ p, (compile keptConstant .empty).outcome = .ok p ∧
    p.writes.length = 2 ∧ ∀ w ∈ p.writes, w.hitsConstant p = false := by
  have hs : keptConstant.toList = _ := toList_append_of_eq (toList_of_eq rfl) (toList_of_eq rfl)
  obtain ⟨p, hp, ht⟩ := exists_compiled keptConstant .empty
    (fun p => p.writes.length == 2 && p.initialiserWrites.all fun w => !w.isForward) hs
    (by decide +kernel)
  rw [Bool.and_eq_true, beq_iff_eq, List.all_eq_true] at ht
  refine ⟨p, hp, ht.1, (constants_kept_iff hp).2.2 fun w hw hf => ?_⟩
  have hn := ht.2 w hw
  rw [hf] at hn
  cases hn

/-- A program that writes the constant `b` in the value of `a`, which is declared before `b`. -/
def laterConstant : String :=
  "gwobaw a-chan = b++~\ngwobaw b-chan-dono = 1~\nfwunc mainuwu-san() [[\n]]\n"

theorem laterConstant_written : ∃ p, (compile laterConstant .empty).outcome = .ok p ∧
    ∃ w ∈ p.writes, w.hitsConstant p = true := by
  obtain ⟨p, hp, ht⟩ := exists_compiled laterConstant .empty
    (fun p => p.writes.any (Write.hitsConstant p)) (toList_of_eq rfl) (by decide +kernel)
  exact ⟨p, hp, List.any_eq_true.1 ht⟩

end Uwu
