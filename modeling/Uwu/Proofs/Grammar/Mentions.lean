import Uwu.Proofs.Grammar.SourceOrder
import Uwu.Proofs.Lexeme.ClassNames

/-! What stands among the signs of a program: the names that it declares and the types that it
writes are there, and the class keyword is there only before the names of its classes. -/

namespace Uwu

open Grammar

variable (names : Names)

/-! ### Declarations -/

/-- The name and the type of a declaration are among the signs. -/
def Mentions (xs : List Sign) (d : Declaration) : Prop :=
  nameSign names d.name.value ∈ xs ∧ baseSign d.type.base ∈ xs

variable {names} {xs ys : List Sign}

theorem Mentions.mono {d : Declaration} (h : Mentions names xs d) (hsub : xs ⊆ ys) :
    Mentions names ys d :=
  ⟨hsub h.1, hsub h.2⟩

theorem baseSign_mem (t : DataType) : baseSign t.base ∈ typeSigns t :=
  List.mem_cons_self

theorem mentions_declarationSigns (d : Declaration) :
    Mentions names (declarationSigns names d) d := by
  refine ⟨List.mem_cons_self, ?_⟩
  rw [declarationSigns]
  simp [baseSign_mem]

variable (names)

/-- So are those of all declarations before the points and at them. -/
def MentionsAll (xs : List Sign) (pts : List Point) : Prop :=
  ∀ pt ∈ pts, ∀ d ∈ pt.before ++ pt.clause.declarations, Mentions names xs d

variable {names} {pts qts : List Point}

theorem MentionsAll.mono (h : MentionsAll names xs pts) (hsub : xs ⊆ ys) :
    MentionsAll names ys pts :=
  fun pt hpt d hd => (h pt hpt d hd).mono hsub

theorem MentionsAll.append (h : MentionsAll names xs pts) (h' : MentionsAll names xs qts) :
    MentionsAll names xs (pts ++ qts) :=
  List.forall_mem_append.2 ⟨h, h'⟩

theorem mentionsAll_here {c : Clause} (hc : ∀ d ∈ c.declarations, Mentions names xs d)
    (h : MentionsAll names xs pts) : MentionsAll names xs (.here c :: pts) :=
  List.forall_mem_cons.2 ⟨fun d hd => hc d hd, h⟩

theorem MentionsAll.behind {ds : List Declaration} (hds : ∀ d ∈ ds, Mentions names xs d)
    (h : MentionsAll names xs pts) : MentionsAll names xs (pts.map (Point.behind ds)) := by
  refine List.forall_mem_map.2 fun pt hpt d hd => ?_
  rw [Point.behind, List.append_assoc, List.mem_append] at hd
  exact hd.elim (hds d) (h pt hpt d)

theorem mentionsAll_nil : MentionsAll names xs [] :=
  List.forall_mem_nil _

theorem mentions_start (start : LoopStart) :
    ∀ d ∈ start.declarations, Mentions names (startSigns names start) d := by
  cases start with
  | declare d =>
    refine List.forall_mem_singleton.2 ?_
    exact mentions_declarationSigns d
  | assign a => exact List.forall_mem_nil _

theorem mentions_declarations (st : Stmt) :
    ∀ d ∈ st.declarations, Mentions names (stmtSigns names st) d := by
  cases st with
  | declare d =>
    rw [stmtSigns]
    exact List.forall_mem_singleton.2 (mentions_declarationSigns d)
  | _ => exact List.forall_mem_nil _

mutual

theorem Stmt.mentionsAll : ∀ st : Stmt, MentionsAll names (stmtSigns names st) st.points
  | .declare d => by
    rw [stmtSigns, Stmt.points]
    exact mentionsAll_here (List.forall_mem_singleton.2 (mentions_declarationSigns d))
      mentionsAll_nil
  | .assign _ | .evaluate _ _ | .print _ _ | .leave _ _ | .stop _ => by
    rw [Stmt.points]
    exact mentionsAll_here (List.forall_mem_nil _) mentionsAll_nil
  | .branch condition body elseIfs none _ => by
    rw [stmtSigns, Stmt.points]
    refine mentionsAll_here (List.forall_mem_nil _) (.append (.append ?_ ?_) mentionsAll_nil)
    · exact (Block.mentionsAll body).mono fun _ hx => by simp [hx]
    · exact (elseIfs_mentionsAll elseIfs).mono fun _ hx => by simp [hx]
  | .branch condition body elseIfs (some b) _ => by
    rw [stmtSigns, Stmt.points, elseSigns]
    refine mentionsAll_here (List.forall_mem_nil _) (.append (.append ?_ ?_) ?_)
    · exact (Block.mentionsAll body).mono fun _ hx => by simp [hx]
    · exact (elseIfs_mentionsAll elseIfs).mono fun _ hx => by simp [hx]
    · exact (Block.mentionsAll b).mono fun _ hx => by simp [hx]
  | .repeatWhile _ condition body _ => by
    rw [stmtSigns, Stmt.points]
    refine mentionsAll_here (List.forall_mem_nil _) ?_
    exact (Block.mentionsAll body).mono fun _ hx => by simp [hx]
  | .count start condition update body span => by
    have hstart : ∀ d ∈ start.declarations,
        Mentions names (stmtSigns names (.count start condition update body span)) d := by
      intro d hd
      rw [stmtSigns]
      exact (mentions_start start d hd).mono fun _ hx => by simp [hx]
    rw [Stmt.points]
    refine mentionsAll_here hstart (.behind hstart ?_)
    refine mentionsAll_here (List.forall_mem_nil _) (mentionsAll_here (List.forall_mem_nil _) ?_)
    rw [stmtSigns]
    exact (Block.mentionsAll body).mono fun _ hx => by simp [hx]

theorem Block.mentionsAll : ∀ b : Block, MentionsAll names (blockSigns names b) b.points
  | ⟨body, _⟩ => by
    rw [blockSigns, Block.points]
    exact (stmts_mentionsAll body).mono fun _ hx => by simp [hx]

theorem stmts_mentionsAll : ∀ sts : List Stmt,
    MentionsAll names (stmtsSigns names sts) (stmtsPoints sts)
  | [] => mentionsAll_here (List.forall_mem_nil _) mentionsAll_nil
  | st :: sts => by
    rw [stmtsSigns, stmtsPoints]
    refine .append ?_ (.behind (fun d hd => ?_) ?_)
    · exact (Stmt.mentionsAll st).mono fun _ hx => by simp [hx]
    · exact (mentions_declarations st d hd).mono fun _ hx => by simp [hx]
    · exact (stmts_mentionsAll sts).mono fun _ hx => by simp [hx]

theorem elseIfs_mentionsAll : ∀ es : List ElseIf,
    MentionsAll names (elseIfSigns names es) (elseIfPoints es)
  | [] => mentionsAll_nil
  | ⟨condition, body, _⟩ :: es => by
    rw [elseIfSigns, elseIfPoints]
    refine mentionsAll_here (List.forall_mem_nil _) (.append ?_ ?_)
    · exact (Block.mentionsAll body).mono fun _ hx => by simp [hx]
    · exact (elseIfs_mentionsAll es).mono fun _ hx => by simp [hx]

end

/-! ### The class keyword -/

def Sign.isClassKeyword : Sign → Bool
  | .word w => w.kind == .keyword .cwass
  | _ => false

namespace Grammar

@[simp]
theorem isClassKeyword_symbol (x : Symbol) : x.sign.isClassKeyword = false := rfl

@[simp]
theorem isClassKeyword_keyword (k : Keyword) : k.sign.isClassKeyword = (k == .cwass) := by
  cases k <;> rfl

@[simp]
theorem isClassKeyword_nameSign (name : String) :
    (nameSign names name).isClassKeyword = false := rfl

@[simp]
theorem isClassKeyword_classSign (name : String) :
    (classSign names name).isClassKeyword = false := rfl

@[simp]
theorem isClassKeyword_text (kind : Kind) (text : String) :
    (Sign.text kind text).isClassKeyword = false := rfl

@[simp]
theorem isClassKeyword_literalSign (v : Literal) : (literalSign v).isClassKeyword = false := by
  cases v with
  | bool b => cases b <;> rfl
  | _ => rfl

@[simp]
theorem isClassKeyword_prefixOp (op : PrefixOp) : (kindSign op.kind).isClassKeyword = false := by
  cases op <;> rfl

@[simp]
theorem isClassKeyword_infixOp (op : InfixOp) : (kindSign op.kind).isClassKeyword = false := by
  cases op <;> rfl

@[simp]
theorem isClassKeyword_postfixOp (op : PostfixOp) : (kindSign op.kind).isClassKeyword = false := by
  cases op <;> rfl

@[simp]
theorem isClassKeyword_assignOp (op : AssignOp) : (kindSign op.kind).isClassKeyword = false := by
  cases op <;> rfl

@[simp]
theorem isClassKeyword_baseSign (b : BaseType) : (baseSign b).isClassKeyword = false := by
  cases b <;> rfl

variable (names)

mutual

theorem any_exprSigns : ∀ e : Expr, (exprSigns names e).any Sign.isClassKeyword = false
  | .literal v _ => by simp [exprSigns]
  | .format ss _ => by
    rw [exprSigns]
    exact any_segmentSigns ss _ _
  | .input prompt _ => by simp [exprSigns, any_promptSigns prompt]
  | .array es _ => by simp [exprSigns, any_listSigns es]
  | .prefixed op e _ => by simp [exprSigns, any_exprSigns e]
  | .infixed l op r _ => by simp [exprSigns, any_exprSigns l, any_exprSigns r]
  | .postfixed p op _ => by simp [exprSigns, any_placeSigns p]
  | .place p => by
    rw [exprSigns]
    exact any_placeSigns p

theorem any_promptSigns : ∀ e : Option Expr, (promptSigns names e).any Sign.isClassKeyword = false
  | none => rfl
  | some e => by
    rw [promptSigns]
    exact any_exprSigns e

theorem any_listSigns : ∀ es : List Expr, (listSigns names es).any Sign.isClassKeyword = false
  | [] => rfl
  | e :: es => by
    rw [listSigns, List.any_append, any_exprSigns e, any_tailSigns es]
    rfl

theorem any_tailSigns : ∀ es : List Expr, (tailSigns names es).any Sign.isClassKeyword = false
  | [] => rfl
  | e :: es => by simp [tailSigns, any_exprSigns e, any_tailSigns es]

theorem any_segmentSigns : ∀ (ss : List Segment) (kind : Kind) (text : String),
    (segmentSigns names kind text ss).any Sign.isClassKeyword = false
  | [], _, _ => by simp [segmentSigns]
  | .text s :: ss, kind, text => by
    rw [segmentSigns]
    exact any_segmentSigns ss kind _
  | .expr e :: ss, _, _ => by simp [segmentSigns, any_exprSigns e, any_segmentSigns ss]

theorem any_indexSigns : ∀ es : List Expr, (indexSigns names es).any Sign.isClassKeyword = false
  | [] => rfl
  | e :: es => by simp [indexSigns, any_exprSigns e, any_indexSigns es]

theorem any_linkSigns : ∀ l : Link, (linkSigns names l).any Sign.isClassKeyword = false
  | .name n => by simp [linkSigns]
  | .indexed n es _ => by simp [linkSigns, any_indexSigns es]
  | .call n es _ => by simp [linkSigns, any_listSigns es]

theorem any_placeSigns : ∀ p : Place, (placeSigns names p).any Sign.isClassKeyword = false
  | .link l => by
    rw [placeSigns]
    exact any_linkSigns l
  | .construct c es _ => by simp [placeSigns, any_listSigns es]
  | .member p l _ => by simp [placeSigns, any_placeSigns p, any_linkSigns l]

end

theorem any_typeSigns (t : DataType) : (typeSigns t).any Sign.isClassKeyword = false := by
  simp [typeSigns]

theorem any_declarationSigns (d : Declaration) :
    (declarationSigns names d).any Sign.isClassKeyword = false := by
  have hvalue : (valueSigns names d.value).any Sign.isClassKeyword = false := by
    cases d.value with
    | none => rfl
    | some e => simp [valueSigns, any_exprSigns names e]
  have hconst : (constSigns d.isConst).any Sign.isClassKeyword = false := by
    cases d.isConst <;> rfl
  simp [declarationSigns, any_typeSigns, hvalue, hconst]

theorem any_assignmentSigns (a : Assignment) :
    (assignmentSigns names a).any Sign.isClassKeyword = false := by
  simp [assignmentSigns, any_placeSigns, any_exprSigns]

theorem any_startSigns (s : LoopStart) : (startSigns names s).any Sign.isClassKeyword = false := by
  cases s with
  | declare d => exact any_declarationSigns names d
  | assign a => simp [startSigns, any_assignmentSigns]

theorem any_updateSigns (u : LoopUpdate) :
    (updateSigns names u).any Sign.isClassKeyword = false := by
  cases u with
  | assign a => exact any_assignmentSigns names a
  | postfixed p op span => simp [updateSigns, any_placeSigns]

theorem any_conditionSigns (e : Expr) :
    (conditionSigns names e).any Sign.isClassKeyword = false := by
  simp [conditionSigns, any_exprSigns]

mutual

theorem any_stmtSigns : ∀ st : Stmt, (stmtSigns names st).any Sign.isClassKeyword = false
  | .declare d => by
    rw [stmtSigns]
    exact any_declarationSigns names d
  | .assign a => by simp [stmtSigns, any_assignmentSigns]
  | .evaluate e _ => by simp [stmtSigns, any_exprSigns]
  | .print es _ => by simp [stmtSigns, any_listSigns]
  | .branch e body elseIfs elseBody _ => by
    simp [stmtSigns, any_conditionSigns, any_blockSigns body, any_elseIfSigns elseIfs,
      any_elseSigns elseBody]
  | .repeatWhile bodyFirst e body _ => by
    cases bodyFirst <;> simp [stmtSigns, any_conditionSigns, any_blockSigns body]
  | .count start e update body _ => by
    simp [stmtSigns, any_startSigns, any_exprSigns, any_updateSigns, any_blockSigns body]
  | .leave value _ => by simp [stmtSigns, any_promptSigns]
  | .stop _ => by simp [stmtSigns]

theorem any_blockSigns : ∀ b : Block, (blockSigns names b).any Sign.isClassKeyword = false
  | ⟨body, _⟩ => by simp [blockSigns, any_stmtsSigns body]

theorem any_stmtsSigns : ∀ sts : List Stmt, (stmtsSigns names sts).any Sign.isClassKeyword = false
  | [] => rfl
  | st :: sts => by
    rw [stmtsSigns, List.any_append, any_stmtSigns st, any_stmtsSigns sts]
    rfl

theorem any_elseIfSigns : ∀ es : List ElseIf,
    (elseIfSigns names es).any Sign.isClassKeyword = false
  | [] => rfl
  | ⟨e, body, _⟩ :: es => by
    simp [elseIfSigns, any_conditionSigns, any_blockSigns body, any_elseIfSigns es]

theorem any_elseSigns : ∀ b : Option Block, (elseSigns names b).any Sign.isClassKeyword = false
  | none => rfl
  | some b => by simp [elseSigns, any_blockSigns b]

end

theorem any_paramsSigns (ps : List Param) :
    (paramsSigns names ps).any Sign.isClassKeyword = false := by
  have hparam (q : Param) : (paramSigns names q).any Sign.isClassKeyword = false := by
    simp [paramSigns, any_typeSigns]
  cases ps with
  | nil => rfl
  | cons q qs => simp [paramsSigns, separated, List.any_flatMap, hparam]

theorem any_functionSigns (f : Function) :
    (functionSigns names f).any Sign.isClassKeyword = false := by
  have hname : (functionNameSign names f.name.value).isClassKeyword = false := by
    rw [functionNameSign]
    split <;> simp
  simp [functionSigns, hname, any_typeSigns, any_paramsSigns, any_blockSigns]

/-- In the signs of an item the class keyword is found at most before the name of a class. -/
theorem itemSigns_eq_of_any {i : Item} (h : (itemSigns names i).any Sign.isClassKeyword) :
    ∃ c xs, i = .cls c ∧ xs.any Sign.isClassKeyword = false ∧
      itemSigns names i = Keyword.cwass.sign :: classSign names c.name.value :: xs := by
  cases i with
  | global d => simp [itemSigns, any_declarationSigns] at h
  | function f | entry f => simp [itemSigns, any_functionSigns] at h
  | cls c =>
    refine ⟨c, _, rfl, ?_, rfl⟩
    have hmember (m : Member) : (memberSigns names m).any Sign.isClassKeyword = false := by
      cases m with
      | property d => exact any_declarationSigns names d
      | method f => exact any_functionSigns names f
    simp [any_paramsSigns, List.any_flatMap, hmember]

/-- What stands behind the class keyword is the name of a class. -/
theorem exists_class_behind {is : List Item} {before behind : List Sign} {k z : Sign}
    (hk : k.isClassKeyword) (h : is.flatMap (itemSigns names) = before ++ k :: z :: behind) :
    ∃ c, .cls c ∈ is ∧ z = classSign names c.name.value := by
  induction is generalizing before with
  | nil => simp at h
  | cons i is ih =>
    rw [List.flatMap_cons, List.append_eq_append_iff] at h
    rcases h with ⟨mid, -, hrest⟩ | ⟨mid, hitem, hrest⟩
    · obtain ⟨c, hc, hz⟩ := ih hrest
      exact ⟨c, List.mem_cons_of_mem i hc, hz⟩
    · cases mid with
      | nil =>
        obtain ⟨c, hc, hz⟩ := @ih [] hrest.symm
        exact ⟨c, List.mem_cons_of_mem i hc, hz⟩
      | cons y ys =>
        obtain ⟨rfl, hbehind⟩ := List.cons_eq_cons.1 hrest
        have hany : (itemSigns names i).any Sign.isClassKeyword := by
          rw [hitem]
          simp [hk]
        obtain ⟨c, xs, rfl, hxs, hsigns⟩ := itemSigns_eq_of_any names hany
        rw [hsigns] at hitem
        cases before with
        | nil =>
          obtain ⟨-, rfl⟩ := List.cons_eq_cons.1 hitem
          exact ⟨c, List.mem_cons_self, (List.cons_eq_cons.1 hbehind).1⟩
        | cons b bs =>
          have htail := congrArg (List.any · Sign.isClassKeyword) (List.cons_eq_cons.1 hitem).2
          simp [hxs, hk] at htail

/-! ### Tokens and signs -/

theorem essential_sublist (m : Mark) (ts : List Token) : (essential m ts).Sublist ts := by
  induction ts generalizing m with
  | nil => exact .slnil
  | cons t ts ih =>
    rw [essential]
    split
    next => exact (ih _).cons t
    next => exact (ih _).cons_cons t

theorem sign_eq_word {t : Token} (h : t.kind.isName) : t.sign = .word t.word := by
  rw [Token.sign]
  cases hk : t.kind <;> first | rfl | (rw [hk] at h; cases h)

/-- Words are the signs of the tokens of their kind, and names are those of their lexeme. -/
theorem kind_of_sign {t : Token} {w : Word} (h : t.sign = .word w) :
    t.kind = w.kind ∧ (w.kind.isName → t.lexeme = w.lexeme) := by
  rw [Token.sign] at h
  split at h
  all_goals try cases h
  next k hk =>
    split at h
    next => cases h; exact ⟨rfl, fun _ => rfl⟩
    next =>
      cases h
      exact ⟨hk, fun hname => by cases hname⟩
  next => exact ⟨rfl, fun _ => rfl⟩

theorem isClassKeyword_sign {t : Token} (h : t.kind = .keyword .cwass) :
    t.sign.isClassKeyword := by
  obtain ⟨kind, lexeme, span⟩ := t
  cases h
  rfl

/-- Two tokens that always leave their signs stay next to each other. -/
theorem essential_adjacent {k t : Token} (hk : isSpoken k.kind) (ht : isSpoken t.kind)
    (before behind : List Token) (m : Mark) : ∃ before' behind',
      essential m (before ++ k :: t :: behind) = before' ++ k :: t :: behind' := by
  induction before generalizing m with
  | nil =>
    refine ⟨[], essential ((m.after k.kind).after t.kind) behind, ?_⟩
    rw [List.nil_append, essential, essential, drops_of_isSpoken hk, drops_of_isSpoken ht]
    rfl
  | cons u us ih =>
    obtain ⟨before', behind', h⟩ := ih (m.after u.kind)
    rw [List.cons_append, essential, h]
    split
    next => exact ⟨before', behind', rfl⟩
    next => exact ⟨u :: before', behind', rfl⟩

end Grammar

/-- A name stands behind the tokens before it. -/
theorem exists_append_of_mem_namingsAfter {ts prev : List Token} {y : Naming}
    (hy : y ∈ namingsAfter prev ts) : ∃ before t behind, ts = before ++ t :: behind ∧
      y.before = before.reverse ++ prev ∧ t.kind.isName ∧ t.lexeme = y.name := by
  induction ts generalizing prev with
  | nil => cases hy
  | cons u us ih =>
    have hlater (hy : y ∈ namingsAfter (u :: prev) us) : ∃ before t behind,
        u :: us = before ++ t :: behind ∧ y.before = before.reverse ++ prev ∧
          t.kind.isName ∧ t.lexeme = y.name := by
      obtain ⟨before, t, behind, rfl, hb, ht⟩ := ih hy
      exact ⟨u :: before, t, behind, rfl, by simp [hb], ht⟩
    rw [namingsAfter] at hy
    split at hy
    next hn =>
      rcases List.mem_cons.1 hy with rfl | hy
      · exact ⟨[], u, us, rfl, rfl, hn, rfl⟩
      · exact hlater hy
    next => exact hlater hy

/-- Between a name that follows the class keyword and the keyword there is only trivia. -/
theorem exists_adjacent {ts : List Token} {y : Naming} (hy : y ∈ namingsAfter [] ts)
    (hf : y.followsClassKeyword) : ∃ before k t behind,
      ts.filter (fun t => !t.kind.isTrivia) = before ++ k :: t :: behind ∧
        k.kind = .keyword .cwass ∧ t.kind.isName ∧ t.lexeme = y.name := by
  obtain ⟨before, t, behind, rfl, hb, hn, hl⟩ := exists_append_of_mem_namingsAfter hy
  obtain ⟨k, hfind, hk⟩ := (Option.any_eq_true _ _).1 hf
  rw [hb, List.append_nil, List.find?_eq_some_iff_append] at hfind
  obtain ⟨hspoken, near, far, hreverse, hnear⟩ := hfind
  have hbefore : before = far.reverse ++ k :: near.reverse := by
    rw [← List.reverse_reverse before, hreverse]
    simp
  have htrivia : near.reverse.filter (fun t => !t.kind.isTrivia) = [] := by
    rw [List.filter_eq_nil_iff]
    intro u hu
    simpa using hnear u (List.mem_reverse.1 hu)
  have ht : t.kind.isTrivia = false := by
    cases hkind : t.kind <;> first | rfl | (rw [hkind] at hn; cases hn)
  refine ⟨far.reverse.filter (fun t => !t.kind.isTrivia), k, t,
    behind.filter (fun t => !t.kind.isTrivia), ?_, eq_of_beq hk, hn, hl⟩
  rw [hbefore]
  simp only [List.filter_append, List.filter_cons, htrivia, hspoken, ht]
  simp

namespace Program

variable {p : Program} {lines : List String} {names : Names}
  (hp : Program.ofTokens (Lexed.ofLines lines names).tokens (Lexed.ofLines lines names).names =
    .ok p)
include hp

/-- A sign of an accepted program is that of a token. -/
theorem exists_token {z : Sign}
    (hz : z ∈ p.items.flatMap (itemSigns (Lexed.ofLines lines names).names)) :
    ∃ t ∈ (Lexed.ofLines lines names).tokens, t.sign = z := by
  obtain ⟨hsound, ts, hts, htokens⟩ := Lexed.sound_ofLines lines names
  rw [← Program.ahead_ofTokens hsound hp, State.ahead, htokens] at hz
  obtain ⟨t, ht, hsign⟩ := List.mem_map.1 hz
  refine ⟨t, ?_, hsign⟩
  rw [hts]
  exact List.mem_append_left _ (List.mem_of_mem_filter ((essential_sublist _ _).subset ht))

/-- The names that follow the class keyword are those of the classes. -/
theorem exists_class_of_followsClassKeyword {y : Naming}
    (hy : y ∈ (Lexed.ofLines lines names).namings) (hf : y.followsClassKeyword) :
    ∃ c, .cls c ∈ p.items ∧ c.name.value = y.name := by
  obtain ⟨hsound, ts, hts, htokens⟩ := Lexed.sound_ofLines lines names
  rw [Lexed.namings, hts, namingsAfter_append_singleton rfl] at hy
  obtain ⟨before, k, t, behind, hfilter, hk, hn, hl⟩ := exists_adjacent hy hf
  have hahead := Program.ahead_ofTokens hsound hp
  have hspoken : isSpoken t.kind := by
    cases hkind : t.kind <;> first | rfl | (rw [hkind] at hn; cases hn)
  obtain ⟨before', behind', hessential⟩ :=
    essential_adjacent (by rw [hk]; rfl) hspoken before behind .start
  rw [State.ahead, htokens, hfilter, hessential, List.map_append, List.map_cons, List.map_cons]
    at hahead
  obtain ⟨c, hc, hsign⟩ := exists_class_behind _ (isClassKeyword_sign hk) hahead.symm
  rw [sign_eq_word hn, classSign, Sign.word.injEq] at hsign
  exact ⟨c, hc, (congrArg Word.lexeme hsign).symm.trans hl⟩

end Program

end Uwu
