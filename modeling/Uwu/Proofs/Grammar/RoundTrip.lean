import Uwu.Proofs.Grammar.Literals
import Uwu.Proofs.Grammar.Walk

/-! What is written of an expression is read back as that expression, whatever stands around it
that does not bind more tightly. -/

namespace Uwu.Grammar

/-! ### What an expression begins with and where it may end -/

/-- The kind lengthens no access path. -/
def EndsPath (k : Kind) : Prop :=
  k ≠ .symbol .openParen ∧ k ≠ .symbol .openBracket ∧ k ≠ .symbol .dot

/-- The kind ends an expression that is read with `power`. -/
def EndsExpr (power : Power) (k : Kind) : Prop :=
  EndsPath k ∧ k.power.exceeds power = false

instance (k : Kind) : Decidable (EndsPath k) :=
  inferInstanceAs (Decidable (_ ∧ _))

instance (power : Power) (k : Kind) : Decidable (EndsExpr power k) :=
  inferInstanceAs (Decidable (_ ∧ _))

/-- Whatever operator stands between two operands of the expression, it binds more tightly than
`power`. -/
def BindsOver (power : Power) : Expr → Prop
  | .infixed _ op _ _ => op.value.power.exceeds power
  | _ => True

theorem endsPath_of_power {k : Kind} (h : k.power ≠ .lowest) : EndsPath k := by
  refine ⟨?_, ?_, ?_⟩ <;> rintro rfl <;> exact h rfl

theorem operand?_prefixOp {expr : Power → Parse Expr} (op : PrefixOp) :
    operand? expr op.kind = some (prefixed expr op) := by
  cases op <;> rfl

theorem ofKind?_infixOp (op : InfixOp) : InfixOp.ofKind? op.kind = some op := by
  cases op <;> rfl

theorem ofKind?_postfixOp (op : PostfixOp) :
    InfixOp.ofKind? op.kind = none ∧ PostfixOp.ofKind? op.kind = some op := by
  cases op <;> exact ⟨rfl, rfl⟩

theorem power_infixOp (op : InfixOp) : op.kind.power = op.power := by
  rw [Kind.power, ofKind?_infixOp]

theorem exceeds_lowest (op : InfixOp) : op.power.exceeds .lowest := by
  cases op <;> rfl

theorem bindsOver_lowest (e : Expr) : BindsOver .lowest e := by
  cases e with
  | infixed l op r _ => exact exceeds_lowest op.value
  | _ => trivial

theorem prefixed_exceeds (op : InfixOp) : Power.prefixed.exceeds op.power := by
  cases op <;> rfl

theorem call_exceeds (op : InfixOp) : Power.call.exceeds op.power := by
  cases op <;> rfl

theorem power_ne_lowest (op : InfixOp) : op.power ≠ .lowest := by
  cases op <;> decide

/-- What binds no less tightly than `p` binds more tightly than what `p` exceeds. -/
theorem exceeds_of_exceeds {p q r : Power} (hq : p.exceeds q = false) (hr : p.exceeds r) :
    q.exceeds r := by
  simp only [Power.exceeds, decide_eq_false_iff_not, decide_eq_true_eq] at hq hr ⊢
  omega

/-- What ends an expression that is read with less power than it holds together with, ends it. -/
theorem endsExpr_power {e : Expr} {power : Power} {k : Kind} (hpower : Power.call.exceeds power)
    (hover : BindsOver power e) (hk : EndsExpr power k) : EndsExpr e.power k := by
  refine ⟨hk.1, ?_⟩
  have hle : k.power.rank ≤ power.rank := by simpa [Power.exceeds] using hk.2
  have hlt : power.rank < 7 := of_decide_eq_true hpower
  have hgoal : k.power.rank ≤ e.power.rank := by
    cases e with
    | infixed l op r _ =>
      have hop : power.rank < op.value.power.rank := by simpa [BindsOver, Power.exceeds] using hover
      exact Nat.le_of_lt (Nat.lt_of_le_of_lt hle hop)
    | prefixed => exact Nat.le_trans hle (Nat.le_of_lt_succ hlt)
    | _ => exact Nat.le_trans hle (Nat.le_of_lt hlt)
  simpa [Power.exceeds] using hgoal

theorem power_postfixOp (op : PostfixOp) : op.kind.power = .call := by
  cases op <;> rfl

/-! ### First words -/

/-- No bracket that closes a list. -/
def ClosesNoList (k : Kind) : Prop :=
  k ≠ .symbol .closeParen ∧ k ≠ .symbol .closeBrace

section FirstWords

variable (h : Hand)

theorem exists_linkWords (l : Link) : ∃ ws, linkWords h l = h.name l.head :: ws := by
  cases l <;> exact ⟨_, rfl⟩

/-- An access path begins with a name, or with the name of a class. -/
theorem exists_placeWords : ∀ p : Place, ∃ w ws, placeWords h p = w :: ws ∧
    ((∃ id, w.kind = .identifier id) ∨ ∃ id, w.kind = .classId id)
  | .link (.name _) | .link (.indexed _ _ _) | .link (.call _ _ _) => ⟨_, _, rfl, .inl ⟨_, rfl⟩⟩
  | .construct _ _ _ => ⟨_, _, rfl, .inr ⟨_, rfl⟩⟩
  | .member p l _ => by
    obtain ⟨w, ws, hw, hk⟩ := exists_placeWords p
    exact ⟨w, _, by rw [placeWords, hw, List.cons_append], hk⟩

theorem exists_segmentWords (first : Char) (text : String) (ss : List Segment) :
    ∃ w ws, segmentWords h first text ss = w :: ws ∧ ClosesNoList w.kind := by
  induction ss generalizing text with
  | nil => exact ⟨_, _, rfl, by simp [ClosesNoList]⟩
  | cons x ss ih =>
    cases x with
    | text s => exact ih _
    | expr e => exact ⟨_, _, rfl, by simp [ClosesNoList]; split <;> simp⟩

theorem closesNoList_literal (v : Literal) : ClosesNoList (h.literal v).kind := by
  cases v with
  | bool b => cases b <;> exact ⟨nofun, nofun⟩
  | _ => exact ⟨nofun, nofun⟩

theorem exists_exprWords : ∀ e : Expr, ∃ w ws, exprWords h e = w :: ws ∧ ClosesNoList w.kind
  | .literal v _ => ⟨_, _, rfl, closesNoList_literal h v⟩
  | .format ss _ => exists_segmentWords h _ _ ss
  | .input _ _ => ⟨_, _, rfl, by simp [ClosesNoList, Keyword.word]⟩
  | .array _ _ => ⟨_, _, rfl, by simp [ClosesNoList, Symbol.word]⟩
  | .prefixed op _ _ => ⟨_, _, rfl, by cases op.value <;> simp [ClosesNoList, PrefixOp.kind]⟩
  | .infixed l op r _ => by
    rw [exprWords, wrapped]
    split
    next => exact ⟨_, _, rfl, by simp [ClosesNoList, Symbol.word]⟩
    next =>
      obtain ⟨w, ws, hw, hk⟩ := exists_exprWords l
      exact ⟨w, _, by rw [hw, List.cons_append], hk⟩
  | .postfixed p _ _ => by
    obtain ⟨w, ws, hw, hk⟩ := exists_placeWords h p
    refine ⟨w, _, by rw [exprWords, hw, List.cons_append], ?_⟩
    obtain ⟨id, hk⟩ | ⟨id, hk⟩ := hk <;> simp [ClosesNoList, hk]
  | .place p => by
    obtain ⟨w, ws, hw, hk⟩ := exists_placeWords h p
    refine ⟨w, _, hw, ?_⟩
    obtain ⟨id, hk⟩ | ⟨id, hk⟩ := hk <;> simp [ClosesNoList, hk]

theorem closesNoList_of_walks {s t : State} {e : Expr} {ws : List Word}
    (hw : s.Walks (exprWords h e ++ ws) t) : ClosesNoList s.kind := by
  obtain ⟨w, vs, hvs, hk⟩ := exists_exprWords h e
  rw [hvs, List.cons_append, walks_cons] at hw
  rwa [hw.1.kind]

end FirstWords

theorem wrapped_false (ws : List Word) : wrapped false ws = ws := rfl

theorem length_wrapped (ws : List Word) : (wrapped true ws).length = ws.length + 2 := by
  simp [wrapped]

/-- The parser reads back what is written, with or without parentheses, in `n` words at most. -/
def ReadsBack (h : Hand) (expr : Power → Parse Expr) (n : Nat) : Prop :=
  ∀ (parens : Bool) {e : Expr} {power : Power} {s t : State}, Shaped h e →
    (wrapped parens (exprWords h e)).length ≤ n → Power.call.exceeds power →
    (parens = false → BindsOver power e) → s.Walks (wrapped parens (exprWords h e)) t →
    EndsExpr power t.kind → ∃ e', expr power s = .ok e' t ∧ eraseExpr e' = eraseExpr e

/-- The first step of an access path. -/
def pathHead (expr : Power → Parse Expr) : Parse Place := do
  match ← currentKind with
  | .classId _ => construction expr
  | _ => Place.link <$> link expr

/-- The members behind a path, at most so many. -/
def membersAfter (expr : Power → Parse Expr) (n : Nat) (p : Place) : Parse Place := do
  let members ← upTo (· == .symbol .dot) (member expr) n
  return members.foldl addMember p

theorem place_eq (expr : Power → Parse Expr) (s : State) : place expr s =
    (pathHead expr >>= fun p => bound >>= fun n => membersAfter expr n p) s := by
  change _ = ((match s.kind with
    | .classId _ => construction expr
    | _ => Place.link <$> link expr) >>= fun p => bound >>= fun n => membersAfter expr n p) s
  rw [place, run_currentKind]
  cases s.kind <;> rfl

theorem segmentsShaped_append {h : Hand} {xs ys : List Segment} :
    SegmentsShaped h (xs ++ ys) → SegmentsShaped h xs ∧ SegmentsShaped h ys := by
  induction xs with
  | nil => exact fun hys => ⟨trivial, hys⟩
  | cons x xs ih =>
    cases x with
    | text s => exact ih
    | expr e => exact fun ⟨he, hrest⟩ => ⟨⟨he, (ih hrest).1⟩, (ih hrest).2⟩

/-- What is written before the next expression is one text, which may be empty. -/
theorem exists_text (h : Hand) (first : Char) {ss : List Segment} (hss : textsApart false ss) :
    ∃ text rest, ss = (if text = "" then [] else [.text text]) ++ rest ∧
      segmentWords h first "" ss = segmentWords h first text rest ∧ textsApart false rest ∧
      (rest = [] ∨ ∃ e ss, rest = .expr e :: ss) := by
  match ss, hss with
  | [], _ => exact ⟨"", [], rfl, rfl, trivial, .inl rfl⟩
  | .expr e :: ss, hss => exact ⟨"", .expr e :: ss, rfl, rfl, hss, .inr ⟨e, ss, rfl⟩⟩
  | [.text text], ⟨_, hne, _⟩ =>
    refine ⟨text, [], by rw [if_neg hne]; rfl, ?_, trivial, .inl rfl⟩
    change segmentWords h first ("" ++ text) [] = _
    rw [String.empty_append]
  | .text text :: .expr e :: ss, ⟨_, hne, hss⟩ =>
    refine ⟨text, .expr e :: ss, by rw [if_neg hne]; rfl, ?_, hss, .inr ⟨e, ss, rfl⟩⟩
    change segmentWords h first ("" ++ text) (.expr e :: ss) = _
    rw [String.empty_append]
  | .text _ :: .text _ :: _, ⟨_, _, hss⟩ => cases hss.1

section Parts

variable {h : Hand} {expr : Power → Parse Expr} {n : Nat} (hexpr : ReadsBack h expr n)
  {s t : State}
include hexpr

/-- Between brackets and commas an expression needs no parentheses. -/
theorem run_lowest {e : Expr} (he : Shaped h e) (hn : (exprWords h e).length ≤ n)
    (hw : s.Walks (exprWords h e) t) (ht : EndsExpr .lowest t.kind) :
    ∃ e', expr .lowest s = .ok e' t ∧ eraseExpr e' = eraseExpr e :=
  hexpr false he hn rfl (fun _ => bindsOver_lowest e) hw ht

/-! ### Lists -/

theorem run_listUpTo {close : Symbol} (hclose : close = .closeParen ∨ close = .closeBrace)
    {es : List Expr} {m : Nat} (hes : AllShaped h es) (hn : (listWords h es).length ≤ n)
    (hm : s.stream.tokens.length < m) (hw : s.Walks (listWords h es) t)
    (ht : t.kind = .symbol close) :
    ∃ es', listUpTo close (expr .lowest) m s = .ok es' t ∧ eraseAll es' = eraseAll es := by
  induction es generalizing s m with
  | nil =>
    obtain rfl := hw
    cases m with
    | zero => exact ⟨[], rfl, rfl⟩
    | succ m => exact ⟨[], by rw [listUpTo, run_currentKind, if_pos ht, run_pure], rfl⟩
  | cons e es ih =>
    obtain ⟨he, hes⟩ := hes
    have hne : s.kind ≠ .symbol close := by
      have hk := closesNoList_of_walks h hw
      obtain rfl | rfl := hclose
      · exact hk.1
      · exact hk.2
    rw [listWords, List.length_append] at hn
    obtain ⟨u, hu, hrest⟩ := walks_append.mp hw
    obtain ⟨m, rfl⟩ := Nat.exists_eq_add_one_of_ne_zero (Nat.ne_zero_of_lt hm)
    cases es with
    | nil =>
      obtain rfl := hrest
      have hend : EndsExpr .lowest u.kind := by
        obtain rfl | rfl := hclose <;> rw [ht] <;> decide
      have hcomma : u.kind ≠ .symbol .comma := by
        obtain rfl | rfl := hclose <;> rw [ht] <;> decide
      obtain ⟨e', hrun, herase⟩ := run_lowest hexpr he (by omega) hu hend
      refine ⟨[e'], ?_, by rw [eraseAll, eraseAll, herase]; rfl⟩
      rw [listUpTo, run_currentKind, if_neg hne, run_bind hrun, run_currentKind, if_neg hcomma,
        run_pure]
    | cons e₂ es =>
      obtain ⟨hcomma, hrest⟩ := hrest
      have hend : EndsExpr .lowest u.kind := by
        rw [hcomma.symbol]
        decide
      have hlength : u.next.stream.tokens.length < m := by
        have hl := hu.length
        have hl' := hcomma.length
        omega
      have hn' : (listWords h (e₂ :: es)).length ≤ n := by
        rw [tailWords, List.length_cons] at hn
        rw [listWords]
        omega
      obtain ⟨e', hrun, herase⟩ := run_lowest hexpr he (by omega) hu hend
      obtain ⟨es', hruns, herases⟩ := ih hes hn' hlength hrest
      refine ⟨e' :: es', ?_, by rw [eraseAll, eraseAll, herase, herases]⟩
      rw [listUpTo, run_currentKind, if_neg hne, run_bind hrun, run_currentKind,
        if_pos hcomma.symbol, run_advance, run_bind hruns, run_pure]

theorem run_listTo {close : Symbol} (hclose : close = .closeParen ∨ close = .closeBrace)
    {es : List Expr} (hes : AllShaped h es) (hn : (listWords h es).length ≤ n)
    (hw : s.Walks (listWords h es ++ [close.word]) t) :
    ∃ es' sp, listTo close (expr .lowest) s = .ok (es', sp) t ∧ eraseAll es' = eraseAll es := by
  obtain ⟨u, hu, hstart, rfl⟩ := walks_append.mp hw
  obtain ⟨es', hrun, herase⟩ :=
    run_listUpTo hexpr hclose hes hn (Nat.lt_succ_self _) hu hstart.symbol
  refine ⟨es', u.stream.current.span, ?_, herase⟩
  rw [listTo, run_bound, run_bind hrun, run_bind (run_expectSymbol hstart), run_pure]

theorem run_args {es : List Expr} (hes : AllShaped h es) (hn : (listWords h es).length ≤ n)
    (hw : s.Walks (Symbol.openParen.word :: (listWords h es ++ [Symbol.closeParen.word])) t) :
    ∃ es' sp, args expr s = .ok (es', sp) t ∧ eraseAll es' = eraseAll es := by
  obtain ⟨es', sp, hrun, herase⟩ := run_listTo hexpr (.inl rfl) hes hn hw.2
  exact ⟨es', sp, by rw [args, run_bind (run_expectSymbol hw.1), hrun], herase⟩

/-! ### Access paths -/

theorem run_index {e : Expr} (he : Shaped h e) (hn : (exprWords h e).length ≤ n)
    (hw : s.next.Walks (exprWords h e ++ [Symbol.closeBracket.word]) t) :
    ∃ e' sp, index expr s = .ok (e', sp) t ∧ eraseExpr e' = eraseExpr e := by
  obtain ⟨u, hu, hstart, rfl⟩ := walks_append.mp hw
  have hend : EndsExpr .lowest u.kind := by
    rw [hstart.symbol]
    decide
  obtain ⟨e', hrun, herase⟩ := run_lowest hexpr he hn hu hend
  refine ⟨e', u.stream.current.span, ?_, herase⟩
  rw [index, run_advance, run_bind hrun, run_bind (run_expectSymbol hstart), run_pure]

theorem run_indices {es : List Expr} {m : Nat} (hes : AllShaped h es)
    (hn : (indexWords h es).length ≤ n) (hm : s.stream.tokens.length < m)
    (hw : s.Walks (indexWords h es) t) (ht : t.kind ≠ .symbol .openBracket) :
    ∃ xs, upTo (· == .symbol .openBracket) (index expr) m s = .ok xs t ∧
      eraseAll (xs.map Prod.fst) = eraseAll es := by
  induction es generalizing s m with
  | nil =>
    obtain rfl := hw
    refine ⟨[], ?_, rfl⟩
    cases m with
    | zero => rfl
    | succ m => rw [upTo, run_currentKind, if_neg (by simpa using ht), run_pure]
  | cons e es ih =>
    obtain ⟨he, hes⟩ := hes
    obtain ⟨hstart, hrest⟩ := hw
    obtain ⟨m, rfl⟩ := Nat.exists_eq_add_one_of_ne_zero (Nat.ne_zero_of_lt hm)
    rw [List.append_cons] at hrest
    obtain ⟨u, hu, hrest⟩ := walks_append.mp hrest
    have hlength : u.stream.tokens.length < m := by
      have hl := hstart.length
      have hl' := hu.length
      omega
    simp only [indexWords, List.length_cons, List.length_append] at hn
    obtain ⟨e', sp, hrun, herase⟩ := run_index hexpr he (by omega) hu
    obtain ⟨xs, hruns, herases⟩ := ih hes (by omega) hlength hrest
    refine ⟨(e', sp) :: xs, ?_, by rw [List.map_cons, eraseAll, eraseAll, herase, herases]⟩
    rw [upTo, run_currentKind, if_pos (by rw [hstart.symbol]; rfl), run_bind hrun,
      run_bind hruns, run_pure]

theorem run_link {l : Link} (hl : LinkShaped h l) (hn : (linkWords h l).length ≤ n + 1)
    (hw : s.Walks (linkWords h l) t)
    (ht : t.kind ≠ .symbol .openParen ∧ t.kind ≠ .symbol .openBracket) :
    ∃ l', link expr s = .ok l' t ∧ eraseLink l' = eraseLink l := by
  cases l with
  | name x =>
    obtain ⟨hx, rfl⟩ := hw
    refine ⟨.name ⟨x.value, s.stream.current.span⟩, ?_, rfl⟩
    rw [link, run_bind (run_expectName hx), run_currentKind]
    generalize s.next.kind = k at ht
    split
    next => exact absurd rfl ht.1
    next => exact absurd rfl ht.2
    next => rfl
  | indexed x es span =>
    obtain ⟨hx, hes⟩ := hw
    obtain ⟨xs, hrun, herase⟩ := run_indices hexpr hl.2 (by simpa [linkWords] using hn)
      (Nat.lt_succ_self _) hes ht.2
    obtain ⟨e, es, rfl⟩ := List.exists_cons_of_ne_nil hl.1
    let stop := (xs.getLast?.map Prod.snd).getD s.stream.current.span
    refine ⟨.indexed ⟨x.value, s.stream.current.span⟩ (xs.map Prod.fst)
      (s.stream.current.span.through stop), ?_, ?_⟩
    · rw [link, run_bind (run_expectName hx), run_currentKind, hes.1.symbol]
      exact run_bind hrun
    · rw [eraseLink, eraseLink, herase]
      rfl
  | call x es span =>
    obtain ⟨hx, hes⟩ := hw
    obtain ⟨es', sp, hrun, herase⟩ := run_args hexpr hl (by simp [linkWords] at hn; omega) hes
    refine ⟨.call ⟨x.value, s.stream.current.span⟩ es' (s.stream.current.span.through sp), ?_, ?_⟩
    · rw [link, run_bind (run_expectName hx), run_currentKind, hes.1.symbol]
      exact run_bind hrun
    · rw [eraseLink, eraseLink, herase]
      rfl

theorem run_construction {c : Name} {es : List Expr} (hes : AllShaped h es)
    (hn : (listWords h es).length ≤ n) (hc : s.Starts ⟨.classId (h.cls c.value), c.value⟩)
    (hw : s.next.Walks (Symbol.openParen.word :: (listWords h es ++ [Symbol.closeParen.word])) t) :
    ∃ p', construction expr s = .ok p' t ∧
      erasePlace p' = .construct (unplaced c) (eraseAll es) default := by
  obtain ⟨es', sp, hrun, herase⟩ := run_args hexpr hes hn hw
  refine ⟨.construct ⟨c.value, s.stream.current.span⟩ es' (s.stream.current.span.through sp), ?_, ?_⟩
  · rw [construction, run_advance, run_currentKind, if_pos hw.1.symbol, run_bind hrun, hc.lexeme]
    rfl
  · rw [erasePlace, herase]
    rfl

omit hexpr in
/-- A member that is read joins the path before it. -/
theorem run_members_succ {p : Place} {l : Link} {m : Nat} (hdot : s.Starts Symbol.dot.word)
    (hrun : link expr s.next = .ok l t) :
    membersAfter expr (m + 1) p s = membersAfter expr m (addMember p l) t := by
  have hmember : member expr s = .ok l t := by rw [member, run_advance, hrun]
  have hround : upTo (· == Kind.symbol .dot) (member expr) (m + 1) s =
      (do return l :: (← upTo (· == Kind.symbol .dot) (member expr) m)) t := by
    rw [upTo, run_currentKind, if_pos (by rw [hdot.symbol]; rfl), run_bind hmember]
  rw [membersAfter, run_bind_congr _ hround, bind_assoc]
  rfl

omit hexpr in
theorem run_members_end {p : Place} {m : Nat} (ht : t.kind ≠ .symbol .dot) :
    membersAfter expr m p t = .ok p t := by
  have hround : upTo (· == Kind.symbol .dot) (member expr) m t = .ok [] t := by
    cases m with
    | zero => rfl
    | succ m => rw [upTo, run_currentKind, if_neg (by simpa using ht), run_pure]
  rw [membersAfter, run_bind hround]
  rfl

/-- A path is read from its first step on, member by member. -/
theorem run_path : ∀ {p : Place} {s t : State}, PlaceShaped h p →
    (placeWords h p).length ≤ n + 1 → s.Walks (placeWords h p) t →
    t.kind ≠ .symbol .openParen ∧ t.kind ≠ .symbol .openBracket →
    ∃ first u c, pathHead expr s = .ok first u ∧
      c + t.stream.tokens.length ≤ u.stream.tokens.length ∧
      ∃ p', erasePlace p' = erasePlace p ∧
        ∀ m, membersAfter expr (c + m) first u = membersAfter expr m p' t
  | .link l, s, t, hp, hn, hw, ht => by
    obtain ⟨l', hrun, herase⟩ := run_link hexpr hp hn hw ht
    refine ⟨.link l', t, 0, ?_, by omega, .link l', by rw [erasePlace, herase]; rfl,
      fun m => by rw [Nat.zero_add]⟩
    obtain ⟨ws, hws⟩ := exists_linkWords h l
    have hk : s.kind = .identifier (h.identifier l.head.value) := by
      rw [placeWords, hws] at hw
      exact hw.1.kind
    rw [pathHead, run_currentKind, hk]
    exact run_map hrun
  | .construct c es _, s, t, hp, hn, hw, ht => by
    obtain ⟨hc, hw⟩ := hw
    simp only [placeWords, List.length_cons, List.length_append] at hn
    obtain ⟨p', hrun, herase⟩ := run_construction hexpr hp (by omega) hc hw
    refine ⟨p', t, 0, ?_, by omega, p', herase, fun m => by rw [Nat.zero_add]⟩
    rw [pathHead, run_currentKind, hc.kind]
    exact hrun
  | .member p l _, s, t, hp, hn, hw, ht => by
    obtain ⟨hp, hl⟩ := hp
    obtain ⟨v, hv, hdot, hw⟩ := walks_append.mp hw
    simp only [placeWords, List.length_cons, List.length_append] at hn
    obtain ⟨first, u, c, hfirst, hc, p', herase, hsame⟩ :=
      run_path hp (by omega) hv (by rw [hdot.symbol]; decide)
    obtain ⟨l', hrun, herase'⟩ := run_link hexpr hl (by omega) hw ht
    have hlength := hw.length
    have hlength' := hdot.length
    refine ⟨first, u, c + 1, hfirst, by omega, addMember p' l', ?_, fun m => ?_⟩
    · rw [addMember, erasePlace, erasePlace, herase, herase']
    · rw [Nat.add_assoc, Nat.add_comm 1 m, hsame, run_members_succ hdot hrun]

theorem run_place {p : Place} (hp : PlaceShaped h p) (hn : (placeWords h p).length ≤ n + 1)
    (hw : s.Walks (placeWords h p) t) (ht : EndsPath t.kind) :
    ∃ p', place expr s = .ok p' t ∧ erasePlace p' = erasePlace p := by
  obtain ⟨first, u, c, hfirst, hc, p', herase, hsame⟩ :=
    run_path hexpr hp hn hw ⟨ht.1, ht.2.1⟩
  refine ⟨p', ?_, herase⟩
  obtain ⟨m, hm⟩ : ∃ m, u.stream.tokens.length + 1 = c + m := Nat.exists_eq_add_of_le (by omega)
  rw [place_eq, run_bind hfirst, run_bound, hm, hsame, run_members_end ht.2.2]

/-! ### Operands -/

omit hexpr in
theorem run_operand {k : Kind} {p : Parse Expr} {e : Expr} (hk : s.kind = k)
    (hp : operand? expr k = some p) (hrun : p s = .ok e t) : operand expr s = .ok e t := by
  rw [operand, run_currentKind, hk, hp]
  exact hrun

omit hexpr in
theorem run_literal {v : Literal} (hv : h.Spells v) (hs : s.Starts (h.literal v)) :
    operand expr s = .ok (.literal v s.stream.current.span) s.next := by
  have hp : operand? expr (h.literal v).kind = some literal := by
    cases v with
    | bool b => cases b <;> rfl
    | _ => rfl
  refine run_operand hs.kind hp ?_
  rw [literal, run_advance, literalOf?_word hv hs.word]
  rfl

theorem run_input {prompt : Option Expr} {span : Span} (hp : Shaped h (.input prompt span))
    (hn : (exprWords h (.input prompt span)).length ≤ n + 1)
    (hw : s.Walks (exprWords h (.input prompt span)) t) :
    ∃ e', operand expr s = .ok e' t ∧ eraseExpr e' = eraseExpr (.input prompt span) := by
  obtain ⟨hstart, hopen, hw⟩ := hw
  have hk : s.kind = .keyword .inpwt := hstart.kind
  cases prompt with
  | none =>
    obtain ⟨hclose, rfl⟩ := hw
    refine ⟨.input none (s.stream.current.span.through s.next.next.stream.current.span),
      run_operand hk rfl ?_, rfl⟩
    simp only [input]
    rw [run_advance, run_bind (run_expectSymbol hopen), run_currentKind, if_pos hclose.symbol,
      run_bind (run_pure none), run_bind (run_expectSymbol hclose), run_pure]
  | some e =>
    have he : Shaped h e := hp
    have hne := (closesNoList_of_walks h hw).1
    obtain ⟨u, hu, hclose, rfl⟩ := walks_append.mp hw
    simp only [exprWords, promptWords, List.length_cons, List.length_append] at hn
    obtain ⟨e', hrun, herase⟩ :=
      run_lowest hexpr he (by omega) hu (by rw [hclose.symbol]; decide)
    refine ⟨.input (some e') (s.stream.current.span.through u.stream.current.span),
      run_operand hk rfl ?_, ?_⟩
    · simp only [input]
      rw [run_advance, run_bind (run_expectSymbol hopen), run_currentKind, if_neg hne,
        run_bind (run_map hrun), run_bind (run_expectSymbol hclose), run_pure]
    · rw [eraseExpr, eraseExpr, erasePrompt, erasePrompt, herase]

theorem run_array {es : List Expr} {span : Span} (hes : AllShaped h es)
    (hn : (exprWords h (.array es span)).length ≤ n + 1)
    (hw : s.Walks (exprWords h (.array es span)) t) :
    ∃ e', operand expr s = .ok e' t ∧ eraseExpr e' = eraseExpr (.array es span) := by
  simp only [exprWords, List.length_cons, List.length_append] at hn
  obtain ⟨es', sp, hrun, herase⟩ := run_listTo hexpr (.inr rfl) hes (by omega) hw.2
  refine ⟨.array es' (s.stream.current.span.through sp), run_operand hw.1.symbol rfl ?_,
    by rw [eraseExpr, eraseExpr, herase]⟩
  rw [array, run_advance, run_bind hrun]
  rfl

/-- What is written in parentheses is read as it is without them. -/
theorem run_grouping {e : Expr} (he : Shaped h e) (hn : (exprWords h e).length ≤ n)
    (hw : s.Walks (wrapped true (exprWords h e)) t) :
    ∃ e', operand expr s = .ok e' t ∧ eraseExpr e' = eraseExpr e := by
  obtain ⟨hopen, hw⟩ := hw
  obtain ⟨u, hu, hclose, rfl⟩ := walks_append.mp hw
  obtain ⟨e', hrun, herase⟩ := run_lowest hexpr he hn hu (by rw [hclose.symbol]; decide)
  refine ⟨e', run_operand hopen.symbol rfl ?_, herase⟩
  rw [grouping, run_advance, run_bind hrun, run_bind (run_expectSymbol hclose), run_pure]

theorem run_prefixed {op : Located PrefixOp} {e : Expr} {span : Span} (he : Shaped h e)
    (hn : (exprWords h (.prefixed op e span)).length ≤ n + 1)
    (hw : s.Walks (exprWords h (.prefixed op e span)) t) (ht : EndsExpr .prefixed t.kind) :
    ∃ e', operand expr s = .ok e' t ∧ eraseExpr e' = eraseExpr (.prefixed op e span) := by
  obtain ⟨hop, hw⟩ := hw
  simp only [exprWords, List.length_cons] at hn
  have hover : Power.prefixed.exceeds e.power = false → BindsOver .prefixed e := by
    cases e with
    | infixed l o r _ => exact fun hf => by cases hf.symm.trans (prefixed_exceeds o.value)
    | _ => exact fun _ => trivial
  obtain ⟨e', hrun, herase⟩ := hexpr _ he (by omega) rfl hover hw ht
  refine ⟨.prefixed ⟨op.value, s.stream.current.span⟩ e'
    (s.stream.current.span.through e'.span), run_operand hop.kind (operand?_prefixOp _) ?_, ?_⟩
  · rw [prefixed, run_advance, run_bind hrun, run_pure]
  · rw [eraseExpr, eraseExpr, herase]
    rfl

/-! ### Interpolated strings -/

theorem run_segments {e : Expr} {ss : List Segment} {m : Nat} (he : Shaped h e)
    (hss : SegmentsShaped h ss) (hapart : textsApart false ss)
    (hn : (exprWords h e ++ segmentWords h '|' "" ss).length ≤ n)
    (hm : s.stream.tokens.length < m)
    (hw : s.Walks (exprWords h e ++ segmentWords h '|' "" ss) t) :
    ∃ xs sp, segments expr m s = .ok (xs, sp) t ∧
      eraseSegments xs = eraseSegments (.expr e :: ss) := by
  induction m generalizing s e ss with
  | zero => exact absurd hm (Nat.not_lt_zero _)
  | succ m ih =>
    obtain ⟨text, rest, rfl, hwords, hapart, hrest⟩ := exists_text h '|' hapart
    rw [hwords] at hn hw
    rw [List.length_append] at hn
    obtain ⟨u, hu, hw⟩ := walks_append.mp hw
    obtain rfl | ⟨e₂, ss, rfl⟩ := hrest
    · obtain ⟨hpart, rfl⟩ := hw
      have hk : u.kind = .stringPartEnd := hpart.kind
      obtain ⟨e', hrun, herase⟩ := run_lowest hexpr he (by omega) hu (by rw [hk]; decide)
      have htext := textSegment_delimited hpart.lexeme
      refine ⟨.expr e' :: textSegment '|' '"' u.stream.current, u.stream.current.span, ?_, ?_⟩
      · rw [segments, run_bind hrun, run_currentKind, hk]
        rfl
      · rw [htext, eraseSegments, eraseSegments, herase, List.append_nil]
    · obtain ⟨hpart, hw⟩ := hw
      have hk : u.kind = .stringPartMid := hpart.kind
      have hshaped := (segmentsShaped_append hss).2
      have hlength : u.next.stream.tokens.length < m := by
        have hl := hu.length
        have hl' := hpart.length
        omega
      rw [segmentWords, List.length_cons] at hn
      obtain ⟨e', hrun, herase⟩ := run_lowest hexpr he (by omega) hu (by rw [hk]; decide)
      obtain ⟨xs, sp, hruns, herases⟩ :=
        ih hshaped.1 hshaped.2 hapart (by omega) hlength hw
      have htext := textSegment_delimited hpart.lexeme
      refine ⟨.expr e' :: (textSegment '|' '|' u.stream.current ++ xs), sp, ?_, ?_⟩
      · rw [segments, run_bind hrun, run_currentKind, hk]
        exact run_bind hruns
      · rw [htext, eraseSegments, eraseSegments, herase, eraseSegments_append, herases,
          eraseSegments_append]

theorem run_format {ss : List Segment} {span : Span} (hss : Shaped h (.format ss span))
    (hn : (exprWords h (.format ss span)).length ≤ n + 1)
    (hw : s.Walks (exprWords h (.format ss span)) t) :
    ∃ e', operand expr s = .ok e' t ∧ eraseExpr e' = eraseExpr (.format ss span) := by
  obtain ⟨⟨e₀, hmem⟩, hapart, hshaped⟩ := hss
  rw [exprWords] at hn hw
  obtain ⟨text, rest, rfl, hwords, hapart, rfl | ⟨e, ss, rfl⟩⟩ := exists_text h '"' hapart
  · exfalso
    split at hmem <;> simp at hmem
  · rw [hwords] at hn hw
    obtain ⟨hpart, hw⟩ := hw
    rw [segmentWords, List.length_cons] at hn
    have hshaped := (segmentsShaped_append hshaped).2
    obtain ⟨xs, sp, hruns, herases⟩ := run_segments hexpr hshaped.1 hshaped.2 hapart
      (by omega) (Nat.lt_succ_self _) hw
    have htext := textSegment_delimited hpart.lexeme
    refine ⟨.format (textSegment '"' '|' s.stream.current ++ xs)
      (s.stream.current.span.through sp), run_operand hpart.kind rfl ?_, ?_⟩
    · rw [format, run_advance, run_bound, run_bind hruns]
      rfl
    · rw [htext, eraseExpr, eraseExpr, eraseSegments_append, herases, eraseSegments_append]

/-! ### Operators -/

omit hexpr in
/-- An operator that does not bind tightly enough ends the expression. -/
theorem run_operators_end {power : Power} {m : Nat} {e : Expr}
    (ht : t.kind.power.exceeds power = false) : operators expr power m e t = .ok e t := by
  cases m with
  | zero => rfl
  | succ m => simp only [operators, run_current]; rw [if_pos (by simpa using ht)]; rfl

omit hexpr in
theorem run_operators_infixed {power : Power} {m : Nat} {l r : Expr} {op : InfixOp} {x : String}
    (hs : s.Starts ⟨op.kind, x⟩) (hop : op.power.exceeds power)
    (hrun : expr op.power s.next = .ok r t) :
    operators expr power (m + 1) l s = operators expr power m
      (.infixed l ⟨op, s.stream.current.span⟩ r (l.span.through r.span)) t := by
  have hk : s.stream.current.kind = op.kind := hs.kind
  simp only [operators, run_current]
  rw [hk, power_infixOp, if_neg (by simp [hop]), ofKind?_infixOp]
  exact (run_advance (s := s)).trans (run_bind hrun)

omit hexpr in
theorem run_operators_postfixed {power : Power} {m : Nat} {p : Place} {op : PostfixOp} {x : String}
    (hs : s.Starts ⟨op.kind, x⟩) (hpower : Power.call.exceeds power) :
    operators expr power (m + 1) (.place p) s = operators expr power m
      (.postfixed p ⟨op, s.stream.current.span⟩ (p.span.through s.stream.current.span)) s.next := by
  have hk : s.stream.current.kind = op.kind := hs.kind
  simp only [operators, run_current]
  rw [hk, power_postfixOp, if_neg (by simp [hpower]), (ofKind?_postfixOp op).1,
    (ofKind?_postfixOp op).2]
  exact run_advance (s := s)

/-- From `s` the parser comes to go on behind `e` at `t`: it reads a first operand, and operators
one by one. -/
def Arrives (expr : Power → Parse Expr) (power : Power) (e : Expr) (s t : State) : Prop :=
  ∃ left u c, operand expr s = .ok left u ∧ c + t.stream.tokens.length ≤ u.stream.tokens.length ∧
    ∃ e', eraseExpr e' = eraseExpr e ∧
      ∀ m, operators expr power (c + m) left u = operators expr power m e' t

omit hexpr in
theorem arrives_operand {power : Power} {e : Expr}
    (he : ∃ e', operand expr s = .ok e' t ∧ eraseExpr e' = eraseExpr e) :
    Arrives expr power e s t := by
  obtain ⟨e', hrun, herase⟩ := he
  exact ⟨e', t, 0, hrun, by omega, e', herase, fun m => by rw [Nat.zero_add]⟩

theorem run_placeOperand {p : Place} (hp : PlaceShaped h p)
    (hn : (placeWords h p).length ≤ n + 1) (hw : s.Walks (placeWords h p) t)
    (ht : EndsPath t.kind) :
    ∃ p', operand expr s = .ok (.place p') t ∧ erasePlace p' = erasePlace p := by
  obtain ⟨p', hrun, herase⟩ := run_place hexpr hp hn hw ht
  obtain ⟨w, ws, hws, hk⟩ := exists_placeWords h p
  rw [hws] at hw
  refine ⟨p', ?_, herase⟩
  obtain ⟨id, hk⟩ | ⟨id, hk⟩ := hk
  · exact run_operand (hw.1.kind.trans hk) rfl (run_map hrun)
  · exact run_operand (hw.1.kind.trans hk) rfl (run_map hrun)

theorem run_spine : ∀ {e : Expr} {power : Power} {s t : State}, Shaped h e →
    (exprWords h e).length ≤ n + 1 → Power.call.exceeds power → BindsOver power e →
    s.Walks (exprWords h e) t → EndsExpr e.power t.kind →
    Arrives expr power e s t
  | .literal v span, power, s, t, he, hn, _, _, hw, ht => by
    obtain ⟨hs, rfl⟩ := hw
    exact arrives_operand ⟨_, run_literal he hs, rfl⟩
  | .format ss span, power, s, t, he, hn, _, _, hw, ht =>
    arrives_operand (run_format hexpr he hn hw)
  | .input prompt span, power, s, t, he, hn, _, _, hw, ht =>
    arrives_operand (run_input hexpr he hn hw)
  | .array es span, power, s, t, he, hn, _, _, hw, ht =>
    arrives_operand (run_array hexpr he hn hw)
  | .prefixed op e span, power, s, t, he, hn, _, _, hw, ht =>
    arrives_operand (run_prefixed hexpr he hn hw ht)
  | .place p, power, s, t, he, hn, _, _, hw, ht => by
    obtain ⟨p', hrun, herase⟩ := run_placeOperand hexpr he hn hw ht.1
    exact arrives_operand ⟨.place p', hrun, by rw [eraseExpr, eraseExpr, herase]⟩
  | .postfixed p op span, power, s, t, he, hn, hpower, _, hw, ht => by
    obtain ⟨u, hu, hop, rfl⟩ := walks_append.mp hw
    simp only [exprWords, List.length_append] at hn
    obtain ⟨p', hrun, herase⟩ := run_placeOperand hexpr he (by omega) hu
      (by rw [hop.kind]; exact endsPath_of_power (by rw [power_postfixOp]; decide))
    refine ⟨.place p', u, 1, hrun, by rw [hop.length]; omega,
      .postfixed p' ⟨op.value, u.stream.current.span⟩ (p'.span.through u.stream.current.span), ?_,
      fun m => ?_⟩
    · rw [eraseExpr, eraseExpr, herase]
      rfl
    · rw [Nat.add_comm, run_operators_postfixed hop hpower]
  | .infixed l op r span, power, s, t, ⟨hl, hr⟩, hn, hpower, hover, hw, ht => by
    obtain ⟨u, hu, hop, hw⟩ := walks_append.mp hw
    simp only [exprWords, List.length_append, List.length_cons] at hn
    have hlower : Arrives expr power l s u := by
      cases hparens : op.value.power.exceeds l.power with
      | true =>
        rw [hparens] at hu hn
        have hlength := length_wrapped (exprWords h l)
        exact arrives_operand (run_grouping hexpr hl (by omega) hu)
      | false =>
        rw [hparens] at hu hn
        have hends : EndsExpr l.power u.kind := by
          rw [hop.kind]
          refine ⟨endsPath_of_power ?_, by rw [power_infixOp]; exact hparens⟩
          rw [power_infixOp]
          exact power_ne_lowest op.value
        rw [wrapped_false] at hn
        refine run_spine hl (by omega) hpower ?_ hu hends
        cases l with
        | infixed => exact exceeds_of_exceeds hparens hover
        | _ => trivial
    obtain ⟨left, u₀, c, hfirst, hc, l', herase, hsame⟩ := hlower
    have hright : (!r.power.exceeds op.value.power) = false → BindsOver op.value.power r := by
      intro hparens
      cases r with
      | infixed => rwa [Bool.not_eq_false'] at hparens
      | _ => trivial
    obtain ⟨r', hrun, herase'⟩ := hexpr _ hr (by omega) (call_exceeds op.value) hright hw ht
    have hlength := hop.length
    have hlength' := hw.length
    refine ⟨left, u₀, c + 1, hfirst, by omega, .infixed l' ⟨op.value, u.stream.current.span⟩ r'
      (l'.span.through r'.span), ?_, fun m => ?_⟩
    · rw [eraseExpr, eraseExpr, herase, herase']
      rfl
    · rw [Nat.add_assoc, Nat.add_comm 1 m, hsame, run_operators_infixed hop hover hrun]

theorem run_wrapped {e : Expr} {parens : Bool} {power : Power} (he : Shaped h e)
    (hn : (wrapped parens (exprWords h e)).length ≤ n + 1) (hpower : Power.call.exceeds power)
    (hover : parens = false → BindsOver power e) (hw : s.Walks (wrapped parens (exprWords h e)) t)
    (ht : EndsExpr power t.kind) : Arrives expr power e s t := by
  cases parens with
  | true =>
    rw [length_wrapped] at hn
    exact arrives_operand (run_grouping hexpr he (by omega) hw)
  | false => exact run_spine hexpr he hn hpower (hover rfl) hw (endsExpr_power hpower (hover rfl) ht)

end Parts

/-! ### The round trip -/

theorem readsBack_exprWithin (h : Hand) (n : Nat) : ReadsBack h (exprWithin n) n := by
  induction n with
  | zero =>
    intro parens e power s t he hn hpower hover hw ht
    obtain ⟨w, ws, hws, -⟩ := exists_exprWords h e
    rw [hws] at hn
    cases parens <;> cases hn
  | succ n ih =>
    intro parens e power s t he hn hpower hover hw ht
    obtain ⟨left, u, c, hrun, hc, e', herase, hsame⟩ :=
      run_wrapped ih he hn hpower hover hw ht
    obtain ⟨m, hm⟩ : ∃ m, u.stream.tokens.length + 1 = c + m := Nat.exists_eq_add_of_le (by omega)
    refine ⟨e', ?_, herase⟩
    rw [exprWithin, run_bind hrun, run_bound, hm, hsame, run_operators_end ht.2]

/-- Reading an expression at `s` gives back `e` up to the spans, and nothing else than its tokens is
read. -/
def GivesBack (power : Power) (e : Expr) (s : State) (rest : List Token) : Prop :=
  ∃ e' t, expression power s = .ok e' t ∧ eraseExpr e' = eraseExpr e ∧ t.stream.tokens = rest ∧
    t.recorded = s.recorded ∧ t.loops = s.loops

/-- Kinds that stand behind expressions. -/
def closers : List Kind :=
  [.symbol .terminator, .symbol .comma, .symbol .closeParen, .symbol .closeBracket,
    .symbol .closeBrace, .stringPartMid, .stringPartEnd, .endOfFile]

theorem givesBack_exprWords {h : Hand} {e : Expr} (he : Shaped h e) {s : State}
    {ts rest : List Token} (hs : s.stream.tokens = ts ++ rest)
    (hts : ts.map Token.word = exprWords h e) {power : Power} (hpower : Power.call.exceeds power)
    (hover : BindsOver power e)
    (hf : EndsExpr power (rest.headD (endToken s.stream.stop)).kind) :
    GivesBack power e s rest := by
  obtain ⟨t, hw, rfl, hstop⟩ := exists_walks hs
  rw [hts] at hw
  have hlength : (exprWords h e).length ≤ s.stream.tokens.length + 1 := by
    have hl := hw.length
    omega
  have ht : EndsExpr power t.kind := by
    rwa [State.kind, Stream.current, hstop]
  obtain ⟨e', hrun, herase⟩ :=
    readsBack_exprWithin h _ false he hlength hpower (fun _ => hover) hw ht
  exact ⟨e', t, hrun, herase, rfl, hw.recorded, hw.loops⟩

/-- An expression that is written with no more parentheses than its tree needs is read back as it
is, whatever number of operators it is made of and however deep they are nested: before a token
that no expression goes on with, and with any power before a token that does not bind more
tightly, if only the expression itself does. -/
theorem expression_roundTrip {h : Hand} {e : Expr} (he : Shaped h e) {s : State}
    {ts rest : List Token} (hs : s.stream.tokens = ts ++ rest)
    (hts : ts.map Token.word = exprWords h e) :
    let follower := (rest.headD (endToken s.stream.stop)).kind
    (follower ∈ closers → GivesBack .lowest e s rest) ∧
      ∀ power, Power.call.exceeds power → BindsOver power e → EndsExpr power follower →
        GivesBack power e s rest := by
  intro follower
  have hread (power : Power) (hpower : Power.call.exceeds power) (hover : BindsOver power e)
      (hf : EndsExpr power follower) : GivesBack power e s rest :=
    givesBack_exprWords he hs hts hpower hover hf
  refine ⟨fun hf => hread .lowest rfl (bindsOver_lowest e) ?_, hread⟩
  have hall : ∀ k ∈ closers, EndsExpr .lowest k := by decide
  exact hall _ hf

/-- The tokens of `-(a + 1) * b`, without places. -/
def negatedSumTokens : List Token :=
  let words : List Word := [Symbol.dash.word, Symbol.openParen.word, ⟨.identifier 0, "a"⟩,
    Symbol.plus.word, ⟨.intLiteral, "1"⟩, Symbol.closeParen.word, Symbol.star.word,
    ⟨.identifier 1, "b"⟩]
  words.map fun w => ⟨w.kind, w.lexeme, default⟩

def negatedSum : Expr :=
  .infixed (.prefixed ⟨.negate, default⟩ (.infixed (.place (.link (.name ⟨"a", default⟩)))
    ⟨.add, default⟩ (.literal (.int 1) default) default) default)
    ⟨.multiply, default⟩ (.place (.link (.name ⟨"b", default⟩))) default

theorem negatedSum_roundTrip :
    GivesBack .sum negatedSum ⟨⟨negatedSumTokens, default, default⟩, [], 0⟩ [] := by
  let h : Hand := ⟨fun name => if name = "a" then 0 else 1, fun _ => 0, fun _ => ""⟩
  have he : Shaped h negatedSum := ⟨⟨trivial, (by decide : 1 ≤ maxInt)⟩, trivial⟩
  exact (expression_roundTrip he (List.append_nil _).symm (by decide)).2 .sum rfl rfl (by decide)

end Uwu.Grammar
