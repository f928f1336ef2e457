import LabelWeaver.Proofs.Grammar.Functions

/-! Expressions of two runs, from the atoms up to sequences. -/

namespace LabelWeaver

namespace Likeness

open Grammar

variable {L : Likeness} {lo hi : Nat} {r r' : Rules} (hr : L.RulesLike r r')

include hr

/-! ### Lists and members -/

theorem spreadOrAssign (lo : Nat) :
    L.Sim lo (spreadOrAssign r) (spreadOrAssign r') (L.on .item lo) := by
  refine .isAt fun b => ?_
  split
  · refine .advance fun _ _ _ => (hr.assign lo).bind fun _ he => .pure ?_
    exact bare rfl rfl rfl rfl (.cons he (.nil _))
  · exact (hr.assign lo).imp fun _ he => L.item he

theorem exprList (close : Token.Kind) (lo : Nat) :
    L.Sim lo (exprList r close) (exprList r' close) (Chain (L.on .item) lo) := by
  refine .withNoIn ((Sim.separated (spreadOrAssign hr) lo).bind fun _ hs => ?_)
  exact .expect fun _ _ _ => .pure hs

theorem memberStep (allowCall : Bool) {e e' : Expr} (he : L.rel lo hi (.expr e) (.expr e')) :
    L.Sim hi (memberStep r allowCall e) (memberStep r' allowCall e')
      (Optional (fun _ w e e' => L.on .expr lo w e e') hi) := by
  refine .eat fun b => ?_
  split
  · refine .expectPropertyName fun n n' hn => .pure (.some (expr ?_ (.cons he (.nil _))))
    simp only [Expr.skeleton, Name.bare, hn]
  · refine .eat fun b => ?_
    split
    · refine (Sim.withNoIn (hr.expr hi)).bind fun _ hp => .expect fun _ _ _ => .pure (.some ?_)
      exact expr rfl (.cons he (.cons hp (.nil _)))
    · split
      · refine .eat fun b => ?_
        split
        · refine (exprList hr _ hi).bind fun _ hs => .prevSpan fun _ _ => .pure (.some ?_)
          refine expr ?_ (.cons he (nodes hs))
          simp only [Expr.skeleton, hs.map_const]
        · exact .pure .none
      · exact .pure .none

theorem memberTail (allowCall : Bool) {e e' : Expr} (he : L.rel lo hi (.expr e) (.expr e')) :
    L.Sim hi (memberTail r allowCall e) (memberTail r' allowCall e') (L.on .expr lo) :=
  .extend (memberStep hr allowCall) he

/-! ### Literals -/

theorem arrayLiteral (lo : Nat) : L.Sim lo (arrayLiteral r) (arrayLiteral r') (L.on .expr lo) := by
  refine .expect fun _ _ _ => (Sim.withNoIn (Sim.elements (spreadOrAssign hr) lo)).bind fun _ hs => ?_
  refine .expect fun _ _ _ => .pure (expr ?_ (hs.filterMap id))
  simp only [Expr.skeleton, hs.map_holes]

theorem property (lo : Nat) : L.Sim lo (property r) (property r') (L.on .property lo) := by
  refine .eat fun b => ?_
  split
  · exact (hr.assign lo).bind fun _ he => .pure (bare rfl rfl rfl rfl (.cons he (.nil _)))
  · refine .here fun s s' => (propKey hr lo).bind fun _ hk => .eat fun b => ?_
    split
    · refine (hr.assign _).bind fun _ he => .pure ?_
      exact bare rfl rfl rfl rfl (.cons hk.rel (.cons he (.nil _)))
    · refine .isAt fun b => ?_
      split
      · refine (hr.function _ s s' false rfl).bind fun _ hf => .pure ?_
        exact bare rfl rfl rfl rfl (.cons hk.rel (.cons hf (.nil _)))
      · cases hk with
        | name hname =>
          refine .pure (bare rfl ?_ rfl rfl (.nil _))
          simp only [Node.skeleton, Name.bare, hname]
        | string => exact .failHere
        | number => exact .failHere
        | computed => exact .failHere

theorem objectLiteral (lo : Nat) : L.Sim lo (objectLiteral r) (objectLiteral r') (L.on .expr lo) := by
  refine .expect fun _ _ _ => (Sim.withNoIn (Sim.separated (property hr) lo)).bind fun _ hs => ?_
  refine .expect fun _ _ _ => .pure (expr ?_ (nodes hs))
  simp only [Expr.skeleton, hs.map_const]

omit hr in
theorem arrowFollows_bare (depth : Nat) (ts : List Token) :
    arrowFollows depth (ts.map Token.bare) = arrowFollows depth ts := by
  induction ts generalizing depth with
  | nil => rfl
  | cons t ts ih =>
    have hhead : (ts.map Token.bare).head?.any (fun t => t.kind == .punct .arrow && !t.newlineBefore) =
        ts.head?.any fun t => t.kind == .punct .arrow && !t.newlineBefore := by
      cases ts <;> rfl
    simp only [List.map_cons, arrowFollows, ih, hhead]
    rfl

variable {g g' : Grammar} (hg : L.HooksLike g g')

include hg

theorem parenthesized (lo : Nat) :
    L.Sim lo (parenthesized g r) (parenthesized g' r') (L.on .expr lo) := by
  refine .look (fun {c d} h => ?_) fun b => ?_
  · rw [← arrowFollows_bare, h.rest, arrowFollows_bare]
  · split
    · refine .here fun s s' => (function hr hg lo s s' true rfl).bind fun _ hf => .pure ?_
      exact expr rfl (.cons hf (.nil _))
    · refine .advance fun _ _ _ => (Sim.withNoIn (hr.expr lo)).bind fun _ he => ?_
      exact .expect fun _ _ _ => .pure he

theorem functionExpr (lo : Nat) : L.Sim lo (functionExpr g r) (functionExpr g' r') (L.on .expr lo) := by
  refine .advance fun _ _ _ => .look (fun h => h.isAtIdent) fun b => ?_
  refine Sim.either (A := fun w n n' => w = lo ∧ n.map (·.text) = n'.map (·.text)) ?_ (.pure ⟨rfl, rfl⟩) ?_
  · rw [map_eq_pure_bind]
    exact .expectIdent fun n n' hn => .pure ⟨rfl, congrArg some hn⟩
  · rintro w n n' - ⟨rfl, hn⟩
    refine (function hr hg w _ _ false hn).bind fun _ hf => .pure ?_
    exact expr rfl (.cons hf (.nil _))

omit hr hg in
theorem literal?_like {t t' : Token} (h : t.kind = t'.kind) :
    Option.Rel (fun e e' => ∀ lo, L.rel lo lo (.expr e) (.expr e')) (literal? t) (literal? t') := by
  unfold literal?
  rw [h]
  split
  all_goals first
    | exact .some fun lo => expr rfl (.nil lo)
    | exact .none

theorem baseAtom (lo : Nat) : L.Sim lo (baseAtom g r) (baseAtom g' r') (L.on .expr lo) := by
  refine .peek? .failHere fun t t' hbare => ?_
  have hkind := Sim.bare_kind hbare
  dsimp only
  rw [hkind]
  split
  · refine .look (fun h => ?_) fun b => ?_
    · have hahead := h.ahead 1 (fun t => t.kind == .punct .arrow && !t.newlineBefore) fun _ => rfl
      have hany : ∀ o : Option Token, o.any (fun t => t.kind == .punct .arrow && !t.newlineBefore) =
          (o.map fun t => t.kind == .punct .arrow && !t.newlineBefore).any id := by
        intro o
        cases o <;> rfl
      rw [hany, hahead, ← hany]
    · split
      · exact nameArrow hr hg lo
      · exact .advance fun _ _ _ => .pure (expr rfl (.nil lo))
  · have hliteral := literal?_like (L := L) hkind
    generalize literal? t = e, literal? t' = e' at hliteral
    cases hliteral with
    | some he => exact .advance fun _ _ _ => .pure (he lo)
    | none =>
      dsimp only
      split
      · exact parenthesized hr hg lo
      · exact arrayLiteral hr lo
      · exact objectLiteral hr lo
      · exact functionExpr hr hg lo
      · exact .failAt

/-! ### Operators -/

theorem atom (lo : Nat) : L.Sim lo (atom g r) (atom g' r') (L.on .expr lo) :=
  hg.atom hr (baseAtom hr hg) lo

theorem new (lo : Nat) : L.Sim lo (new g r) (new g' r') (L.on .expr lo) := by
  refine .expect fun _ _ _ => .isAt fun b => Sim.either (hr.new lo) (atom hr hg lo) fun _ he => ?_
  refine (memberTail hr false he).bind fun _ hcallee => .eat fun b => ?_
  refine Sim.either (exprList hr _ _) (.pure (.nil _)) fun _ hs => .prevSpan fun _ _ => .pure ?_
  refine expr ?_ (.cons hcallee (nodes hs))
  simp only [Expr.skeleton, hs.map_const]

theorem leftHandSide (lo : Nat) : L.Sim lo (leftHandSide g r) (leftHandSide g' r') (L.on .expr lo) :=
  .isAt fun _ => Sim.either (new hr hg lo) (atom hr hg lo) fun _ he => memberTail hr true he

omit hr hg in
/-- What can be assigned to in the first run can be in the second. -/
theorem checkUpdateTarget {α β : Type} {A : Nat → α → β → Prop} {e e' : Expr} {f : Unit → Parse α}
    {f' : Unit → Parse β} (he : L.rel lo hi (.expr e) (.expr e')) {w : Nat} (hf : L.Sim w (f ()) (f' ()) A) :
    L.Sim w (checkUpdateTarget e >>= f) (checkUpdateTarget e' >>= f') A := by
  unfold Grammar.checkUpdateTarget
  cases ht : e.isTarget with
  | true =>
    rw [if_pos rfl, if_pos (L.target he ht)]
    exact hf
  | false => exact .failAt_bind

omit hr hg in
theorem baseTrailing {e e' : Expr} (he : L.rel lo hi (.expr e) (.expr e')) :
    L.Sim hi (baseTrailing e) (baseTrailing e') (L.on .expr lo) := by
  refine .kind? fun k => ?_
  split
  · exact .pure he
  · refine .look (fun h => h.newlineBefore) fun b => ?_
    split
    · exact .pure he
    · refine checkUpdateTarget he (.advance fun _ _ _ => .pure ?_)
      exact expr rfl (.cons he (.nil _))

theorem unary (lo : Nat) : L.Sim lo (unary g r) (unary g' r') (L.on .expr lo) := by
  refine .kind? fun k => ?_
  split
  · refine .advance fun _ _ _ => (hr.unary lo).bind fun _ he => .pure ?_
    exact expr rfl (.cons he (.nil _))
  · split
    · refine .advance fun _ _ _ => (hr.unary lo).bind fun _ he => checkUpdateTarget he (.pure ?_)
      exact expr rfl (.cons he (.nil _))
    · exact (leftHandSide hr hg lo).bind fun _ he => hg.trailing hr he


omit hr hg in
theorem binaryOp?_beside {c d : Cursor} (h : c.Beside d) : binaryOp? c = binaryOp? d := by
  rw [binaryOp?, binaryOp?, h.kind?, h.noIn]

omit hg in
theorem binaryStep (least : Prec) {e e' : Expr} (he : L.rel lo hi (.expr e) (.expr e')) :
    L.Sim hi (binaryStep r least e) (binaryStep r' least e')
      (Optional (fun _ w e e' => L.on .expr lo w e e') hi) := by
  refine .look binaryOp?_beside fun op => ?_
  split
  · exact .pure .none
  · split
    · exact .pure .none
    · refine .advance fun _ _ _ => (hr.binary _ _).bind fun _ hright => .pure (.some ?_)
      exact expr rfl (.cons he (.cons hright (.nil _)))

theorem binary (lo : Nat) (least : Prec) :
    L.Sim lo (binary g r least) (binary g' r' least) (L.on .expr lo) :=
  (unary hr hg lo).bind fun _ he => .extend (binaryStep hr least) he

theorem conditional (lo : Nat) : L.Sim lo (conditional g r) (conditional g' r') (L.on .expr lo) := by
  refine (binary hr hg lo _).bind fun _ htest => .eat fun b => ?_
  split
  · refine (Sim.withNoIn (hr.assign _)).bind fun _ hthen => .expect fun _ _ _ => ?_
    refine (hr.assign _).bind fun _ helse => .pure ?_
    exact expr rfl (.cons htest (.cons hthen (.cons helse (.nil _))))
  · exact .pure htest

theorem assign (lo : Nat) : L.Sim lo (assign g r) (assign g' r') (L.on .expr lo) := by
  refine (conditional hr hg lo).bind fun {_ e e'} _ he => .kind? fun k => ?_
  split
  · exact .pure he
  · cases ht : e.isTarget with
    | true =>
      rw [L.target he ht]
      refine .advance fun _ _ _ => (hr.assign _).bind fun _ hvalue => .pure ?_
      exact expr rfl (.cons he (.cons hvalue (.nil _)))
    | false =>
      rw [if_pos (by rfl)]
      exact .failAt_bind

theorem sequence (lo : Nat) : L.Sim lo (Grammar.expr g r) (Grammar.expr g' r') (L.on .expr lo) := by
  refine (assign hr hg lo).bind fun _ hfirst => .eat fun b => ?_
  split
  · refine (Sim.commaList hr.assign _).bind fun _ hs => .pure ?_
    refine expr ?_ (.cons hfirst (nodes hs))
    simp only [Expr.skeleton, List.map_cons, hs.map_const]
  · exact .pure hfirst

end Likeness

end LabelWeaver
