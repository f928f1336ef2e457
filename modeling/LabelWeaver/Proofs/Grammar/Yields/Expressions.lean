import LabelWeaver.Proofs.Grammar.Yields.Functions

/-! What the readers of expressions yield, from the atoms up to sequences. -/

namespace LabelWeaver

namespace Making

open Grammar

variable {M : Making} {r r' : Rules} (hr : M.RulesYield r r')

include hr

/-! ### Lists and members -/

theorem spreadOrAssign (c : Cursor) :
    M.Yields Cursor.Never c (spreadOrAssign r) (spreadOrAssign r') (M.on .item c.nextSite) := by
  refine .look ?_
  split
  · refine .advance fun _ _ => (hr.assign _).bind fun he => .pure ?_
    exact M.node rfl trivial (.cons he (.nil _))
  · exact (hr.assign c).imp M.item

theorem exprList (close : Token.Kind) (c : Cursor) :
    M.Yields Cursor.Never c (exprList r close) (exprList r' close)
      fun c' es => Run (fun lo hi e => M.made lo hi (.item e)) c.nextSite c'.nextSite es := by
  refine .withNoIn id ((Yields.separated (D := Cursor.Never) (R := fun lo hi e => M.made lo hi (.item e))
    Cursor.Never.atColon (spreadOrAssign hr) _).bind fun hs => ?_)
  exact .expect fun _ _ => .pure hs

theorem memberStep (allowCall : Bool) {c : Cursor} {lo : Nat} {e : Expr} (he : M.on .expr lo c e) :
    M.Yields Cursor.Never c (memberStep r allowCall e) (memberStep r' allowCall e)
      (Stepped (M.on .expr lo) c) := by
  refine .eat (fun _ _ => ?_) fun _ => .eat (fun _ _ => ?_) fun _ => ?_
  · refine .expectPropertyName fun _ hn => .pure ?_
    exact M.node rfl hn (.cons he (.nil _))
  · refine (Yields.resetNoIn (hr.expr _)).bind fun hp => .expect fun _ _ => .pure ?_
    exact M.node rfl trivial (.cons he (.cons hp (.nil _)))
  · cases allowCall with
    | false => exact .pure rfl
    | true =>
      refine .eat (fun _ _ => ?_) fun _ => .pure rfl
      refine (exprList hr _ _).bind fun hs => .look (.pure ?_)
      exact M.node rfl trivial (.cons he (nodes hs))

theorem memberTail (allowCall : Bool) {c : Cursor} {lo : Nat} {e : Expr} (he : M.on .expr lo c e) :
    M.Yields Cursor.Never c (memberTail r allowCall e) (memberTail r' allowCall e) (M.on .expr lo) :=
  .extend (memberStep hr allowCall) he

/-! ### Literals -/

theorem arrayLiteral (c : Cursor) :
    M.Yields Cursor.Never c (arrayLiteral r) (arrayLiteral r') (M.on .expr c.nextSite) := by
  refine .expect fun _ _ => Yields.bind
    (A := fun c' es => Run (Maybe fun lo hi e => M.made lo hi (.item e)) c.nextSite c'.nextSite es)
    (.withNoIn id (.elements (D := Cursor.Never) Cursor.Never.atColon (spreadOrAssign hr) _)) fun hs => ?_
  exact .expect fun _ _ => .pure (M.node rfl trivial (hs.filterMap id))

theorem property (c : Cursor) :
    M.Yields Cursor.Never c (property r) (property r') (M.on .property c.nextSite) := by
  refine .eat (fun _ _ => ?_) fun _ => ?_
  · exact (hr.assign _).bind fun he => .pure (M.node rfl trivial (.cons he (.nil _)))
  · refine .look ((propKey hr c).bind fun {c' k} hk => .eat (fun _ _ => ?_) fun _ => .look ?_)
    · exact (hr.assign _).bind fun he => .pure (M.node rfl trivial (.cons hk.1 (.cons he (.nil _))))
    · split
      · refine (hr.function _ _ none false ⟨by simp, nofun⟩).bind fun hf => .pure ?_
        exact M.node rfl ⟨hf.2.2, hf.2.1⟩ (.cons hk.1 (.cons (hf.made) (.nil _)))
      · cases k with
        | name n =>
          obtain ⟨hname, hlo⟩ := hk.2 n rfl
          refine .pure ?_
          rw [on, hlo]
          exact M.node rfl hname (.nil _)
        | string => exact .failHere
        | number => exact .failHere
        | computed => exact .failHere

theorem objectLiteral (c : Cursor) :
    M.Yields Cursor.Never c (objectLiteral r) (objectLiteral r') (M.on .expr c.nextSite) := by
  refine .expect fun _ _ => Yields.bind
    (A := fun c' ps => Run (fun lo hi p => M.made lo hi (.property p)) c.nextSite c'.nextSite ps)
    (.withNoIn id (.separated (D := Cursor.Never) Cursor.Never.atColon (property hr) _)) fun hs => ?_
  exact .expect fun _ _ => .pure (M.node rfl trivial (nodes hs))

variable {head : Nat → Nat → Function → Prop} {g g' : Grammar} (hg : M.HooksYield head g g')

include hg

theorem parenthesized (c : Cursor) :
    M.Yields Cursor.Never c (parenthesized g r) (parenthesized g' r') (M.on .expr c.nextSite) := by
  refine .look ?_
  split
  · refine .look ((function hr hg c _ none true ⟨by simp, fun _ => rfl⟩).bind fun hf => .pure ?_)
    exact M.node rfl trivial (.cons (hf.made) (.nil _))
  · refine .advance fun _ _ => (Yields.resetNoIn (hr.expr _)).bind fun he => ?_
    exact .expect fun _ _ => .pure he

theorem functionExpr (c : Cursor) :
    M.Yields Cursor.Never c (functionExpr g r) (functionExpr g' r') (M.on .expr c.nextSite) := by
  refine .advance fun {t ts} _ _ => .look (.either (A := fun c' name => c'.nextSite = c.nextSite ∧ M.Named name false)
    (fun _ => ?_) (fun _ => .pure ⟨rfl, by simp [Named]⟩) fun {c' name} hname => ?_)
  · rw [map_eq_pure_bind]
    exact .expectIdent fun _ hn => .pure ⟨rfl, by simpa [Named] using hn⟩
  · refine (function hr hg c' _ name false hname.2).bind fun hf => .pure ?_
    rw [on, ← hname.1]
    exact M.node rfl trivial (.cons (hf.made) (.nil _))

omit hr hg in
theorem literal?_made {t : Token} {e : Expr} (h : literal? t = some e) (ht : M.admits t.kind) (lo : Nat) :
    M.made lo lo (.expr e) := by
  unfold literal? at h
  split at h
  case h_5 hk => cases h; exact M.node rfl (M.number (hk ▸ ht)) (.nil _)
  case h_7 hk => cases h; exact M.node rfl (M.regex (hk ▸ ht)) (.nil _)
  case h_8 => cases h
  all_goals
    cases h
    exact M.node rfl trivial (.nil _)

theorem baseAtom (c : Cursor) :
    M.Yields Cursor.Never c (baseAtom g r) (baseAtom g' r') (M.on .expr c.nextSite) := by
  refine .look ?_
  cases hpeek : c.peek? with
  | none => exact .failHere
  | some t =>
    dsimp only
    split
    · next name hname =>
      refine .look ?_
      split
      · exact nameArrow hr hg c
      · refine .advance fun {t' ts} hrest ht => .pure (M.node rfl ?_ (.nil _))
        rw [Cursor.peek?, hrest] at hpeek
        cases hpeek
        exact M.name ht hname
    · split
      · next e he =>
        refine .advance fun {t' ts} hrest ht => .pure ?_
        rw [Cursor.peek?, hrest] at hpeek
        cases hpeek
        exact literal?_made he ht _
      · split
        · exact parenthesized hr hg c
        · exact arrayLiteral hr c
        · exact objectLiteral hr c
        · exact functionExpr hr hg c
        · exact .failAt

/-! ### Operators -/

theorem atom (c : Cursor) : M.Yields Cursor.Never c (atom g r) (atom g' r') (M.on .expr c.nextSite) :=
  hg.atom hr (baseAtom hr hg) c

theorem new (c : Cursor) : M.Yields Cursor.Never c (new g r) (new g' r') (M.on .expr c.nextSite) := by
  refine .expect fun _ _ => .look (.either (A := M.on .expr c.nextSite) (fun _ => hr.new _)
    (fun _ => atom hr hg _) fun he => ?_)
  refine (memberTail hr false he).bind fun {c₁ callee} hcallee => ?_
  have hargs : ∀ {c₂ : Cursor} {args}, Run (fun lo hi e => M.made lo hi (.item e)) c₁.nextSite c₂.nextSite args →
      ∀ s, M.on .expr c.nextSite c₂ (.new s callee args) :=
    fun hs s => M.node rfl trivial (.cons hcallee (nodes hs))
  refine .eat (fun _ _ => ?_) fun _ => ?_
  · exact .either (fun _ => exprList hr _ _) (fun h => by cases h) fun hs => .look (.pure (hargs hs _))
  · exact .look (.pure (hargs (.nil _) _))

theorem leftHandSide (c : Cursor) :
    M.Yields Cursor.Never c (leftHandSide g r) (leftHandSide g' r') (M.on .expr c.nextSite) :=
  .look (.either (A := M.on .expr c.nextSite) (fun _ => new hr hg c) (fun _ => atom hr hg c)
    fun he => memberTail hr true he)

omit hr hg in
theorem checkUpdateTarget {α : Type} {D : Cursor → Prop} {c : Cursor} {A : Cursor → α → Prop} {e : Expr}
    {f f' : Unit → Parse α} (hf : e.isTarget = true → M.Yields D c (f ()) (f' ()) A) :
    M.Yields D c (checkUpdateTarget e >>= f) (checkUpdateTarget e >>= f') A := by
  unfold Grammar.checkUpdateTarget
  split
  · next ht => exact hf ht
  · exact .failAt_bind

omit hr hg in
theorem baseTrailing {c : Cursor} {lo : Nat} {e : Expr} (he : M.on .expr lo c e) :
    M.Yields Cursor.Never c (baseTrailing e) (baseTrailing e) (M.on .expr lo) := by
  refine .look ?_
  split
  · exact .pure he
  · refine .look ?_
    split
    · exact .pure he
    · refine checkUpdateTarget fun ht => .advance fun _ _ => .pure ?_
      exact M.node rfl ht (.cons he (.nil _))

theorem unary (c : Cursor) :
    M.Yields Cursor.Never c (unary g r) (unary g' r') (M.on .expr c.nextSite) := by
  refine .look ?_
  split
  · refine .advance fun _ _ => (hr.unary _).bind fun he => .pure ?_
    exact M.node rfl trivial (.cons he (.nil _))
  · split
    · refine .advance fun _ _ => (hr.unary _).bind fun he => checkUpdateTarget fun ht => .pure ?_
      exact M.node rfl ht (.cons he (.nil _))
    · exact (leftHandSide hr hg c).bind fun he => hg.trailing hr he

omit hg in
theorem binaryStep (least : Prec) {c : Cursor} {lo : Nat} {e : Expr} (he : M.on .expr lo c e) :
    M.Yields Cursor.Never c (binaryStep r least e) (binaryStep r' least e)
      (Stepped (M.on .expr lo) c) := by
  refine .look ?_
  split
  · exact .pure rfl
  · split
    · exact .pure rfl
    · refine .advance fun _ _ => (hr.binary _ _).bind fun hright => .pure ?_
      exact M.node rfl trivial (.cons he (.cons hright (.nil _)))

theorem binary (c : Cursor) (least : Prec) :
    M.Yields Cursor.Never c (binary g r least) (binary g' r' least) (M.on .expr c.nextSite) :=
  (unary hr hg c).bind fun he => .extend (binaryStep hr least) he

theorem conditional (c : Cursor) :
    M.Yields Cursor.Never c (conditional g r) (conditional g' r') (M.on .expr c.nextSite) := by
  refine (binary hr hg c _).bind fun htest => .eat (fun _ _ => ?_) fun _ => .pure htest
  refine (Yields.resetNoIn (hr.assign _)).bind fun hthen => .expect fun _ _ => ?_
  refine (hr.assign _).bind fun helse => .pure ?_
  exact M.node rfl trivial (.cons htest (.cons hthen (.cons helse (.nil _))))

theorem assign (c : Cursor) :
    M.Yields Cursor.Never c (assign g r) (assign g' r') (M.on .expr c.nextSite) := by
  refine (conditional hr hg c).bind fun {_ e} he => .look ?_
  split
  · exact .pure he
  · cases ht : e.isTarget with
    | true =>
      refine .advance fun _ _ => (hr.assign _).bind fun hvalue => .pure ?_
      exact M.node rfl ht (.cons he (.cons hvalue (.nil _)))
    | false => exact .failAt_bind

theorem sequence (c : Cursor) :
    M.Yields Cursor.Never c (Grammar.expr g r) (Grammar.expr g' r') (M.on .expr c.nextSite) := by
  refine (assign hr hg c).bind fun hfirst => .eat (fun _ _ => ?_) fun _ => .pure hfirst
  refine (Yields.commaList (D := Cursor.Never) (R := fun lo hi e => M.made lo hi (.expr e))
    Cursor.Never.atColon hr.assign _).bind
    fun {_ items} hs => .pure (M.node rfl ?_ (.cons hfirst (nodes hs.2)))
  have hpos := List.length_pos_iff.mpr hs.1
  exact Nat.succ_le_succ hpos

end Making

end LabelWeaver
