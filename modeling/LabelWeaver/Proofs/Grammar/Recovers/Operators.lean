import LabelWeaver.Proofs.Grammar.Recovers.Levels

/-! Operators, accesses and calls: what is made of readable texts is readable. -/

namespace LabelWeaver

open Layout Parse

/-! ### Readable texts where they are called -/

namespace Readable

variable {level : Prec} {exposes calls b : Bool} {lo hi : Nat} {ks : Text} {e : Expr}

theorem callExpr (h : Readable level exposes calls lo hi ks e) (hb : b = true → exposes = false) :
    Calling b (Ends false .sequence) lo hi ks Rules.expr (·.bare = e) :=
  (h.expr hb).calling fun _ _ => rfl

theorem callAssign (h : Readable .assign exposes calls lo hi ks e) (hb : b = true → exposes = false) :
    Calling b (Ends false .assign) lo hi ks Rules.assign (·.bare = e) :=
  (h.assign (by decide) hb).calling fun _ _ => rfl

theorem callUnary (h : Readable .unary exposes calls lo hi ks e) :
    Calling b (Ends b .unary) lo hi ks Rules.unary (·.bare = e) :=
  (h.unary (by decide)).calling fun _ _ => rfl

/-- Operators are read up to one that binds too loosely. -/
theorem operand {d : Nat} {least stop : Prec} (h : Readable level exposes calls lo hi ks e) (hor : .or ≤ level)
    (hb : b = true → exposes = false) (hleast : least ≤ level)
    (hstop : ∀ op : BinaryOp, op.prec < stop → op.prec < least) :
    Recovers d b (fun k => Ends b level.behind k ∧ Ends b stop k) lo hi ks
      (Grammar.binary [] (Grammar.rules [] d) least) (·.bare = e) :=
  (h.binary hor hb hleast).stop (fun _ hk => hk.1) fun _ _ _ _ _ hc hrest =>
    binaryStep_stop hc fun op hop hin => hstop op (hrest.2.ofBinary hop hin)

theorem condition (h : Readable level exposes calls lo hi ks e) (hor : .or ≤ level) (hb : b = true → exposes = false) :
    Reading b (Ends b .conditional) lo hi ks (Grammar.conditional []) (·.bare = e) := fun _ =>
  (h.binary hor hb (Nat.zero_le _)).conditional fun _ hk => ⟨hk.mono (by revert hor; cases level <;> decide), hk⟩

end Readable

/-! ### Lists of expressions -/

/-- The text stands for an element of a list of expressions, which may have dots. -/
structure ReadableItem (lo hi : Nat) (ks : Text) (e : Expr) : Prop where
  starts : ∃ k ks', ks = some k :: ks' ∧ (k = .punct .ellipsis ∨ k.startsExpr = true)
  balanced : Balanced ks
  reads : Calling false (Ends false .assign) lo hi ks Grammar.spreadOrAssign (·.bare = e)

theorem Token.Kind.ne_of_startsExpr {k k' : Token.Kind} (h : k.startsExpr = true) (hk' : k'.startsExpr = false) :
    k ≠ k' := by
  rintro rfl
  cases hk'.symm.trans h

section
variable {exposes calls : Bool} {lo hi : Nat} {ks : Text} {e : Expr}

theorem Readable.item (h : Readable .assign exposes calls lo hi ks e) : ReadableItem lo hi ks e where
  starts := by
    obtain ⟨k, ks', hks, hk, -⟩ := h.starts
    exact ⟨k, ks', hks, .inr hk⟩
  balanced := h.balanced
  reads d m hm c line rest hcount hrest hc := by
    obtain ⟨k, ks', rfl, hk, -⟩ := h.starts
    have hdots : k.sameSort (.punct .ellipsis) = false := by simpa using Token.Kind.ne_of_startsExpr hk rfl
    refine .isAt hc ?_
    rw [List.cons_append, first_some, hdots]
    exact h.callAssign (b := false) nofun hm hcount hrest hc

theorem Readable.spread (h : Readable .assign exposes calls lo hi ks e) :
    ReadableItem lo hi (some (.punct .ellipsis) :: ks) (.spread .zero e) where
  starts := ⟨_, _, rfl, .inl rfl⟩
  balanced := h.balanced.token fun _ => rfl
  reads d m hm c line rest hcount hrest hc := by
    rw [List.cons_append, count_some] at hcount
    refine .isAt hc (.advance hc nofun fun t c' _ hc' => ?_)
    refine (h.callAssign (b := false) nofun hm (by omega) hrest hc').andThen fun a c'' h' => ?_
    exact .pure ⟨h'.1, congrArg (Expr.spread .zero) h'.2⟩

theorem ReadableItem.first_ne {k : Token.Kind} (h : ReadableItem lo hi ks e) (hk : k ≠ .punct .ellipsis)
    (hstart : k.startsExpr = false) (rest : Text) : first (ks ++ rest) ≠ k := by
  obtain ⟨k', ks', rfl, rfl | hk'⟩ := h.starts
  · exact hk.symm
  · exact Token.Kind.ne_of_startsExpr hk' hstart

end

section
variable {ι : Type} {t : ι → Text} {f : ι → Expr} {b : Bool} {lo mid hi d m : Nat} {xs : List ι} {rest : Text}
  {c : Cursor}

theorem map_eq_of_forall₂ {α β γ : Type} {f : α → γ} {g : β → γ} {xs : List α} {ys : List β}
    (h : List.Forall₂ (fun x y => g y = f x) xs ys) : ys.map g = xs.map f := by
  induction h with
  | nil => rfl
  | cons hxy _ ih => rw [List.map_cons, List.map_cons, hxy, ih]

theorem map_eq_of_forall₂_rel {α β γ : Type} {f : α → γ} {g : β → γ} {xs : List (Option α)} {ys : List (Option β)}
    (h : List.Forall₂ (Option.Rel fun x y => g y = f x) xs ys) : ys.map (Option.map g) = xs.map (Option.map f) := by
  refine map_eq_of_forall₂ (h.imp fun x y hxy => ?_)
  cases hxy with
  | none => rfl
  | some hxy => exact congrArg some hxy

/-- The text of arguments in parentheses. -/
def argTexts (texts : List Text) : Text :=
  some (.punct .lparen) :: (commaTexts texts ++ [some (Token.Kind.punct .rparen)])

theorem balanced_argTexts (hrun : Run (fun lo hi x => ReadableItem lo hi (t x) (f x)) lo hi xs) :
    Balanced (argTexts (xs.map t)) := by
  refine .enclosed isPair_parens (.commaTexts fun ks hks => ?_) .nil
  obtain ⟨x, hx, rfl⟩ := List.mem_map.mp hks
  obtain ⟨_, _, hitem⟩ := hrun.mem hx
  exact hitem.balanced

/-- Arguments behind the opening parenthesis. -/
theorem Gives.exprList (hrun : Run (fun lo hi x => ReadableItem lo hi (t x) (f x)) lo hi xs) (hm : m < d)
    (hcount : count (commaTexts (xs.map t) ++ some (Token.Kind.punct .rparen) :: rest) ≤ m)
    (hc : c.Ready false b lo (commaTexts (xs.map t) ++ some (Token.Kind.punct .rparen) :: rest)) :
    Gives c (Grammar.exprList (Grammar.rules [] d) (.punct .rparen)) fun es c' =>
      c'.Ready false b hi rest ∧ Bare.exprs es = xs.map f := by
  refine .underNoIn hc fun c₀ h₀ => ?_
  refine .andThen (.separated (A := fun x (e : Expr) => e.bare = f x) (by decide) (fun hx => hx.reads hm)
    (fun hx => hx.first_ne nofun rfl) ⟨ends_comma, ends_of_none rfl⟩ hrun rfl hcount h₀) fun es c₁ h₁ => ?_
  refine .expect h₁.1 nofun fun _ c₂ _ h₂ => .pure ⟨h₂, ?_⟩
  rw [Bare.exprs_eq, map_eq_of_forall₂ h₁.2]

end

/-! ### Accesses and calls -/

namespace Readable

variable {ι : Type} {t : ι → Text} {f : ι → Expr} {exposes exposes' calls calls' : Bool} {level : Prec}
  {lo mid hi : Nat} {ks ks' : Text} {e e' : Expr} {xs : List ι}

/-- One more access or call. -/
theorem extended (h : Readable .call exposes calls lo mid ks e) {k : Token.Kind} (hcalls : calls = true → calls' = true)
    (hk : ∀ {b}, Ends b .primary k) (hbalanced : Balanced (some k :: ks'))
    (hstep : ∀ {b allowCall m d}, m ≤ d → (allowCall = false → calls' = false) → ∀ a : Expr, a.bare = e →
      Recovers m b (Ends b .primary) mid hi (some k :: ks') (Grammar.memberStep (Grammar.rules [] d) allowCall a)
        fun o => ∃ a', o = some a' ∧ a'.bare = e') :
    Readable .call false calls' lo hi (ks ++ some k :: ks') e' := by
  obtain ⟨k₀, ks₀, rfl, -, hk₀⟩ := h.starts
  refine ofChain (Nat.le_refl _) (hk₀ (by decide)) (h.balanced.append hbalanced) fun {b allowCall m d} hm hcall => ?_
  refine (h.chain (Nat.le_refl _) hm fun hfalse => ⟨(hcall hfalse).1, ?_⟩).more (by simp)
    (hstep hm fun hfalse => (hcall hfalse).2) fun _ _ => hk
  cases calls with
  | false => rfl
  | true => cases (hcalls rfl).symm.trans (hcall hfalse).2

theorem member {k : Token.Kind} {x : String} (h : Readable .call exposes calls lo hi ks e)
    (hk : k.propertyText? = some x) :
    Readable .call false calls lo hi (ks ++ [some (Token.Kind.punct .dot), some k]) (.member .zero e ⟨.zero, x⟩) := by
  have hstep : ∀ depth, step depth (some k) = some depth := by
    intro depth
    cases k with
    | punct | eof => cases hk
    | _ => rfl
  refine h.extended id (by rintro b p ⟨⟩; decide) ((Balanced.nil.token hstep).token fun _ => rfl) ?_
  intro b allowCall m d hm _ a ha c line rest hcount hrest hc
  refine .eat hc rfl fun c₁ h₁ => .expectPropertyName h₁ hk fun name c₂ hname h₂ => .pure ⟨h₂, _, rfl, ?_⟩
  rw [Expr.bare, ha, Name.bare, hname]

theorem index (h : Readable .call exposes calls lo mid ks e) (h' : Readable level exposes' calls' mid hi ks' e') :
    Readable .call false calls lo hi (ks ++ some (Token.Kind.punct .lbracket) :: (ks' ++ [some (Token.Kind.punct .rbracket)]))
      (.index .zero e e') := by
  refine h.extended id (by rintro b p ⟨⟩; decide) (.enclosed isPair_brackets h'.balanced .nil) ?_
  intro b allowCall m d hm _ a ha c line rest hcount hrest hc
  rw [List.cons_append, List.append_assoc, List.singleton_append] at hc hcount
  rw [count_some] at hcount
  have hread := (h'.callExpr (b := false) nofun (Nat.lt_of_succ_le (Nat.le_trans hcount hm))).withNoIn (b := b)
  refine .pass hc rfl (.eat hc rfl fun c₁ h₁ => ?_)
  refine (hread (Nat.le_refl _) (ends_of_none rfl) h₁).andThen fun a' c₂ h₂ => ?_
  refine .expect h₂.1 nofun fun _ c₃ _ h₃ => .pure ⟨h₃, _, rfl, ?_⟩
  rw [Expr.bare, ha, h₂.2]

theorem call (h : Readable .call exposes calls lo mid ks e)
    (hrun : Run (fun lo hi x => ReadableItem lo hi (t x) (f x)) mid hi xs) :
    Readable .call false true lo hi (ks ++ argTexts (xs.map t)) (.call .zero e (xs.map f)) := by
  refine h.extended (fun _ => rfl) (by rintro b p ⟨⟩; decide) (balanced_argTexts hrun) ?_
  intro b allowCall m d hm hcall a ha c line rest hcount hrest hc
  cases allowCall with
  | false => cases hcall rfl
  | true =>
    rw [List.cons_append, List.append_assoc, List.singleton_append] at hc hcount
    rw [count_some] at hcount
    refine .pass hc rfl (.pass hc rfl (.eat hc rfl fun c₁ h₁ => ?_))
    refine (Gives.exprList hrun (Nat.lt_of_succ_le (Nat.le_trans hcount hm)) (Nat.le_refl _) h₁).andThen
      fun es c₂ h₂ => .look (.pure ⟨h₂.1, _, rfl, ?_⟩)
    rw [Expr.bare, ha, h₂.2]

/-- What starts with `new`; the parenthesis behind the callee belongs to it. -/
theorem new_reading {b : Bool} (h : Readable .call exposes false lo mid ks e)
    (hrun : Run (fun lo hi x => ReadableItem lo hi (t x) (f x)) mid hi xs) :
    Reading b (fun _ => True) lo hi (some (.reserved .kwNew) :: (ks ++ argTexts (xs.map t))) (Grammar.new [])
      (·.bare = .new .zero e (xs.map f)) := by
  intro d c line rest hcount _ hc
  rw [List.cons_append, List.append_assoc] at hc hcount
  rw [count_some] at hcount
  rw [Grammar.new_eq]
  have hcallee : Recovers (d - 1) b (· = .punct .lparen) lo mid ks (Grammar.chain false (Grammar.rules [] d))
      (·.bare = e) := by
    refine (h.chain (Nat.le_refl _) (Nat.sub_le d 1) fun _ => ⟨by omega, rfl⟩).stop ?_ ?_
    · rintro k rfl p ⟨⟩
      decide
    · intro a c line n rest hc hrest
      exact memberStep_stop hc (by simp [hrest]) (by simp [hrest]) nofun
  refine .expect hc nofun fun word c₁ _ h₁ => (hcallee (by omega) rfl h₁).andThen fun callee c₂ h₂ => ?_
  have hargs := h₂.1
  rw [argTexts, List.cons_append, List.append_assoc, List.singleton_append] at hargs hcount
  rw [count_append, count_some] at hcount
  refine .eat hargs rfl fun c₃ h₃ => ?_
  refine (Gives.exprList hrun (Nat.sub_lt (by omega) Nat.one_pos) (by omega) h₃).andThen fun es c₄ h₄ => ?_
  refine .look (.pure ⟨h₄.1, ?_⟩)
  exact congrArg₂ (Expr.new .zero) h₂.2 h₄.2

theorem new (h : Readable .call exposes false lo mid ks e)
    (hrun : Run (fun lo hi x => ReadableItem lo hi (t x) (f x)) mid hi xs) :
    Readable .call false false lo hi (some (.reserved .kwNew) :: (ks ++ argTexts (xs.map t)))
      (.new .zero e (xs.map f)) := by
  have hbalanced : Balanced (some (.reserved .kwNew) :: (ks ++ argTexts (xs.map t))) :=
    (h.balanced.append (balanced_argTexts hrun)).token fun _ => rfl
  refine ofChain (Nat.le_refl _) rfl hbalanced fun {b allowCall m d} hm hcall => Recovers.leads ?_
  intro c line rest hcount hrest hc
  refine .isAt hc ?_
  cases allowCall with
  | true => exact (new_reading h hrun d (Nat.le_trans hcount hm) trivial hc)
  | false =>
    have hcalling := (new_reading (b := b) h hrun).calling (q := Rules.new) fun _ _ => rfl
    exact hcalling (hcall rfl).1 hcount trivial hc

/-! ### Operators -/

theorem unaryOp (op : UnaryOp) (h : Readable .unary exposes calls lo hi ks e) :
    Readable .unary false false lo hi (some op.token :: ks) (.unary .zero op e) := by
  refine ofUnary (Nat.le_refl _) (by decide) (by cases op <;> rfl) (fun hle => absurd hle (by decide))
    (h.balanced.token (by cases op <;> exact fun _ => rfl)) fun {b} d c line rest hcount hrest hc => ?_
  rw [List.cons_append, count_some] at hcount
  refine .kind? hc ?_
  rw [List.cons_append, first_some, Option.bind_some, UnaryOp.ofToken?_token]
  refine .advance hc (by cases op <;> nofun) fun tok c₁ _ h₁ => ?_
  refine (h.callUnary (Nat.lt_of_succ_le hcount) (Nat.le_refl _) hrest h₁).andThen fun a c₂ h₂ => ?_
  exact .pure ⟨h₂.1, congrArg (Expr.unary .zero op) h₂.2⟩

theorem checkUpdateTarget_gives {c : Cursor} {a : Expr} {α : Type} {p : Parse α} {Q : α → Cursor → Prop}
    (ha : a.isTarget = true) (h : Gives c p Q) : Gives c (Grammar.checkUpdateTarget a >>= fun _ => p) Q := by
  rw [Grammar.checkUpdateTarget, if_pos ha]
  exact h

theorem isTarget_of_bare {a : Expr} (ha : a.bare = e) (he : e.isTarget = true) : a.isTarget = true := by
  rw [← Expr.isTarget_bare, ha, he]

theorem leadingUpdate (op : UpdateOp) (h : Readable .unary exposes calls lo hi ks e) (he : e.isTarget = true) :
    Readable .unary false false lo hi (some (.punct op.sign) :: ks) (.update .zero op true e) := by
  refine ofUnary (Nat.le_refl _) (by decide) (by cases op <;> rfl) (fun hle => absurd hle (by decide))
    (h.balanced.token (by cases op <;> exact fun _ => rfl)) fun {b} d c line rest hcount hrest hc => ?_
  rw [List.cons_append, count_some] at hcount
  refine .kind? hc ?_
  have hunary : UnaryOp.ofToken? (.punct op.sign) = none := by cases op <;> rfl
  rw [List.cons_append, first_some, Option.bind_some, Option.bind_some, hunary, UpdateOp.ofToken?_sign]
  refine .advance hc nofun fun tok c₁ _ h₁ => ?_
  refine (h.callUnary (Nat.lt_of_succ_le hcount) (Nat.le_refl _) hrest h₁).andThen fun a c₂ h₂ => ?_
  refine checkUpdateTarget_gives (isTarget_of_bare h₂.2 he) (.pure ⟨h₂.1, ?_⟩)
  exact congrArg (Expr.update .zero op true) h₂.2

theorem trailingUpdate (op : UpdateOp) (h : Readable .call exposes calls lo hi ks e) (he : e.isTarget = true) :
    Readable .update false false lo hi (ks ++ [some (Token.Kind.punct op.sign)]) (.update .zero op false e) := by
  obtain ⟨k, ks₀, rfl, hk, hoperand⟩ := h.starts
  have hbalanced : Balanced ((some k :: ks₀) ++ [some (Token.Kind.punct op.sign)]) :=
    h.balanced.append (Balanced.nil.token (by cases op <;> exact fun _ => rfl))
  rw [List.cons_append] at hbalanced ⊢
  refine ofUnary (by decide) (by decide) hk (fun _ => hoperand (by decide)) hbalanced
    fun {b} d c line rest hcount _ hc => ?_
  rw [List.cons_append, List.append_assoc, List.singleton_append] at hc hcount
  obtain ⟨hunary, hupdate⟩ := Token.Kind.ofToken?_of_startsOperand (hoperand (by decide))
  have hsign : Ends b .call (.punct op.sign) := by
    cases op <;> rintro p ⟨⟩ <;> decide
  have hchain : Recovers d b (Ends b .call) lo hi (some k :: ks₀) (Grammar.chain true (Grammar.rules [] d))
      (·.bare = e) := by
    have hlead : Leads d b (Ends b .primary) lo hi (some k :: ks₀) (Grammar.chain true (Grammar.rules [] d))
        (Grammar.memberStep (Grammar.rules [] d) true) (·.bare = e) := h.chain (Nat.le_refl _) (Nat.le_refl d) nofun
    refine hlead.stop (fun k hk => hk.mono (by decide)) fun a c line n rest hc hends => ?_
    exact memberStep_stop hc (hends.ne _ rfl (by decide)) (hends.ne _ rfl (by decide))
      fun _ => hends.ne _ rfl (by decide)
  refine .kind? hc ?_
  rw [first_some, Option.bind_some, Option.bind_some, hunary, hupdate]
  dsimp only
  rw [Grammar.leftHandSide_eq]
  refine (hchain hcount hsign hc).andThen fun a c₁ h₁ => .kind? h₁.1 ?_
  rw [first_some, Option.bind_some, UpdateOp.ofToken?_sign]
  refine .look ?_
  rw [h₁.1.newlineBefore]
  refine checkUpdateTarget_gives (isTarget_of_bare h₁.2 he) (.advance h₁.1 nofun fun tok c₂ _ h₂ => .pure ⟨h₂, ?_⟩)
  exact congrArg (Expr.update .zero op false) h₁.2

theorem binaryOp (op : BinaryOp) {left : Prec} (hleft : left = if op = .pow then .update else op.prec)
    (h : Readable left exposes calls lo mid ks e) (h' : Readable op.rightPrec exposes' calls' mid hi ks' e') :
    Readable op.prec (op == .in || (exposes || exposes')) false lo hi (ks ++ some op.token :: ks')
      (.binary .zero op e e') := by
  obtain ⟨k, ks₀, rfl, hk, -⟩ := h.starts
  have htoken : ∀ depth, step depth (some op.token) = some depth := by
    cases op <;> exact fun _ => rfl
  refine ofBinary (by cases op <;> decide) hk (h.balanced.append (h'.balanced.token htoken))
    fun {b least d} hb hleast => ?_
  have hexposes : b = true → (¬op = .in ∧ exposes = false) ∧ exposes' = false := by
    intro hb'
    simpa [and_assoc] using hb hb'
  have hor : .or ≤ op.rightPrec := by cases op <;> decide
  have hlevel : .or ≤ left ∧ op.prec ≤ left ∧ op.prec < left.behind := by
    rw [hleft]
    cases op <;> decide
  have hbehind : op.prec.behind = op.rightPrec ∧ op.rightPrec ≤ op.rightPrec.behind := by
    cases op <;> decide
  refine (h.binary hlevel.1 (fun hb' => (hexposes hb').1.2) (Nat.le_trans hleast hlevel.2.1)).more (by simp) ?_
    fun rest _ => ends_binaryOp op hlevel.2.2
  intro a ha c line rest hcount hrest hc
  rw [List.cons_append, count_some] at hcount
  refine .look ?_
  have hop : Grammar.binaryOp? c = some op := by
    unfold Grammar.binaryOp?
    rw [hc.kind?, hc.noIn, List.cons_append, first_some, Option.bind_some, BinaryOp.ofToken?_token]
    exact if_neg fun hin => (hexposes hin.2).1.1 hin.1
  rw [hop]
  have htight : ¬op.prec < least := Nat.not_lt.mpr hleast
  dsimp only
  rw [if_neg htight]
  refine .advance hc (by cases op <;> nofun) fun tok c₁ _ h₁ => ?_
  have hright : Reading b (Ends b op.prec.behind) mid hi ks' (Grammar.binary [] · op.rightPrec) (·.bare = e') :=
    fun d => (h'.operand hor (fun hb' => (hexposes hb').2) (Nat.le_refl _) fun _ => id).follow fun k hk =>
      ⟨(hbehind.1 ▸ hk).mono hbehind.2, hbehind.1 ▸ hk⟩
  have hcalling := hright.calling (q := fun r => r.binary op.rightPrec) fun _ _ => rfl
  refine (hcalling (Nat.lt_of_succ_le hcount) (Nat.le_refl _) hrest h₁).andThen fun a' c₂ h₂ => ?_
  exact .pure ⟨h₂.1, _, rfl, congrArg₂ (Expr.binary .zero op) ha h₂.2⟩

theorem assignOp (op : AssignOp) (h : Readable .call false calls lo mid ks e) (he : e.isTarget = true)
    (h' : Readable .assign exposes' calls' mid hi ks' e') :
    Readable .assign exposes' false lo hi (ks ++ some (Token.Kind.punct op.sign) :: ks') (.assign .zero op e e') := by
  obtain ⟨k, ks₀, rfl, hk, -⟩ := h.starts
  have hsign : ∀ depth, step depth (some (.punct op.sign)) = some depth := by
    cases op <;> exact fun _ => rfl
  refine ofAssign (by decide) hk (h.balanced.append (h'.balanced.token hsign))
    fun {b} hb d c line rest hcount hrest hc => ?_
  have hc : c.Ready line b lo ((some k :: ks₀) ++ some (Token.Kind.punct op.sign) :: (ks' ++ rest)) := by simpa using hc
  have hcount : count ((some k :: ks₀) ++ some (Token.Kind.punct op.sign) :: (ks' ++ rest)) ≤ d := by simpa using hcount
  have htarget := h.condition (b := b) (by decide) (fun _ => rfl) d hcount (ends_assignOp op) hc
  refine htarget.andThen fun a c₁ h₁ => .kind? h₁.1 ?_
  rw [first_some, Option.bind_some, AssignOp.ofToken?_sign]
  dsimp only
  rw [isTarget_of_bare h₁.2 he]
  refine .advance h₁.1 nofun fun tok c₂ _ h₂ => ?_
  rw [count_append, count_some, count_some] at hcount
  refine (h'.callAssign hb (Nat.lt_of_succ_le (n := count (ks' ++ rest)) (by omega)) (Nat.le_refl _) hrest h₂).andThen
    fun a' c₃ h₃ => .pure ⟨h₃.1, ?_⟩
  exact congrArg₂ (Expr.assign .zero op) h₁.2 h₃.2

theorem choice {exposes₂ calls₂ : Bool} {mid₂ : Nat} {ks₂ : Text} {e₂ : Expr}
    (h : Readable .or exposes calls lo mid ks e) (h' : Readable .assign exposes' calls' mid mid₂ ks' e')
    (h₂ : Readable .assign exposes₂ calls₂ mid₂ hi ks₂ e₂) :
    Readable .conditional (exposes || exposes₂) false lo hi
      (ks ++ some (Token.Kind.punct .question) :: (ks' ++ some (Token.Kind.punct .colon) :: ks₂)) (.conditional .zero e e' e₂) := by
  obtain ⟨k, ks₀, rfl, hk, -⟩ := h.starts
  have hbalanced : Balanced (some (.punct .question) :: (ks' ++ some (Token.Kind.punct .colon) :: ks₂)) :=
    (h'.balanced.append (h₂.balanced.token fun _ => rfl)).token fun _ => rfl
  refine ofAssign (by decide) hk (h.balanced.append hbalanced) fun {b} hb d =>
    Recovers.assign (?_ : Recovers d b (Ends false .assign) lo hi _ _ _) fun k hk => ⟨hk, hk.any⟩
  have hexposes : b = true → exposes = false ∧ exposes₂ = false := by simpa using hb
  intro c line rest hcount hrest hc
  have hc : c.Ready line b lo ((some k :: ks₀) ++ some (Token.Kind.punct .question) ::
    (ks' ++ some (Token.Kind.punct .colon) :: (ks₂ ++ rest))) := by simpa using hc
  have hcount : count ((some k :: ks₀) ++ some (Token.Kind.punct .question) ::
    (ks' ++ some (Token.Kind.punct .colon) :: (ks₂ ++ rest))) ≤ d := by simpa using hcount
  have htest : Recovers d b (Ends b .or) lo mid (some k :: ks₀) (Grammar.binary [] (Grammar.rules [] d) .sequence)
      (·.bare = e) :=
    (h.operand (Nat.le_refl _) (fun hb' => (hexposes hb').1) (by decide) fun op => by cases op <;> decide).follow
      fun k hk => ⟨hk.mono (by decide), hk⟩
  refine (htest hcount ends_question hc).andThen fun a c₁ h₁ => .eat h₁.1 rfl fun c₂ hc₂ => ?_
  rw [count_append, count_some, count_some] at hcount
  have hlt : count (ks' ++ some (Token.Kind.punct .colon) :: (ks₂ ++ rest)) < d := by omega
  have hconsequent := (h'.callAssign (b := false) nofun hlt).withNoIn (b := b)
  refine (hconsequent (Nat.le_refl _) (ends_of_none rfl) hc₂).andThen fun a' c₃ h₃ => ?_
  refine .expect h₃.1 nofun fun _ c₄ _ hc₄ => ?_
  rw [count_append, count_some] at hlt
  have halternate := h₂.callAssign (b := b) (fun hb' => (hexposes hb').2) (m := count (ks₂ ++ rest)) (d := d)
  refine (halternate (by omega) (Nat.le_refl _) hrest hc₄).andThen fun a₂ c₅ h₅ => .pure ⟨h₅.1, ?_⟩
  change Expr.conditional .zero a.bare a'.bare a₂.bare = _
  rw [h₁.2, h₃.2, h₅.2]

theorem sequence {x y : ι}
    (hrun : Run (fun lo hi x => Readable .assign exposes calls lo hi (t x) (f x)) lo hi (x :: y :: xs)) :
    Readable .sequence exposes false lo hi (commaTexts ((x :: y :: xs).map t))
      (.sequence .zero ((x :: y :: xs).map f)) := by
  obtain ⟨mid, hx, hys⟩ := run_cons_iff.mp hrun
  obtain ⟨k, ks₀, hks, hk, -⟩ := hx.starts
  have hbalanced : Balanced (commaTexts ((x :: y :: xs).map t)) := by
    refine .commaTexts fun ks hks => ?_
    obtain ⟨z, hz, rfl⟩ := List.mem_map.mp hks
    obtain ⟨_, _, hitem⟩ := hrun.mem hz
    exact hitem.balanced
  have htext : commaTexts ((x :: y :: xs).map t) = t x ++ some (Token.Kind.punct .comma) :: commaTexts ((y :: xs).map t) := rfl
  rw [htext, hks, List.cons_append] at hbalanced ⊢
  refine ofExpr hk hbalanced fun {b} hb d c line rest hcount hrest hc => ?_
  rw [← List.cons_append, ← hks, List.append_assoc, List.cons_append] at hc hcount
  refine (hx.assign (by decide) hb d hcount ends_comma hc).andThen fun a c₁ h₁ => .eat h₁.1 rfl fun c₂ h₂ => ?_
  rw [count_append, count_some] at hcount
  have hitems : Gives c₂ (commaList (Grammar.rules [] d).assign) fun as c' =>
      c'.Ready false b hi rest ∧ List.Forall₂ (fun z a => a.bare = f z) (y :: xs) as :=
    .commaList (m := count (commaTexts ((y :: xs).map t) ++ rest)) (fun hz => hz.callAssign hb (by omega)) ends_comma
      (List.cons_ne_nil _ _) hys ⟨hrest.ne _ rfl (by decide), hrest.mono (by decide)⟩ (Nat.le_refl _) h₂
  refine hitems.andThen fun as c₃ h₃ => .pure ⟨h₃.1, ?_⟩
  change Expr.sequence .zero (a.bare :: Bare.exprs as) = _
  rw [h₁.2, Bare.exprs_eq, map_eq_of_forall₂ h₃.2]
  rfl

end Readable

end LabelWeaver
