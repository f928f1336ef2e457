import LabelWeaver.Proofs.Grammar.Recovers.Functions

/-! Statements of all forms. -/

namespace LabelWeaver

open Layout Parse

/-! ### Declarations -/

theorem Gives.rejectReceiver {α : Type} {c : Cursor} {p p' : Pattern} {q : Parse α} {Q : α → Cursor → Prop}
    (hp : p.bare = p') (hthis : p'.findThis? = none) (h : Gives c q Q) :
    Gives c (Grammar.rejectReceiver p >>= fun _ => q) Q := by
  have hnone : p.findThis? = none := by
    rw [← Option.not_isSome_iff_eq_none, ← p.findThis?_bare, hp, hthis]
    exact Bool.false_ne_true
  rw [Grammar.rejectReceiver, hnone]
  exact h

/-- The text stands for a declarator. -/
structure ReadableDeclarator (exposes : Bool) (lo hi : Nat) (ks : Text) (d : Declarator) : Prop where
  balanced : Balanced ks
  reads : ∀ {b}, (b = true → exposes = false) →
    Calling b (Ends false .assign) lo hi ks Grammar.declarator (·.bare = d)

/-- The text stands for a declaration. -/
structure ReadableDecl (exposes : Bool) (lo hi : Nat) (ks : Text) (d : Decl) : Prop where
  starts : ∃ ks', ks = some (.reserved d.kind.word) :: ks'
  balanced : Balanced ks
  reads : ∀ {b}, (b = true → exposes = false) →
    Reading b (Ends false .sequence) lo hi ks Grammar.declaration (·.bare = d)

section
variable {exposes exposes' calls b : Bool} {lo mid hi : Nat} {ks ks' : Text} {e : Expr} {p : Pattern}

/-- A declarator without a value, whatever is behind it. -/
theorem declarator_calling (h : ReadablePattern exposes lo hi ks p) (hp : p.isBinding = true)
    (hthis : p.findThis? = none) (hb : b = true → exposes = false) :
    Calling b (· ≠ .punct .eq) lo hi ks Grammar.declarator (·.bare = ⟨.zero, p, none⟩) := by
  intro d m hm c line rest hcount hrest hc
  refine (h.callBinding hp hb hm hcount trivial hc).andThen fun a c₁ h₁ => .rejectReceiver h₁.2 hthis ?_
  refine .pass h₁.1 (by simpa using hrest) (.pure ⟨h₁.1, ?_⟩)
  change Declarator.mk .zero a.bare none = _
  rw [h₁.2]

theorem ReadableDeclarator.target (h : ReadablePattern exposes lo hi ks p) (hp : p.isBinding = true)
    (hthis : p.findThis? = none) : ReadableDeclarator exposes lo hi ks ⟨.zero, p, none⟩ where
  balanced := h.balanced
  reads hb _ _ hm := (declarator_calling h hp hthis hb hm).follow fun _ hk => hk.ne _ rfl (by decide)

theorem ReadableDeclarator.init (h : ReadablePattern exposes lo mid ks p) (hp : p.isBinding = true)
    (hthis : p.findThis? = none) (h' : Readable .assign exposes' calls mid hi ks' e) :
    ReadableDeclarator (exposes || exposes') lo hi (ks ++ some (Token.Kind.punct .eq) :: ks') ⟨.zero, p, some e⟩ where
  balanced := h.balanced.append (h'.balanced.token fun _ => rfl)
  reads {b} hb d m hm c line rest hcount hrest hc := by
    rw [List.append_assoc, List.cons_append] at hc hcount
    have hexposes : b = true → exposes = false ∧ exposes' = false := by simpa using hb
    have htarget := h.callBinding hp (fun hb' => (hexposes hb').1) hm hcount trivial hc
    refine htarget.andThen fun a c₁ h₁ => .rejectReceiver h₁.2 hthis (.eat h₁.1 rfl fun c₂ h₂ => ?_)
    rw [count_append, count_some] at hcount
    refine (h'.callAssign (fun hb' => (hexposes hb').2) hm (by omega) hrest h₂).andThen fun a' c₃ h₃ => .pure ⟨h₃.1, ?_⟩
    change Declarator.mk .zero a.bare (some a'.bare) = _
    rw [h₁.2, h₃.2]

/-- The word of a declaration and what is declared. -/
theorem Gives.declaration {ι : Type} {t : ι → Text} {f : ι → Declarator} {xs : List ι} {kind : VarKind} {d m : Nat}
    {ok : Token.Kind → Prop} {R : Nat → Nat → ι → Prop} {line : Bool} {c : Cursor} {rest : Text}
    (hitem : ∀ {lo hi x}, R lo hi x →
      Recovers m b ok lo hi (t x) (Grammar.declarator (Grammar.rules [] d)) (·.bare = f x))
    (hok : ok (.punct .comma)) (hne : xs ≠ []) (hrun : Run R lo hi xs)
    (hrest : first rest ≠ .punct .comma ∧ ok (first rest)) (hm : count (commaTexts (xs.map t) ++ rest) ≤ m)
    (hc : c.Ready line b lo (some (.reserved kind.word) :: (commaTexts (xs.map t) ++ rest))) :
    Gives c (Grammar.declaration (Grammar.rules [] d)) fun decl c' =>
      c'.Ready false b hi rest ∧ decl.bare = ⟨.zero, kind, xs.map f⟩ := by
  refine .advance hc nofun fun word c₁ hword h₁ => ?_
  rw [hword]
  refine .andThen (.commaList (A := fun x (d : Declarator) => d.bare = f x) hitem hok hne hrun hrest hm h₁)
    fun ds c₂ h₂ => .look (.pure ⟨h₂.1, ?_⟩)
  change Decl.mk .zero _ (Bare.declarators ds) = _
  rw [Bare.declarators_eq, map_eq_of_forall₂ h₂.2]
  cases kind <;> rfl

theorem ReadableDecl.ofDeclarators {ι : Type} {t : ι → Text} {f : ι → Declarator} {xs : List ι} (kind : VarKind)
    (hne : xs ≠ []) (hrun : Run (fun lo hi x => ReadableDeclarator exposes lo hi (t x) (f x)) lo hi xs) :
    ReadableDecl exposes lo hi (some (.reserved kind.word) :: commaTexts (xs.map t)) ⟨.zero, kind, xs.map f⟩ where
  starts := ⟨_, rfl⟩
  balanced := by
    refine .token (by cases kind <;> exact fun _ => rfl) (.commaTexts fun ks hks => ?_)
    obtain ⟨x, hx, rfl⟩ := List.mem_map.mp hks
    obtain ⟨_, _, hitem⟩ := hrun.mem hx
    exact hitem.balanced
  reads hb d c line rest hcount hrest hc := by
    rw [List.cons_append, count_some] at hcount
    exact .declaration (fun hx => hx.reads hb (Nat.lt_of_succ_le hcount)) ends_comma hne hrun
      ⟨hrest.ne _ rfl (by decide), hrest.mono (by decide)⟩ (Nat.le_refl _) hc

end

/-! ### Simple statements -/

theorem Token.Kind.startsStmt_of_startsExpr {k : Token.Kind} (h : k.startsExpr = true) : k.startsStmt = true := by
  cases k with
  | reserved w => cases w <;> first | rfl | exact h
  | punct p => cases p <;> first | rfl | exact h
  | _ => exact h

namespace ReadableStmt

variable {exposes calls : Bool} {level : Prec} {lo mid hi : Nat} {ks ks' : Text} {e : Expr} {s : Stmt}

/-- A statement that starts with a word or a sign. -/
theorem ofToken {k : Token.Kind} (hk : k.startsStmt = true) (hbalanced : Balanced (some k :: ks))
    (h : Reading false s.Leaves lo hi (some k :: ks) (Grammar.baseStatement []) (·.bare = s)) :
    ReadableStmt lo hi (some k :: ks) s :=
  ⟨⟨k, ks, rfl, hk⟩, hbalanced, h⟩

theorem balanced_semi (h : Balanced ks) : Balanced (ks ++ [some (Token.Kind.punct .semi)]) :=
  h.append (Balanced.nil.token fun _ => rfl)

theorem expr (h : Readable level exposes calls lo hi ks e)
    (hfirst : first ks ≠ .punct .lbrace ∧ first ks ≠ .reserved .kwFunction) :
    ReadableStmt lo hi (ks ++ [some (Token.Kind.punct .semi)]) (.expr .zero e) := by
  obtain ⟨k, ks₀, rfl, hk, -⟩ := h.starts
  refine ⟨⟨k, _, rfl, Token.Kind.startsStmt_of_startsExpr hk⟩, balanced_semi h.balanced, ?_⟩
  intro d c line rest hcount _ hc
  rw [List.append_assoc, List.singleton_append] at hc hcount
  have hstmt : Gives c (Grammar.exprStmt [] (Grammar.rules [] d)) fun s c' =>
      c'.Ready false false hi rest ∧ s.bare = .expr .zero e := by
    refine (h.expr (b := false) nofun d hcount (ends_of_none rfl) hc).andThen fun a c₁ h₁ => ?_
    refine .consumeSemicolon h₁.1 fun c₂ h₂ => .look (.pure ⟨h₂, ?_⟩)
    exact congrArg (Stmt.expr .zero) h₁.2
  refine .kind? hc ?_
  rw [List.cons_append, first_some]
  rw [first_some] at hfirst
  cases k with
  | reserved w => cases w <;> first | exact hstmt | exact absurd rfl hfirst.2 | cases hk
  | punct p => cases p <;> first | exact hstmt | exact absurd rfl hfirst.1 | cases hk
  | _ => exact hstmt

theorem var {decl : Decl} (h : ReadableDecl exposes lo hi ks decl) :
    ReadableStmt lo hi (ks ++ [some (Token.Kind.punct .semi)]) (.var decl) := by
  obtain ⟨ks₀, rfl⟩ := h.starts
  refine ofToken (by cases decl.kind <;> rfl) (balanced_semi h.balanced) fun d c line rest hcount _ hc => ?_
  have hc : c.Ready line false lo (some (.reserved decl.kind.word) :: ks₀ ++ some (Token.Kind.punct .semi) :: rest) := by
    simpa using hc
  have hcount : count (some (.reserved decl.kind.word) :: ks₀ ++ some (Token.Kind.punct .semi) :: rest) ≤ d := by simpa using hcount
  have hstmt : Gives c (Grammar.varStmt (Grammar.rules [] d)) fun s c' =>
      c'.Ready false false hi rest ∧ s.bare = .var decl := by
    refine (h.reads (b := false) nofun d hcount (ends_of_none rfl) hc).andThen fun a c₁ h₁ => ?_
    refine .consumeSemicolon h₁.1 fun c₂ h₂ => .look (.pure ⟨h₂, ?_⟩)
    obtain ⟨span, kind, decls⟩ := a
    exact congrArg Stmt.var h₁.2
  refine .kind? hc ?_
  rw [List.cons_append, first_some]
  cases decl.kind <;> exact hstmt

theorem ret : ReadableStmt lo (lo + 1) [some (.reserved .kwReturn), some (.punct .semi)] (.ret .zero none lo) := by
  refine ofToken rfl ((Balanced.nil.token fun _ => rfl).token fun _ => rfl) fun d c line rest hcount _ hc => ?_
  refine .kind? hc (.expect hc nofun fun word c₁ _ h₁ => .look ?_)
  have hend : c₁.isAtStatementEnd = true := by
    rw [Cursor.isAtStatementEnd, h₁.isAt]
    rfl
  rw [hend]
  refine .consumeSemicolon h₁ fun c₂ h₂ => .look (.freshSite h₂ fun c₃ h₃ => .pure ⟨h₃, rfl⟩)

/-- No statement ends where an expression starts on the same line. -/
theorem isAtStatementEnd_eq_false {c : Cursor} {rest : Text} (h : Readable level exposes calls lo hi ks e)
    (hc : c.Ready false false lo (ks ++ rest)) : c.isAtStatementEnd = false := by
  obtain ⟨k, ks₀, rfl, hk, -⟩ := h.starts
  have hne : ∀ k' : Token.Kind, k'.startsExpr = false → k ≠ k' := fun k' => Token.Kind.ne_of_startsExpr hk
  simp [Cursor.isAtStatementEnd, hc.isAt, hc.newlineBefore, hne (.punct .semi) rfl, hne (.punct .rbrace) rfl,
    hne .eof rfl]

theorem retValue (h : Readable level exposes calls lo hi ks e) :
    ReadableStmt lo (hi + 1) (some (.reserved .kwReturn) :: (ks ++ [some (Token.Kind.punct .semi)])) (.ret .zero (some e) hi) := by
  refine ofToken rfl ((balanced_semi h.balanced).token fun _ => rfl) fun d c line rest hcount _ hc => ?_
  rw [List.cons_append, List.append_assoc, List.singleton_append] at hc hcount
  rw [count_some] at hcount
  refine .kind? hc (.expect hc nofun fun word c₁ _ h₁ => .look ?_)
  rw [isAtStatementEnd_eq_false h h₁]
  refine .bind (.map ?_)
  refine (h.callExpr (b := false) nofun (Nat.lt_of_succ_le hcount) (Nat.le_refl _) (ends_of_none rfl) h₁).imp
    fun a c₂ h₂ => ?_
  refine .consumeSemicolon h₂.1 fun c₃ h₃ => .look (.freshSite h₃ fun c₄ h₄ => .pure ⟨h₄, ?_⟩)
  change Stmt.ret .zero (some a.bare) hi = _
  rw [h₂.2]

theorem throw (h : Readable level exposes calls lo hi ks e) :
    ReadableStmt lo hi (some (.reserved .kwThrow) :: (ks ++ [some (Token.Kind.punct .semi)])) (.throw .zero e) := by
  refine ofToken rfl ((balanced_semi h.balanced).token fun _ => rfl) fun d c line rest hcount _ hc => ?_
  rw [List.cons_append, List.append_assoc, List.singleton_append] at hc hcount
  rw [count_some] at hcount
  refine .kind? hc (.expect hc nofun fun word c₁ _ h₁ => .look ?_)
  have hline : c₁.newlineBefore = false := by
    obtain ⟨k, ks₀, rfl, -⟩ := h.starts
    exact h₁.newlineBefore
  rw [hline]
  refine (h.callExpr (b := false) nofun (Nat.lt_of_succ_le hcount) (Nat.le_refl _) (ends_of_none rfl) h₁).andThen
    fun a c₂ h₂ => ?_
  exact .consumeSemicolon h₂.1 fun c₃ h₃ => .look (.pure ⟨h₃, congrArg (Stmt.throw .zero) h₂.2⟩)

theorem jumpStmt_gives {word : Reserved} {make : Span → Stmt} {c : Cursor} {line : Bool} {rest : Text}
    (hmake : ∀ span, (make span).bare = make .zero)
    (hc : c.Ready line false lo (some (.reserved word) :: some (.punct .semi) :: rest)) :
    Gives c (Grammar.jumpStmt make) fun s c' => c'.Ready false false lo rest ∧ s.bare = make .zero :=
  .advance hc nofun fun _ _ _ h₁ => .consumeSemicolon h₁ fun _ h₂ => .look (.pure ⟨h₂, hmake _⟩)

theorem «break» : ReadableStmt lo lo [some (.reserved .kwBreak), some (.punct .semi)] (.break .zero) :=
  ofToken rfl ((Balanced.nil.token fun _ => rfl).token fun _ => rfl) fun _ _ _ _ _ _ hc =>
    .kind? hc (jumpStmt_gives (fun _ => rfl) hc)

theorem «continue» : ReadableStmt lo lo [some (.reserved .kwContinue), some (.punct .semi)] (.continue .zero) :=
  ofToken rfl ((Balanced.nil.token fun _ => rfl).token fun _ => rfl) fun _ _ _ _ _ _ hc =>
    .kind? hc (jumpStmt_gives (fun _ => rfl) hc)

theorem empty : ReadableStmt lo lo [some (.punct .semi)] (.empty .zero) := by
  refine ofToken rfl (Balanced.nil.token fun _ => rfl) fun d c line rest hcount _ hc => ?_
  exact .kind? hc (.advance hc nofun fun _ c₁ _ h₁ => .pure ⟨h₁, rfl⟩)

theorem block {b : Block} (h : ReadableBlock lo hi ks b) : ReadableStmt lo hi ks (.block b) := by
  obtain ⟨ks', rfl⟩ := h.starts
  refine ofToken rfl h.balanced fun d c line rest hcount _ hc => .kind? hc ?_
  refine (h.reads d hcount trivial hc).andThen fun b c₁ h₁ => .pure ⟨h₁.1, ?_⟩
  exact congrArg Stmt.block h₁.2

theorem function {ι : Type} {t : ι → Text} {f : ι → Pattern} {xs : List ι} {body : FunctionBody} (name : String)
    (hparams : Run (fun lo hi x => ReadablePattern exposes lo hi (t x) (f x)) lo mid xs)
    (hbody : ReadableBody false (fun _ => True) mid hi ks body) :
    ReadableStmt lo hi (functionText (some name) (xs.map t) ks)
      (.function (.plain .zero (some ⟨.zero, name⟩) false (xs.map f) body)) := by
  have hbalanced : Balanced (functionText (some name) (xs.map t) ks) :=
    ((((balanced_headText hparams).append hbody.balanced).token fun _ => rfl)).token fun _ => rfl
  refine ofToken rfl hbalanced fun d c line rest hcount _ hc => .kind? hc ?_
  refine .expect hc nofun fun word c₁ _ h₁ => .expectIdent h₁ fun name' c₂ hname h₂ => ?_
  have hbound : count (headText false (xs.map t) ++ ks ++ rest) ≤ d := by
    have hcount : count (headText false (xs.map t) ++ ks ++ rest) + 1 + 1 ≤ d := hcount
    omega
  refine (function_reading word.span (some name') hparams hbody d hbound trivial h₂).andThen
    fun fn c₃ h₃ => .pure ⟨h₃.1, ?_⟩
  rw [Option.map_some, Name.bare_eq hname] at h₃
  exact congrArg Stmt.function h₃.2

end ReadableStmt

/-! ### Branches -/

/-- The text of a part of a statement, on the same line or on a line of its own. -/
def clauseText (sameLine : Bool) (ks : Text) : Text := if sameLine then ks else none :: none :: ks

/-- The text between a part of a statement and the word that goes on. -/
def gapText (sameLine : Bool) : Text := if sameLine then [] else [none]

section
variable {sameLine exposes calls : Bool} {level : Prec} {lo mid hi d m : Nat} {ks rest : Text} {e : Expr} {s : Stmt}
  {c : Cursor} {line : Bool}

theorem balanced_clauseText (h : Balanced ks) : Balanced (clauseText sameLine ks) := by
  cases sameLine with
  | false => exact h.line.line
  | true => exact h

theorem balanced_gapText : Balanced (gapText sameLine) := by
  cases sameLine <;> exact .nil

theorem first_gapText (k : Token.Kind) : first (gapText sameLine ++ some k :: rest) = k := by
  cases sameLine <;> rfl

theorem Cursor.Ready.of_gapText (hc : c.Ready line false lo (gapText sameLine ++ rest)) :
    ∃ line', c.Ready line' false lo rest := by
  cases sameLine with
  | false => exact ⟨_, hc.of_none⟩
  | true => exact ⟨_, hc⟩

theorem ReadableStmt.callClause (h : ReadableStmt lo hi ks s) :
    Calling false s.Leaves lo hi (clauseText sameLine ks) Rules.statement (·.bare = s) := by
  intro d m hm
  cases sameLine with
  | false => exact (h.callStatement hm).line.line
  | true => exact h.callStatement hm

/-- An expression in parentheses. -/
theorem Gives.parenExpr {α : Type} {f : Expr → Parse α} {Q : α → Cursor → Prop}
    (h : Readable level exposes calls lo hi ks e) (hm : m < d)
    (hcount : count (some (.punct .lparen) :: (ks ++ some (Token.Kind.punct .rparen) :: rest)) ≤ m)
    (hc : c.Ready line false lo (some (.punct .lparen) :: (ks ++ some (Token.Kind.punct .rparen) :: rest)))
    (hf : ∀ a c', a.bare = e → c'.Ready false false hi rest → Gives c' (f a) Q) :
    Gives c (Grammar.parenExpr (Grammar.rules [] d) >>= f) Q := by
  rw [count_some] at hcount
  refine .bind (.expect hc nofun fun _ c₁ _ h₁ => ?_)
  refine (h.callExpr (b := false) nofun hm (by omega) (ends_of_none rfl) h₁).andThen fun a c₂ h₂ => ?_
  exact .expect h₂.1 nofun fun _ c₃ _ h₃ => .pure (hf a c₃ h₂.2 h₃)

end

namespace ReadableStmt

variable {exposes calls sameLine sameLine' : Bool} {level : Prec} {lo mid mid' hi : Nat} {ks ks' ks₂ : Text} {e : Expr}
  {s s₂ : Stmt}

theorem balanced_parens (h : Balanced ks) (h' : Balanced ks') :
    Balanced (some (.punct .lparen) :: (ks ++ some (Token.Kind.punct .rparen) :: ks')) :=
  h.enclosed isPair_parens h'

theorem «while» (h : Readable level exposes calls lo mid ks e) (h' : ReadableStmt mid hi ks' s) :
    ReadableStmt lo hi (some (.reserved .kwWhile) :: some (.punct .lparen) ::
      (ks ++ some (Token.Kind.punct .rparen) :: clauseText sameLine ks')) (.while .zero e s) := by
  refine ofToken rfl ((balanced_parens h.balanced (balanced_clauseText h'.balanced)).token fun _ => rfl)
    fun d c line rest hcount hrest hc => ?_
  rw [List.cons_append, List.cons_append, List.append_assoc, List.cons_append] at hc hcount
  rw [count_some] at hcount
  have hlt := Nat.lt_of_succ_le hcount
  refine .kind? hc (.expect hc nofun fun word c₁ _ h₁ => .parenExpr h hlt (Nat.le_refl _) h₁ fun a c₂ ha h₂ => ?_)
  rw [count_some, count_append, count_some] at hlt
  have hbody := h'.callClause (show count (clauseText sameLine ks' ++ rest) < d by omega) (Nat.le_refl _)
    ⟨hrest.noFinally, hrest.noElse⟩ h₂
  exact hbody.andThen fun b c₃ h₃ => .pure ⟨h₃.1, congrArg₂ (Stmt.while .zero) ha h₃.2⟩

theorem doWhile (h : ReadableStmt lo mid ks s) (h' : Readable level exposes calls mid hi ks' e) :
    ReadableStmt lo hi (some (.reserved .kwDo) :: (clauseText sameLine ks ++ (gapText sameLine ++
      some (Token.Kind.reserved .kwWhile) :: some (.punct .lparen) :: (ks' ++ [some (Token.Kind.punct .rparen), some (.punct .semi)]))))
      (.doWhile .zero s e) := by
  have hbalanced : Balanced (some (.reserved .kwWhile) :: some (.punct .lparen) ::
      (ks' ++ [some (Token.Kind.punct .rparen), some (.punct .semi)])) :=
    (balanced_parens h'.balanced (Balanced.nil.token fun _ => rfl)).token fun _ => rfl
  refine ofToken rfl (((balanced_clauseText h.balanced).append (balanced_gapText.append hbalanced)).token fun _ => rfl)
    fun d c line rest hcount hrest hc => ?_
  rw [List.cons_append, List.append_assoc, List.append_assoc, List.cons_append, List.cons_append, List.append_assoc,
    List.cons_append, List.singleton_append] at hc hcount
  rw [count_some] at hcount
  have hlt := Nat.lt_of_succ_le hcount
  refine .kind? hc (.expect hc nofun fun word c₁ _ h₁ => ?_)
  have hbody := h.callClause hlt (Nat.le_refl _) (by rw [first_gapText]; exact ⟨nofun, fun _ => nofun⟩) h₁
  refine hbody.andThen fun b c₂ h₂ => ?_
  obtain ⟨line', hwhile⟩ := h₂.1.of_gapText
  rw [count_append, count_append, count_some] at hlt
  have htest : count (some (.punct .lparen) :: (ks' ++ some (Token.Kind.punct .rparen) :: some (.punct .semi) :: rest)) < d := by
    omega
  refine .expect hwhile nofun fun _ c₃ _ h₃ => .parenExpr h' htest (Nat.le_refl _) h₃ fun a c₄ ha h₄ => ?_
  refine .eat h₄ rfl fun c₅ h₅ => .look (.pure ⟨h₅, ?_⟩)
  exact congrArg₂ (Stmt.doWhile .zero) h₂.2 ha

theorem ifThen (h : Readable level exposes calls lo mid ks e) (h' : ReadableStmt mid hi ks' s) :
    ReadableStmt lo hi (some (.reserved .kwIf) :: some (.punct .lparen) ::
      (ks ++ some (Token.Kind.punct .rparen) :: clauseText sameLine ks')) (.ifElse .zero e s none) := by
  refine ofToken rfl ((balanced_parens h.balanced (balanced_clauseText h'.balanced)).token fun _ => rfl)
    fun d c line rest hcount hrest hc => ?_
  rw [List.cons_append, List.cons_append, List.append_assoc, List.cons_append] at hc hcount
  rw [count_some] at hcount
  have hlt := Nat.lt_of_succ_le hcount
  refine .kind? hc (.expect hc nofun fun word c₁ _ h₁ => .parenExpr h hlt (Nat.le_refl _) h₁ fun a c₂ ha h₂ => ?_)
  rw [count_some, count_append, count_some] at hlt
  have helse := hrest.noElse rfl
  have hbody := h'.callClause (show count (clauseText sameLine ks' ++ rest) < d by omega) (Nat.le_refl _)
    ⟨hrest.noFinally, fun _ => helse⟩ h₂
  refine hbody.andThen fun b c₃ h₃ => .pass h₃.1 (by simpa using helse) (.pure ⟨h₃.1, ?_⟩)
  change Stmt.ifElse .zero a.bare b.bare none = _
  rw [ha, h₃.2]

theorem ifElse (h : Readable level exposes calls lo mid ks e) (h' : ReadableStmt mid mid' ks' s)
    (hopen : s.endsOpen = false) (h₂ : ReadableStmt mid' hi ks₂ s₂) :
    ReadableStmt lo hi (some (.reserved .kwIf) :: some (.punct .lparen) :: (ks ++ some (Token.Kind.punct .rparen) ::
      (clauseText sameLine ks' ++ (gapText sameLine ++ some (Token.Kind.reserved .kwElse) :: clauseText sameLine' ks₂))))
      (.ifElse .zero e s (some s₂)) := by
  have hbalanced : Balanced (gapText sameLine ++ some (Token.Kind.reserved .kwElse) :: clauseText sameLine' ks₂) :=
    balanced_gapText.append ((balanced_clauseText h₂.balanced).token fun _ => rfl)
  refine ofToken rfl ((balanced_parens h.balanced ((balanced_clauseText h'.balanced).append hbalanced)).token fun _ => rfl)
    fun d c line rest hcount hrest hc => ?_
  rw [List.cons_append, List.cons_append, List.append_assoc, List.cons_append, List.append_assoc, List.append_assoc,
    List.cons_append] at hc hcount
  rw [count_some] at hcount
  have hlt := Nat.lt_of_succ_le hcount
  refine .kind? hc (.expect hc nofun fun word c₁ _ h₁ => .parenExpr h hlt (Nat.le_refl _) h₁ fun a c₂ ha hc₂ => ?_)
  rw [count_some, count_append, count_some] at hlt
  have hfirst : s.Leaves (first (gapText sameLine ++ some (Token.Kind.reserved .kwElse) :: (clauseText sameLine' ks₂ ++ rest))) := by
    rw [first_gapText]
    exact ⟨nofun, fun hs => by cases hopen.symm.trans hs⟩
  have hbound : count (clauseText sameLine ks' ++
      (gapText sameLine ++ some (Token.Kind.reserved .kwElse) :: (clauseText sameLine' ks₂ ++ rest))) < d := by omega
  refine (h'.callClause hbound (Nat.le_refl _) hfirst hc₂).andThen fun b c₃ h₃ => ?_
  obtain ⟨line', helse⟩ := h₃.1.of_gapText
  rw [count_append, count_append, count_some] at hbound
  refine .eat helse rfl fun c₄ h₄ => ?_
  have halternate := h₂.callClause (show count (clauseText sameLine' ks₂ ++ rest) < d by omega) (Nat.le_refl _)
    ⟨hrest.noFinally, hrest.noElse⟩ h₄
  refine halternate.andThen fun b₂ c₅ h₅ => .pure ⟨h₅.1, ?_⟩
  change Stmt.ifElse .zero a.bare b.bare (some b₂.bare) = _
  rw [ha, h₃.2, h₅.2]

end ReadableStmt

end LabelWeaver
