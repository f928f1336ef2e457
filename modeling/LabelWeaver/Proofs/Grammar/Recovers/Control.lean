import LabelWeaver.Proofs.Grammar.Recovers.Statements

/-! Loops with heads, switches, exception handlers, and whole programs. -/

namespace LabelWeaver

open Layout Parse

/-! ### Heads of loops -/

/-- A loop from behind its opening parenthesis on. -/
def Grammar.forHead (r : Rules) (span : Span) : Parse Stmt := do
  if ← isAt (.punct .semi) then return ← forLoopRest r span .none
  if ← look isAtDeclaration then
    let decl ← withNoIn true (declaration r)
    if ← look isAtEach then
      if let [⟨_, target, none⟩] := decl.decls then
        return ← forEachRest r span (.var decl.kind target)
    return ← forLoopRest r span (.var decl)
  let e ← withNoIn true r.expr
  if ← look isAtEach then
    if !e.isTarget then failAt .invalidLoopTarget e.span
    return ← forEachRest r span (.expr e)
  forLoopRest r span (.expr e)

/-- The text stands for the first part of the head of a counting loop. -/
structure ReadableInit (lo hi : Nat) (ks : Text) (init : ForInit) : Prop where
  balanced : Balanced ks
  reads : ∀ {d m : Nat} {c : Cursor} {rest : Text} {span : Span} {Q : Stmt → Cursor → Prop}, m < d →
    count (ks ++ some (Token.Kind.punct .semi) :: rest) ≤ m → c.Ready false false lo (ks ++ some (Token.Kind.punct .semi) :: rest) →
    (∀ init' c', init'.bare = init → c'.Ready false false hi (some (.punct .semi) :: rest) →
      Gives c' (Grammar.forLoopRest (Grammar.rules [] d) span init') Q) →
    Gives c (Grammar.forHead (Grammar.rules [] d) span) Q

/-- The word between the target of a loop and what it runs over. -/
def eachToken (values : Bool) : Token.Kind := if values then .ident "of" else .reserved .kwIn

/-- The text stands for what a loop over keys or values assigns to. -/
structure ReadableTarget (lo hi : Nat) (ks : Text) (target : ForTarget) : Prop where
  balanced : Balanced ks
  reads : ∀ {d m : Nat} {c : Cursor} {values : Bool} {rest : Text} {span : Span} {Q : Stmt → Cursor → Prop}, m < d →
    count (ks ++ some (eachToken values) :: rest) ≤ m → c.Ready false false lo (ks ++ some (eachToken values) :: rest) →
    (∀ target' c', target'.bare = target → c'.Ready false false hi (some (eachToken values) :: rest) →
      Gives c' (Grammar.forEachRest (Grammar.rules [] d) span target') Q) →
    Gives c (Grammar.forHead (Grammar.rules [] d) span) Q

section
variable {b line values calls : Bool} {level : Prec} {lo hi n : Nat} {c : Cursor} {k : Token.Kind} {ks rest : Text}
  {e : Expr} {p : Pattern}

theorem Cursor.Ready.isAtDeclaration (hc : c.Ready line b n ks) :
    Grammar.isAtDeclaration c = ((first ks).sameSort (.reserved .kwVar) || (first ks).sameSort (.reserved .kwLet) ||
      (first ks).sameSort (.reserved .kwConst)) := by
  rw [Grammar.isAtDeclaration, hc.isAt, hc.isAt, hc.isAt]

theorem Cursor.Ready.isAtEach (hc : c.Ready line b n ks) :
    Grammar.isAtEach c = ((first ks).sameSort (.reserved .kwIn) || first ks == .ident "of") := by
  rw [Grammar.isAtEach, hc.isAt, hc.kind?]
  rfl

theorem Cursor.Ready.isAtEach_eachToken (hc : c.Ready line b n (some (eachToken values) :: rest)) :
    Grammar.isAtEach c = true := by
  rw [hc.isAtEach]
  cases values <;> rfl

theorem ReadableInit.none : ReadableInit lo lo [] .none where
  balanced := .nil
  reads _ _ hc h := .isAt hc (h .none _ rfl hc)

theorem ReadableInit.var {decl : Decl} (h : ReadableDecl false lo hi ks decl) : ReadableInit lo hi ks (.var decl) where
  balanced := h.balanced
  reads {d m c rest span Q} hm hcount hc hQ := by
    have hword : first (ks ++ some (Token.Kind.punct .semi) :: rest) = .reserved decl.kind.word := by
      obtain ⟨ks', rfl⟩ := h.starts
      rfl
    have hdecl : Grammar.isAtDeclaration c = true := by
      rw [hc.isAtDeclaration, hword]
      cases decl.kind <;> rfl
    refine .isAt hc ?_
    rw [hword]
    refine .look ?_
    rw [hdecl]
    have hread := (h.reads (b := true) (fun _ => rfl) d).withNoIn (b := false) (Nat.le_trans hcount (Nat.le_of_lt hm))
      (ends_of_none rfl) hc
    refine hread.andThen fun decl' c₁ h₁ => .look ?_
    rw [h₁.1.isAtEach]
    exact hQ _ c₁ (congrArg ForInit.var h₁.2) h₁.1

/-- The head of a loop that starts with an expression. -/
theorem forHead_expr (h : Readable level false calls lo hi ks e) {span : Span} {d m : Nat} {Q : Stmt → Cursor → Prop}
    {rest : Text} {ok : Token.Kind → Prop}
    (hread : Reading true ok lo hi ks (Grammar.expr []) (·.bare = e)) (hok : ok (first rest)) (hm : m < d)
    (hcount : count (ks ++ rest) ≤ m) (hc : c.Ready false false lo (ks ++ rest))
    (hQ : ∀ e' c', e'.bare = e → c'.Ready false false hi rest → Gives c' (do
      if ← look Grammar.isAtEach then
        if !e'.isTarget then failAt .invalidLoopTarget e'.span
        return ← Grammar.forEachRest (Grammar.rules [] d) span (.expr e')
      Grammar.forLoopRest (Grammar.rules [] d) span (.expr e')) Q) :
    Gives c (Grammar.forHead (Grammar.rules [] d) span) Q := by
  obtain ⟨k, ks', rfl, hk, -⟩ := h.starts
  have hne : ∀ k' : Token.Kind, k'.startsExpr = false → k ≠ k' := fun k' => Token.Kind.ne_of_startsExpr hk
  have hdecl : Grammar.isAtDeclaration c = false := by
    rw [hc.isAtDeclaration]
    simp [hne (.reserved .kwVar) rfl, hne (.reserved .kwLet) rfl, hne (.reserved .kwConst) rfl]
  refine .isAt hc ?_
  rw [List.cons_append, first_some, Token.Kind.sameSort_punct, beq_eq_false_iff_ne.mpr (hne _ rfl)]
  refine .look ?_
  rw [hdecl]
  have hcalling := (hread.calling (q := Rules.expr) fun _ _ => rfl) hm
  exact (hcalling.withNoIn hcount hok hc).andThen fun e' c₁ h₁ => hQ e' c₁ h₁.2 h₁.1

theorem ReadableInit.expr (h : Readable level false calls lo hi ks e) : ReadableInit lo hi ks (.expr e) where
  balanced := h.balanced
  reads hm hcount hc hQ := by
    refine forHead_expr h (h.expr fun _ => rfl) (ends_of_none rfl) hm hcount hc fun e' c₁ he' h₁ => .look ?_
    rw [h₁.isAtEach]
    exact hQ _ c₁ (congrArg ForInit.expr he') h₁

theorem ReadableTarget.expr (h : Readable .call false calls lo hi ks e) (he : e.isTarget = true) :
    ReadableTarget lo hi ks (.expr e) where
  balanced := h.balanced
  reads {d m c values rest span Q} hm hcount hc hQ := by
    -- the word of the loop ends the expression, since `in` is no operator here
    have hread : Reading true (Ends true .sequence) lo hi ks (Grammar.expr []) (·.bare = e) := fun d =>
      ((h.condition (b := true) (by decide) (fun _ => rfl) d).assign fun k (hk : Ends true .sequence k) =>
        ⟨hk.mono (by decide), hk.mono (by decide)⟩).expr fun k hk => ⟨hk, hk⟩
    have hends : Ends true .sequence (first (some (eachToken values) :: rest)) := by
      cases values <;> exact ends_of_none rfl
    refine forHead_expr h hread hends hm hcount hc fun e' c₁ he' h₁ => .look ?_
    have htarget := Readable.isTarget_of_bare he' he
    rw [h₁.isAtEach_eachToken, htarget]
    exact hQ _ c₁ (congrArg ForTarget.expr he') h₁

theorem eq_of_bare_target {decl : Decl} {kind : VarKind} (h : decl.bare = ⟨.zero, kind, [⟨.zero, p, none⟩]⟩) :
    ∃ span span' p', decl = ⟨span, kind, [⟨span', p', none⟩]⟩ ∧ p'.bare = p := by
  obtain ⟨span, kind', decls⟩ := decl
  obtain ⟨-, rfl, hdecls⟩ := Decl.mk.inj h
  rw [Bare.declarators_eq] at hdecls
  obtain ⟨d, rfl, hd⟩ := List.map_eq_singleton_iff.mp hdecls
  obtain ⟨span', p', init⟩ := d
  cases init with
  | none => exact ⟨span, span', p', rfl, (Declarator.mk.inj hd).2.1⟩
  | some e => cases (Declarator.mk.inj hd).2.2

theorem ReadableTarget.var (kind : VarKind) (h : ReadablePattern false lo hi ks p) (hp : p.isBinding = true)
    (hthis : p.findThis? = none) :
    ReadableTarget lo hi (some (.reserved kind.word) :: ks) (.var kind p) where
  balanced := h.balanced.token (by cases kind <;> exact fun _ => rfl)
  reads {d m c values rest span Q} hm hcount hc hQ := by
    have hdecl : Grammar.isAtDeclaration c = true := by
      rw [hc.isAtDeclaration]
      cases kind <;> rfl
    refine .isAt hc (.look ?_)
    rw [hdecl]
    have hrun : Run (fun lo hi (_ : Unit) => ReadablePattern false lo hi ks p) lo hi [()] := .cons h (.nil _)
    have hread : Gives c (withNoIn true (Grammar.declaration (Grammar.rules [] d))) fun decl c' =>
        c'.Ready false false hi (some (eachToken values) :: rest) ∧ decl.bare = ⟨.zero, kind, [⟨.zero, p, none⟩]⟩ := by
      refine .underNoIn hc fun c₁ h₁ => .declaration (t := fun _ => ks) (f := fun _ => ⟨.zero, p, none⟩)
        (fun hx => declarator_calling hx hp hthis (fun _ => rfl) hm) nofun (List.cons_ne_nil _ _) hrun ?_ ?_ h₁
      · cases values <;> exact ⟨nofun, nofun⟩
      · rw [List.cons_append, count_some] at hcount
        exact Nat.le_of_succ_le hcount
    refine hread.andThen fun decl c₁ h₁ => .look ?_
    obtain ⟨s, s', p', rfl, hp'⟩ := eq_of_bare_target h₁.2
    rw [h₁.1.isAtEach_eachToken]
    exact hQ _ c₁ (congrArg (ForTarget.var kind) hp') h₁.1

end

/-! ### Loops -/

/-- The text stands for an expression that holds together in some way. -/
def ReadableExpr (lo hi : Nat) (ks : Text) (e : Expr) : Prop := ∃ level exposes calls, Readable level exposes calls lo hi ks e

/-- The text of a part of the head of a loop that may be left out. -/
def partText {ι : Type} (t : ι → Text) : Option ι → Text
  | none => []
  | some x => t x

@[simp] theorem partText_none {ι : Type} (t : ι → Text) : partText t none = [] := rfl

@[simp] theorem partText_some {ι : Type} (t : ι → Text) (x : ι) : partText t (some x) = t x := rfl

section
variable {ι : Type} {t : ι → Text} {f : ι → Expr} {x y : Option ι} {lo mid mid₁ mid₂ hi m d : Nat} {sameLine : Bool}
  {ks ks' ks₂ : Text}

theorem balanced_partText (h : Maybe (fun lo hi x => ReadableExpr lo hi (t x) (f x)) lo hi x) :
    Balanced (partText t x) := by
  cases x with
  | none => exact .nil
  | some x =>
    obtain ⟨_, _, _, hx⟩ := h
    exact hx.balanced

/-- A part of the head of a loop that may be left out, and the sign behind it. -/
theorem Gives.headPart {α : Type} {c : Cursor} {close : Punct} {rest : Text} {g : Option Expr → Token → Parse α}
    {Q : α → Cursor → Prop} (hclose : Ends false .sequence (.punct close))
    (hstart : (Token.Kind.punct close).startsExpr = false)
    (h : Maybe (fun lo hi x => ReadableExpr lo hi (t x) (f x)) lo hi x) (hm : m < d)
    (hcount : count (partText t x ++ some (Token.Kind.punct close) :: rest) ≤ m)
    (hc : c.Ready false false lo (partText t x ++ some (Token.Kind.punct close) :: rest))
    (hg : ∀ e token c', e.map Expr.bare = x.map f → c'.Ready false false hi rest → Gives c' (g e token) Q) :
    Gives c (do
      let e ← if ← Parse.isAt (.punct close) then Pure.pure none else some <$> (Grammar.rules [] d).expr
      let token ← Parse.expect (.punct close)
      g e token) Q := by
  cases x with
  | none =>
    cases h
    refine .isAt hc ?_
    change Gives c (if (Token.Kind.punct close).sameSort (.punct close) = true then _ else _) Q
    rw [Token.Kind.sameSort_self, if_pos rfl]
    exact .expect hc nofun fun token c₁ _ h₁ => hg none token c₁ rfl h₁
  | some x =>
    obtain ⟨_, _, _, hx⟩ := h
    have hfirst : (first (t x ++ some (Token.Kind.punct close) :: rest)).sameSort (.punct close) = false := by
      obtain ⟨k, ks', hks, hk, -⟩ := hx.starts
      rw [hks]
      simpa using Token.Kind.ne_of_startsExpr hk hstart
    refine .isAt hc ?_
    change Gives c (if (first (t x ++ some (Token.Kind.punct close) :: rest)).sameSort (.punct close) = true then _ else _) Q
    rw [hfirst, if_neg Bool.false_ne_true]
    refine .bind (.map ((hx.callExpr (b := false) nofun hm hcount hclose hc).imp fun e c₁ h₁ => ?_))
    exact .expect h₁.1 nofun fun token c₂ _ h₂ => hg (some e) token c₂ (congrArg some h₁.2) h₂

theorem ReadableStmt.forLoop {init : ForInit} {s : Stmt} (hinit : ReadableInit lo mid ks init)
    (htest : Maybe (fun lo hi x => ReadableExpr lo hi (t x) (f x)) mid mid₁ x)
    (hupdate : Maybe (fun lo hi x => ReadableExpr lo hi (t x) (f x)) mid₁ mid₂ y) (hbody : ReadableStmt mid₂ hi ks' s) :
    ReadableStmt lo hi (some (.reserved .kwFor) :: some (.punct .lparen) :: (ks ++ some (Token.Kind.punct .semi) ::
      (partText t x ++ some (Token.Kind.punct .semi) :: (partText t y ++ some (Token.Kind.punct .rparen) :: clauseText sameLine ks'))))
      (.forLoop .zero init (x.map f) (y.map f) s) := by
  have hbalanced : Balanced (some (.punct .lparen) :: ((ks ++ some (Token.Kind.punct .semi) ::
      (partText t x ++ some (Token.Kind.punct .semi) :: partText t y)) ++ some (Token.Kind.punct .rparen) :: clauseText sameLine ks')) := by
    refine .enclosed isPair_parens (hinit.balanced.append (.token (fun _ => rfl) ?_)) (balanced_clauseText hbody.balanced)
    exact (balanced_partText htest).append ((balanced_partText hupdate).token fun _ => rfl)
  refine ofToken rfl (.token (fun _ => rfl) (by simpa using hbalanced)) fun d c line rest hcount hrest hc => ?_
  have hc : c.Ready line false lo (some (.reserved .kwFor) :: some (.punct .lparen) :: (ks ++ some (Token.Kind.punct .semi) ::
      (partText t x ++ some (Token.Kind.punct .semi) :: (partText t y ++ some (Token.Kind.punct .rparen) ::
        (clauseText sameLine ks' ++ rest))))) := by simpa using hc
  have hlt : count (ks ++ some (Token.Kind.punct .semi) :: (partText t x ++ some (Token.Kind.punct .semi) :: (partText t y ++
      some (Token.Kind.punct .rparen) :: (clauseText sameLine ks' ++ rest)))) < d := by
    simp only [List.cons_append, List.append_assoc, count_some] at hcount
    omega
  refine .kind? hc (.expect hc nofun fun word c₁ _ h₁ => .expect h₁ nofun fun _ c₂ _ h₂ => ?_)
  refine hinit.reads hlt (Nat.le_refl _) h₂ fun init' c₃ hinit' h₃ => .expect h₃ nofun fun _ c₄ _ h₄ => ?_
  refine .headPart (ends_of_none rfl) rfl htest (count_lt hlt) (Nat.le_refl _) h₄ fun test' _ c₅ htest' h₅ => ?_
  refine .headPart (ends_of_none rfl) rfl hupdate (count_lt (count_lt hlt)) (Nat.le_refl _) h₅
    fun update' _ c₆ hupdate' h₆ => ?_
  have hclause := hbody.callClause (count_lt (count_lt (count_lt hlt))) (Nat.le_refl _)
    ⟨hrest.noFinally, hrest.noElse⟩ h₆
  refine hclause.andThen fun s' c₇ h₇ => .pure ⟨h₇.1, (Stmt.bare_forLoop _ _ _ _ _).trans ?_⟩
  rw [hinit', htest', hupdate', h₇.2]

theorem ReadableStmt.forEach {exposes calls values : Bool} {target : ForTarget} {e : Expr} {s : Stmt}
    (htarget : ReadableTarget lo mid ks target) (h : Readable .assign exposes calls mid mid₁ ks' e)
    (hbody : ReadableStmt mid₁ hi ks₂ s) :
    ReadableStmt lo hi (some (.reserved .kwFor) :: some (.punct .lparen) :: (ks ++ some (eachToken values) ::
      (ks' ++ some (Token.Kind.punct .rparen) :: clauseText sameLine ks₂))) (.forEach .zero target values e s) := by
  have hbalanced : Balanced (some (.punct .lparen) :: ((ks ++ some (eachToken values) :: ks') ++
      some (Token.Kind.punct .rparen) :: clauseText sameLine ks₂)) := by
    refine .enclosed isPair_parens (htarget.balanced.append (h.balanced.token ?_)) (balanced_clauseText hbody.balanced)
    cases values <;> exact fun _ => rfl
  refine ofToken rfl (.token (fun _ => rfl) (by simpa using hbalanced)) fun d c line rest hcount hrest hc => ?_
  have hc : c.Ready line false lo (some (.reserved .kwFor) :: some (.punct .lparen) :: (ks ++ some (eachToken values) ::
      (ks' ++ some (Token.Kind.punct .rparen) :: (clauseText sameLine ks₂ ++ rest)))) := by simpa using hc
  have hlt : count (ks ++ some (eachToken values) :: (ks' ++ some (Token.Kind.punct .rparen) ::
      (clauseText sameLine ks₂ ++ rest))) < d := by
    simp only [List.cons_append, List.append_assoc, count_some] at hcount
    omega
  refine .kind? hc (.expect hc nofun fun word c₁ _ h₁ => .expect h₁ nofun fun _ c₂ _ h₂ => ?_)
  refine htarget.reads hlt (Nat.le_refl _) h₂ fun target' c₃ htarget' h₃ => .isAt h₃ ?_
  have hfinish : ∀ a c', c'.Ready false false mid₁ (some (.punct .rparen) :: (clauseText sameLine ks₂ ++ rest)) ∧
      a.bare = e → Gives c' (do
        let _ ← expect (.punct .rparen)
        let body ← (Grammar.rules [] d).statement
        return Stmt.forEach (word.span.join body.span) target' values a body) fun s' c'' =>
          c''.Ready false false hi rest ∧ s'.bare = .forEach .zero target values e s := by
    intro a c' h'
    refine .expect h'.1 nofun fun _ c₄ _ h₄ => ?_
    refine (hbody.callClause (count_lt (count_lt hlt)) (Nat.le_refl _) ⟨hrest.noFinally, hrest.noElse⟩ h₄).andThen
      fun s' c₅ h₅ => .pure ⟨h₅.1, ?_⟩
    change Stmt.forEach .zero target'.bare values a.bare s'.bare = _
    rw [htarget', h'.2, h₅.2]
  -- what is in front of the closing parenthesis is read by different productions
  cases values with
  | true =>
    refine .advance h₃ nofun fun _ c₄ _ h₄ => ?_
    exact (h.callAssign (b := false) nofun (count_lt hlt) (Nat.le_refl _) (ends_of_none rfl) h₄).andThen hfinish
  | false =>
    refine .advance h₃ nofun fun _ c₄ _ h₄ => ?_
    exact (h.callExpr (b := false) nofun (count_lt hlt) (Nat.le_refl _) (ends_of_none rfl) h₄).andThen hfinish

end

/-! ### Switches -/

/-- One case of a switch. -/
def Grammar.oneCase (r : Rules) (seenDefault : Bool) : Parse Case := do
  let start ← here
  let test ← caseTest r seenDefault
  let _ ← expect (.punct .colon)
  let body ← many isAtCaseEnd r.statement
  return ⟨start.join (← prevSpan), test, body⟩

theorem Grammar.casesFrom_succ (r : Rules) (size : Nat) (seenDefault : Bool) :
    casesFrom r (size + 1) seenDefault = do
      if ← isAt (.punct .rbrace) then return []
      let case ← oneCase r seenDefault
      return case :: (← casesFrom r size (seenDefault || case.test.isNone)) := by
  unfold oneCase
  simp only [bind_assoc, pure_bind]
  rfl

/-- The token ends the statements of a case. -/
def Token.Kind.endsCase (k : Token.Kind) : Bool :=
  k.sameSort (.reserved .kwCase) || k.sameSort (.reserved .kwDefault) || k.sameSort (.punct .rbrace) || k.sameSort .eof

/-- The text of a case from its place for comments on. -/
def caseText (head : Text) (texts : List Text) : Text :=
  none :: (head ++ some (Token.Kind.punct .colon) :: none :: lines texts)

/-- The text stands for a case. -/
structure ReadableCase (lo hi : Nat) (ks : Text) (k : Case) : Prop where
  starts : ∃ w ks', ks = none :: some (.reserved w) :: ks' ∧ (w = .kwCase ∨ w = .kwDefault)
  balanced : Balanced ks
  reads : ∀ {d m : Nat} {c : Cursor} {line seenDefault : Bool} {rest : Text}, m < d → count (ks ++ none :: rest) ≤ m →
    (first rest).endsCase = true → (k.test = none → seenDefault = false) → c.Ready line false lo (ks ++ none :: rest) →
    Gives c (Grammar.oneCase (Grammar.rules [] d) seenDefault) fun k' c' =>
      c'.Ready false false hi (none :: rest) ∧ k'.bare = k

section
variable {ι : Type} {t : ι → Text} {f : ι → Stmt} {lo mid hi : Nat} {xs : List ι} {exposes calls : Bool} {level : Prec}
  {ks : Text} {e : Expr}

theorem Token.Kind.endsCase_of_startsStmt {k : Token.Kind} (h : k.startsStmt = true) : k.endsCase = false := by
  cases k with
  | reserved w => cases w <;> first | rfl | cases h
  | punct p => cases p <;> first | rfl | cases h
  | eof => cases h
  | _ => rfl

theorem Token.Kind.endsStmts_of_endsCase {k : Token.Kind} (h : k.endsCase = true) : k.EndsStmts := by
  constructor <;> rintro rfl <;> cases h

/-- The statements of a case, up to the next one. -/
theorem Gives.caseBody {d m : Nat} {c : Cursor} {line : Bool} {rest : Text}
    (hrun : Run (fun lo hi x => ReadableStmt lo hi (t x) (f x)) lo hi xs) (hm : m < d)
    (hcount : count (lines (xs.map t) ++ none :: rest) ≤ m) (hrest : (first rest).endsCase = true)
    (hc : c.Ready line false lo (lines (xs.map t) ++ none :: rest)) :
    Gives c (Parse.many Grammar.isAtCaseEnd (Grammar.rules [] d).statement) fun ss c' =>
      c'.Ready false false hi (none :: rest) ∧ Bare.stmts ss = xs.map f := by
  refine .statements Token.Kind.endsCase (fun {c line n ks} hc => ?_) (fun _ _ _ => rfl)
    (fun k => Token.Kind.endsCase_of_startsStmt) hrest (Token.Kind.endsStmts_of_endsCase hrest) hrun hm hcount hc
  rw [Grammar.isAtCaseEnd, hc.isAt, hc.isAt, hc.isAt, hc.isAt]
  rfl

theorem ReadableCase.test (h : Readable level exposes calls lo mid ks e)
    (hrun : Run (fun lo hi x => ReadableStmt lo hi (t x) (f x)) mid hi xs) :
    ReadableCase lo hi (caseText (some (.reserved .kwCase) :: ks) (xs.map t)) ⟨.zero, some e, xs.map f⟩ where
  starts := ⟨_, _, rfl, .inl rfl⟩
  balanced := ((h.balanced.append ((balanced_lines hrun).line.token fun _ => rfl)).token fun _ => rfl).line
  reads {d m c line seenDefault rest} hm hcount hrest _ hc := by
    have hc : c.Ready line false lo (none :: some (.reserved .kwCase) :: (ks ++ some (Token.Kind.punct .colon) :: none ::
        (lines (xs.map t) ++ none :: rest))) := by simpa [caseText] using hc
    have hlt : count (ks ++ some (Token.Kind.punct .colon) :: none :: (lines (xs.map t) ++ none :: rest)) < d := by
      simp only [caseText, List.cons_append, List.append_assoc, count_none, count_some] at hcount
      omega
    refine .look (.bind (.eat hc.of_none rfl fun c₁ h₁ => ?_))
    refine (h.callExpr (b := false) nofun hlt (Nat.le_refl _) (ends_of_none rfl) h₁).andThen fun a c₂ h₂ => .pure ?_
    refine .expect h₂.1 nofun fun _ c₃ _ h₃ => ?_
    refine (Gives.caseBody hrun (count_lt hlt) (Nat.le_refl _) hrest h₃.of_none).andThen fun ss c₄ h₄ => .look ?_
    refine .pure ⟨h₄.1, (Case.bare_mk _ _ _).trans ?_⟩
    rw [Option.map_some, h₂.2, h₄.2]

theorem ReadableCase.default (hrun : Run (fun lo hi x => ReadableStmt lo hi (t x) (f x)) lo hi xs) :
    ReadableCase lo hi (caseText [some (.reserved .kwDefault)] (xs.map t)) ⟨.zero, none, xs.map f⟩ where
  starts := ⟨_, _, rfl, .inr rfl⟩
  balanced := (((balanced_lines hrun).line.token fun _ => rfl).token fun _ => rfl).line
  reads {d m c line seenDefault rest} hm hcount hrest hseen hc := by
    have hc : c.Ready line false lo (none :: some (.reserved .kwDefault) :: some (.punct .colon) :: none ::
        (lines (xs.map t) ++ none :: rest)) := by simpa [caseText] using hc
    have hlt : count (lines (xs.map t) ++ none :: rest) < d := by
      simp only [caseText, List.cons_append, List.nil_append, count_none, count_some] at hcount
      omega
    refine .look (.bind (.pass hc rfl (.isAt hc (.advance hc.of_none nofun fun _ c₁ _ h₁ => ?_))))
    rw [hseen rfl]
    refine .pure (.expect h₁ nofun fun _ c₂ _ h₂ => ?_)
    refine (Gives.caseBody hrun hlt (Nat.le_refl _) hrest h₂.of_none).andThen fun ss c₃ h₃ => .look ?_
    refine .pure ⟨h₃.1, (Case.bare_mk _ _ _).trans ?_⟩
    rw [Option.map_none, h₃.2]

end

section
variable {ι : Type} {t : ι → Text} {f : ι → Case} {lo mid hi : Nat} {xs : List ι} {exposes calls : Bool} {level : Prec}
  {ks : Text} {e : Expr}

theorem isNone_test_of_bare {k k' : Case} (h : k'.bare = k) : k'.test.isNone = k.test.isNone := by
  obtain ⟨span, test, body⟩ := k'
  rw [← h, Case.bare_mk, Option.isNone_map]

/-- Cases one after the other, of which at most one is the default case. -/
theorem Gives.casesFrom {d m size : Nat} {c : Cursor} {line seenDefault : Bool} {rest : Text}
    (hrun : Run (fun lo hi x => ReadableCase lo hi (t x) (f x)) lo hi xs) (hm : m < d)
    (hcount : count (xs.flatMap t ++ none :: some (.punct .rbrace) :: rest) ≤ m)
    (hsize : count (xs.flatMap t ++ none :: some (.punct .rbrace) :: rest) < size)
    (hdefault : ((xs.map f).filter (·.test.isNone)).length + (if seenDefault then 1 else 0) ≤ 1)
    (hc : c.Ready line false lo (xs.flatMap t ++ none :: some (.punct .rbrace) :: rest)) :
    Gives c (Grammar.casesFrom (Grammar.rules [] d) size seenDefault) fun ks c' =>
      c'.Ready false false hi (none :: some (.punct .rbrace) :: rest) ∧ Bare.cases ks = xs.map f := by
  induction hrun generalizing c line seenDefault size with
  | nil =>
    obtain ⟨size, rfl⟩ : ∃ n, size = n + 1 := ⟨size - 1, by omega⟩
    exact .isAt hc (.pure ⟨hc.of_none.none, rfl⟩)
  | @cons _ _ _ x xs hx hxs ih =>
    obtain ⟨size, rfl⟩ : ∃ n, size = n + 1 := ⟨size - 1, by omega⟩
    rw [List.flatMap_cons, List.append_assoc] at hc hcount hsize
    -- a line may end before the next case and before the brace
    obtain ⟨rest', hrest', hends⟩ : ∃ rest', xs.flatMap t ++ none :: some (.punct .rbrace) :: rest = none :: rest' ∧
        (first rest').endsCase = true := by
      cases hxs with
      | nil => exact ⟨_, rfl, rfl⟩
      | cons hy _ =>
        obtain ⟨w, ks', hks, hw⟩ := hy.starts
        rw [List.flatMap_cons, hks]
        exact ⟨_, rfl, by rcases hw with rfl | rfl <;> rfl⟩
    have hfirst : (first (t x ++ (xs.flatMap t ++ none :: some (.punct .rbrace) :: rest))).sameSort (.punct .rbrace) =
        false := by
      obtain ⟨w, ks', hks, -⟩ := hx.starts
      rw [hks]
      rfl
    have hpos : 0 < count (t x) := by
      obtain ⟨w, ks', hks, -⟩ := hx.starts
      rw [hks]
      exact Nat.succ_pos _
    rw [List.map_cons, List.filter_cons] at hdefault
    rw [Grammar.casesFrom_succ]
    refine .isAt hc ?_
    rw [hfirst]
    rw [hrest'] at hc hcount hsize
    have hseen : (f x).test = none → seenDefault = false := by
      intro htest
      rw [htest] at hdefault
      cases seenDefault with
      | false => rfl
      | true => simp at hdefault
    refine (hx.reads hm hcount hends hseen hc).andThen fun k c₁ h₁ => ?_
    rw [isNone_test_of_bare h₁.2]
    rw [count_append, ← hrest'] at hcount hsize
    have hc₁ := h₁.1
    rw [← hrest'] at hc₁
    refine (ih (by omega) (by omega) ?_ hc₁).andThen fun ks c₂ h₂ => .pure ⟨h₂.1, ?_⟩
    · cases hnone : (f x).test.isNone with
      | false => simpa [hnone] using hdefault
      | true =>
        rw [hnone, if_pos rfl, List.length_cons] at hdefault
        rw [Bool.or_true, if_pos rfl]
        omega
    · exact congrArg₂ List.cons h₁.2 h₂.2

theorem balanced_cases (hrun : Run (fun lo hi x => ReadableCase lo hi (t x) (f x)) lo hi xs) :
    Balanced (xs.flatMap t) := by
  induction hrun with
  | nil => exact .nil
  | cons hx _ ih => exact hx.balanced.append ih

theorem ReadableStmt.switch (h : Readable level exposes calls lo mid ks e)
    (hrun : Run (fun lo hi x => ReadableCase lo hi (t x) (f x)) mid hi xs)
    (hdefault : ((xs.map f).filter (·.test.isNone)).length ≤ 1) :
    ReadableStmt lo hi (some (.reserved .kwSwitch) :: some (.punct .lparen) :: (ks ++ some (Token.Kind.punct .rparen) ::
      some (.punct .lbrace) :: none :: (xs.flatMap t ++ [none, some (.punct .rbrace)])))
      (.switch .zero e (xs.map f)) := by
  have hbraces : Balanced (some (.punct .lbrace) :: (none :: (xs.flatMap t ++ [none]) ++ [some (Token.Kind.punct .rbrace)])) :=
    ((balanced_cases hrun).append Balanced.nil.line).line.enclosed isPair_braces .nil
  refine ofToken rfl ((balanced_parens h.balanced (by simpa using hbraces)).token fun _ => rfl)
    fun d c line rest hcount hrest hc => ?_
  have hc : c.Ready line false lo (some (.reserved .kwSwitch) :: some (.punct .lparen) :: (ks ++ some (Token.Kind.punct .rparen) ::
      some (.punct .lbrace) :: none :: (xs.flatMap t ++ none :: some (.punct .rbrace) :: rest))) := by simpa using hc
  have hlt : count (some (.punct .lparen) :: (ks ++ some (Token.Kind.punct .rparen) ::
      some (.punct .lbrace) :: none :: (xs.flatMap t ++ none :: some (.punct .rbrace) :: rest))) < d := by
    simp only [List.cons_append, List.append_assoc, count_some, List.nil_append] at hcount ⊢
    omega
  refine .kind? hc (.expect hc nofun fun word c₁ _ h₁ => .parenExpr h hlt (Nat.le_refl _) h₁ fun a c₂ ha h₂ => ?_)
  refine .expect h₂ nofun fun _ c₃ _ h₃ => .andThen (.sized h₃ (.casesFrom hrun ?_ (Nat.le_refl _) ?_ hdefault h₃.of_none)) ?_
  · simp only [count_some, count_append, count_none] at hlt ⊢
    omega
  · rw [count_none]
    omega
  · intro ks' c₄ h₄
    refine .expect h₄.1.of_none nofun fun _ c₅ _ h₅ => .pure ⟨h₅, ?_⟩
    exact congrArg₂ (Stmt.switch .zero) ha h₄.2

end

/-! ### Exceptions -/

/-- The text stands for a catch clause. -/
structure ReadableHandler (lo hi : Nat) (ks : Text) (h : Handler) : Prop where
  starts : ∃ ks', ks = some (.reserved .kwCatch) :: ks'
  balanced : Balanced ks
  reads : Reading false (fun _ => True) lo hi ks Grammar.handler (·.bare = h)

section
variable {exposes : Bool} {lo mid hi : Nat} {ks ks' : Text} {b : Block} {p : Pattern}

theorem ReadableHandler.withParam (h : ReadablePattern exposes lo mid ks p) (hp : p.isBinding = true)
    (hthis : p.findThis? = none) (hb : ReadableBlock mid hi ks' b) :
    ReadableHandler lo hi (some (.reserved .kwCatch) :: some (.punct .lparen) :: (ks ++ some (Token.Kind.punct .rparen) :: ks'))
      ⟨.zero, some p, b⟩ where
  starts := ⟨_, rfl⟩
  balanced := (h.balanced.enclosed isPair_parens hb.balanced).token fun _ => rfl
  reads d c line rest hcount _ hc := by
    rw [List.cons_append, List.cons_append, List.append_assoc, List.cons_append] at hc hcount
    rw [count_some, count_some] at hcount
    refine .expect hc nofun fun word c₁ _ h₁ => .eat h₁ rfl fun c₂ h₂ => ?_
    have hlt : count (ks ++ some (Token.Kind.punct .rparen) :: (ks' ++ rest)) < d := by omega
    refine (h.callBinding (b := false) hp nofun hlt (Nat.le_refl _) trivial h₂).andThen fun p' c₃ h₃ => ?_
    refine .rejectReceiver h₃.2 hthis (.expect h₃.1 nofun fun _ c₄ _ h₄ => ?_)
    refine (hb.reads d (Nat.le_of_lt (count_lt hlt)) trivial h₄).andThen fun b' c₅ h₅ => ?_
    refine .pure ⟨h₅.1, (Handler.bare_mk _ _ _).trans ?_⟩
    rw [Option.map_some, h₃.2, h₅.2]

theorem ReadableHandler.plain (hb : ReadableBlock lo hi ks b) :
    ReadableHandler lo hi (some (.reserved .kwCatch) :: ks) ⟨.zero, none, b⟩ where
  starts := ⟨_, rfl⟩
  balanced := hb.balanced.token fun _ => rfl
  reads d c line rest hcount _ hc := by
    rw [List.cons_append, count_some] at hcount
    refine .expect hc nofun fun word c₁ _ h₁ => .pass h₁ ?_ ?_
    · obtain ⟨ks', rfl⟩ := hb.starts
      rfl
    · refine (hb.reads d (by omega) trivial h₁).andThen fun b' c₂ h₂ => .pure ⟨h₂.1, (Handler.bare_mk _ _ _).trans ?_⟩
      rw [Option.map_none, h₂.2]

end

section
variable {ι κ : Type} {t : ι → Text} {f : ι → Handler} {u : κ → Text} {g : κ → Block} {lo mid mid' hi : Nat} {ks : Text}
  {b : Block} {x : Option ι} {y : Option κ}

/-- The text of what is done in any case. -/
def finallyText (u : κ → Text) (y : κ) : Text := some (.reserved .kwFinally) :: u y

theorem ReadableStmt.tryCatch (h : ReadableBlock lo mid ks b)
    (hhandler : Maybe (fun lo hi x => ReadableHandler lo hi (t x) (f x)) mid mid' x)
    (hfinalizer : Maybe (fun lo hi y => ReadableBlock lo hi (u y) (g y)) mid' hi y)
    (hsome : x.isSome = true ∨ y.isSome = true) :
    ReadableStmt lo hi (some (.reserved .kwTry) :: (ks ++ (partText t x ++ partText (finallyText u) y)))
      (.tryCatch .zero b (x.map f) (y.map g)) := by
  have hbalanced : Balanced (partText t x ++ partText (finallyText u) y) := by
    refine .append ?_ ?_
    · cases x with
      | none => exact .nil
      | some x => exact hhandler.balanced
    · cases y with
      | none => exact .nil
      | some y => exact hfinalizer.balanced.token fun _ => rfl
  refine ofToken rfl ((h.balanced.append hbalanced).token fun _ => rfl) fun d c line rest hcount hrest hc => ?_
  rw [List.cons_append, List.append_assoc, List.append_assoc] at hc hcount
  rw [count_some, count_append, count_append] at hcount
  refine .kind? hc (.expect hc nofun fun word c₁ _ h₁ => ?_)
  refine (h.reads d (by rw [count_append, count_append]; omega) trivial h₁).andThen fun b' c₂ h₂ => ?_
  -- the last part, from behind the handler on
  have hlast : ∀ handler c', handler.map Handler.bare = x.map f →
      c'.Ready false false mid' (partText (finallyText u) y ++ rest) → Gives c' (do
        let finalizer ← if ← eat (.reserved .kwFinally) then some <$> Grammar.block (Grammar.rules [] d) else pure none
        if handler.isNone && finalizer.isNone then failHere .missingHandler
        return Stmt.tryCatch (word.span.join (← prevSpan)) b' handler finalizer) fun s c'' =>
          c''.Ready false false hi rest ∧ s.bare = .tryCatch .zero b (x.map f) (y.map g) := by
    intro handler c' hhandler' h'
    have hnone : handler.isNone = x.isNone := by
      rw [← Option.isNone_map (f := Handler.bare), hhandler', Option.isNone_map]
    cases y with
    | none =>
      cases hfinalizer
      have hx : x.isNone = false := by simpa using hsome
      refine .pass h' (by simpa using hrest.noFinally : (first rest).sameSort _ = false) ?_
      change Gives c' (if (handler.isNone && true) = true then _ else _) _
      rw [hnone, hx]
      refine .look (.pure ⟨h', (Stmt.bare_tryCatch _ _ _ _).trans ?_⟩)
      rw [hhandler', h₂.2]
      rfl
    | some y =>
      refine .eat h' rfl fun c₃ h₃ => .bind (.map ((hfinalizer.reads d ?_ trivial h₃).imp fun b'' c₄ h₄ => ?_))
      · rw [partText_some, finallyText, List.cons_append, count_some] at hcount
        omega
      · change Gives c₄ (if (handler.isNone && false) = true then _ else _) _
        rw [Bool.and_false]
        refine .look (.pure ⟨h₄.1, (Stmt.bare_tryCatch _ _ _ _).trans ?_⟩)
        rw [hhandler', h₂.2, Option.map_some, h₄.2]
        rfl
  cases x with
  | none =>
    cases hhandler
    obtain ⟨y, rfl⟩ := Option.isSome_iff_exists.mp (hsome.resolve_left nofun)
    exact .isAt h₂.1 (hlast none c₂ rfl h₂.1)
  | some x =>
    have hcatch : (first (t x ++ (partText (finallyText u) y ++ rest))).sameSort (.reserved .kwCatch) = true := by
      obtain ⟨ks', hks⟩ := hhandler.starts
      rw [hks]
      rfl
    refine .isAt h₂.1 ?_
    change Gives c₂ (if (first (t x ++ (partText (finallyText u) y ++ rest))).sameSort _ = true then _ else _) _
    rw [hcatch]
    refine .bind (.map ((hhandler.reads d ?_ trivial h₂.1).imp fun handler c₃ h₃ => ?_))
    · rw [partText_some] at hcount
      rw [count_append]
      omega
    · exact hlast (some handler) c₃ (congrArg some h₃.2) h₃.1

end

/-! ### Programs -/

/-- Statements on lines of their own are read as a program. -/
theorem parse_program {ι : Type} {t : ι → Text} {f : ι → Stmt} {hi : Nat} {xs : List ι} {tokens : List Token}
    (hrun : Run (fun lo hi x => ReadableStmt lo hi (t x) (f x)) 0 hi xs) (hfits : Fits false tokens (lines (xs.map t))) :
    ∃ ss, Grammar.parse [] Grammar.program tokens = .ok ss ∧ Bare.stmts ss = xs.map f := by
  have hc : (Cursor.start tokens).Ready false false 0 (lines (xs.map t) ++ [none]) := ⟨hfits.concat_none, rfl, rfl⟩
  have hbound : count (lines (xs.map t) ++ [none]) < (Cursor.start tokens).rest.length + 1 := by
    rw [hc.length]
    omega
  have hgives : Gives (Cursor.start tokens) (Grammar.program (Grammar.rules [] ((Cursor.start tokens).rest.length + 1)))
      fun ss c' => c'.Ready false false hi [none] ∧ Bare.stmts ss = xs.map f :=
    .statements (fun k => k.sameSort .eof) (fun h => h.isAt _) (fun _ _ _ => rfl)
      (fun k hk => by simpa using (Token.Kind.ne_of_startsStmt hk rfl : k ≠ .eof)) rfl ⟨nofun, nofun⟩ hrun hbound
      (Nat.le_refl _) hc
  obtain ⟨ss, c', hok, -, hss⟩ := hgives
  refine ⟨ss, ?_, hss⟩
  rw [Grammar.parse, Grammar.run, hok]

end LabelWeaver
