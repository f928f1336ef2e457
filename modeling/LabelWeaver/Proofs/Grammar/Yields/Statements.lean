import LabelWeaver.Proofs.Grammar.Yields.Expressions

/-! What the readers of statements yield, and the productions tied together: if the productions that
    layers change yield what is asked of them, so do all, at every depth. -/

namespace LabelWeaver

namespace Making

open Grammar

variable {M : Making} {r r' : Rules} {lo : Nat}

/-! ### Declarations -/

/-- A declarator, by its parts. -/
def DeclaratorMade (M : Making) (lo hi : Nat) (d : Declarator) : Prop :=
  ∃ mid, M.made lo mid (.pattern d.target) ∧ d.target.isDeclared = true ∧
    Maybe (fun lo hi e => M.made lo hi (.expr e)) mid hi d.init

/-- A declaration, by its declarators. -/
def DeclMade (M : Making) (lo hi : Nat) (d : Decl) : Prop :=
  d.decls ≠ [] ∧ Run M.DeclaratorMade lo hi d.decls

theorem DeclaratorMade.made {hi : Nat} {d : Declarator} (h : M.DeclaratorMade lo hi d) :
    M.made lo hi (.declarator d) := by
  obtain ⟨mid, htarget, hdeclared, hinit⟩ := h
  exact M.node rfl hdeclared (.cons htarget (optionNodes hinit))

theorem DeclMade.made {hi : Nat} {d : Decl} (h : M.DeclMade lo hi d) : M.made lo hi (.decl d) :=
  M.node rfl h.1 (h.2.map DeclaratorMade.made)

theorem rejectReceiver {α : Type} {D : Cursor → Prop} {c : Cursor} {A : Cursor → α → Prop} {p : Pattern}
    {f f' : Unit → Parse α} (hp : p.isBinding = true)
    (hf : p.isDeclared = true → M.Yields D c (f ()) (f' ()) A) :
    M.Yields D c (rejectReceiver p >>= f) (rejectReceiver p >>= f') A := by
  unfold Grammar.rejectReceiver
  split
  · exact .failAt_bind
  · next hthis => exact hf (Pattern.isDeclared_iff.mpr ⟨hp, hthis⟩)

theorem Dies.rejectReceiver {α : Type} {E : Cursor → Prop} {c : Cursor} {p : Pattern} {f : Unit → Parse α}
    (hf : Dies E c (f ())) : Dies E c (Grammar.rejectReceiver p >>= f) := by
  unfold Grammar.rejectReceiver
  split
  · exact .failAt_bind
  · exact hf

section
variable (hr : M.RulesYield r r')

include hr

theorem declarator (c : Cursor) : M.Yields M.Dead c (declarator r) (declarator r')
    fun c' d => M.DeclaratorMade c.nextSite c'.nextSite d := by
  refine (hr.binding c).bindDead (fun {c' p} hp => rejectReceiver hp.2 fun hdeclared => ?_)
    fun hd _ => .rejectReceiver (.eat hd.2 rfl (.pure hd))
  refine .eat (fun _ _ => ?_) fun _ => .pure ⟨_, hp.1, hdeclared, rfl⟩
  exact (hr.assign _).bind fun he => .pure ⟨_, hp.1, hdeclared, he⟩

theorem declaration (c : Cursor) : M.Yields M.Dead c (declaration r) (declaration r')
    fun c' d => M.DeclMade c.nextSite c'.nextSite d := by
  refine .advance fun _ _ => (Yields.commaList And.right (declarator hr) _).bindDead
    (fun hds => .look (.pure hds)) fun hd _ => .look (.pure hd)

/-! ### Branches and loops -/

theorem parenExpr (c : Cursor) :
    M.Yields Cursor.Never c (parenExpr r) (parenExpr r') (M.on .expr c.nextSite) := by
  refine .expect fun _ _ => (hr.expr _).bind fun he => ?_
  exact .expect fun _ _ => .pure he

theorem ifStmt (c : Cursor) :
    M.Yields M.Dead c (ifStmt r) (ifStmt r') (M.StatementMade c.nextSite) := by
  refine .expect fun _ _ => (parenExpr hr _).bind fun htest => ?_
  refine (hr.statement _).bindDead (fun {c' s} hthen => ?_) fun hd _ => .eat hd.2 rfl (.pure hd)
  refine .eat (fun {t ts} hrest hk => ?_) fun hno => .pure ⟨?_, fun _ => hno⟩
  · have hclosed : s.endsOpen = false := by
      cases hopen : s.endsOpen with
      | false => rfl
      | true =>
        have hno := hthen.2 hopen
        rw [Cursor.isAt, Cursor.kind?_of_rest hrest] at hno
        rw [Option.any_some, hk] at hno
        exact hno
    refine (hr.statement _).bindDead (fun helse => .pure ⟨?_, helse.2⟩) fun hd _ => .pure hd
    exact M.node rfl hclosed (.cons htest (.cons hthen.1 (.cons helse.1 (.nil _))))
  · exact M.node rfl trivial (.cons htest (.cons hthen.1 (.nil _)))

theorem forEachRest (start : Span) {c : Cursor} {target : ForTarget} (ht : M.on .forTarget lo c target) :
    M.Yields M.Dead c (forEachRest r start target) (forEachRest r' start target) (M.StatementMade lo) := by
  refine .look (.advance fun _ _ => .either (A := M.on .expr c.nextSite) (fun _ => hr.assign _)
    (fun _ => hr.expr _) fun he => .expect fun _ _ => ?_)
  refine (hr.statement _).bindDead (fun hbody => .pure ⟨?_, hbody.2⟩) fun hd _ => .pure hd
  exact M.node rfl trivial (.cons ht (.cons he (.cons hbody.1 (.nil _))))

theorem forLoopRest (start : Span) {c : Cursor} {init : ForInit} (hinit : M.on .forInit lo c init) :
    M.Yields M.Dead c (forLoopRest r start init) (forLoopRest r' start init) (M.StatementMade lo) := by
  refine .expect fun _ _ => .look (.optionalUnless (R := fun lo hi e => M.made lo hi (.expr e))
    (fun _ => hr.expr _) fun htest => .expect fun _ _ => ?_)
  refine .look (.optionalUnless (R := fun lo hi e => M.made lo hi (.expr e)) (fun _ => hr.expr _)
    fun hupdate => .expect fun _ _ => ?_)
  refine (hr.statement _).bindDead (fun hbody => .pure ⟨M.node rfl trivial ?_, hbody.2⟩) fun hd _ => .pure hd
  exact .cons hinit ((optionNodes htest).append ((optionNodes hupdate).append (.cons hbody.1 (.nil _))))

omit hr in
/-- A counting loop needs a semicolon first. -/
theorem forLoopRest_dies (start : Span) {c : Cursor} (init : ForInit) {E : Cursor → Prop} (hc : c.AtColon) :
    Dies E c (Grammar.forLoopRest r start init) :=
  .expect hc rfl

theorem forStmt (c : Cursor) :
    M.Yields M.Dead c (forStmt r) (forStmt r') (M.StatementMade c.nextSite) := by
  refine .expect fun _ _ => .expect fun _ _ => .look ?_
  split
  · exact forLoopRest hr _ (M.node rfl trivial (.nil _))
  · refine .look ?_
    split
    · refine Yields.bindDead (D := M.Dead) (A := fun c' d => M.DeclMade c.nextSite c'.nextSite d)
        (.withNoIn id (declaration hr _)) (fun {c' d} hd => .look ?_) fun {c' d} hd _ => .look ?_
      · have hloop : ∀ s, M.Yields M.Dead c' (Grammar.forLoopRest r s (.var d))
            (Grammar.forLoopRest r' s (.var d)) (M.StatementMade c.nextSite) :=
          fun s => forLoopRest hr s (M.node rfl trivial (.cons hd.made (.nil _)))
        split
        · obtain ⟨hne, hrun⟩ := hd
          split
          · next s target hdecls =>
            rw [hdecls] at hrun
            obtain ⟨_, ⟨mid, htarget, hdeclared, hinit⟩, hrest⟩ := run_cons_iff.mp hrun
            cases hinit
            cases hrest
            exact forEachRest hr _ (M.node rfl hdeclared (.cons htarget (.nil _)))
          · exact hloop _
        · exact hloop _
      · have hkind : c'.kind? = some (.punct .colon) := hd.2
        have heach : isAtEach c' = false := by simp [isAtEach, Cursor.isAt, hkind]
        rw [heach]
        exact forLoopRest_dies _ _ hd.2
    · refine (Yields.resetNoIn (hr.expr _)).bind fun {c' e} he => .look ?_
      split
      · cases ht : e.isTarget with
        | true => exact forEachRest hr _ (M.node rfl ht (.cons he (.nil _)))
        | false => exact .failAt_bind
      · exact forLoopRest hr _ (M.node rfl trivial (.cons he (.nil _)))

theorem whileStmt (c : Cursor) :
    M.Yields M.Dead c (whileStmt r) (whileStmt r') (M.StatementMade c.nextSite) := by
  refine .expect fun _ _ => (parenExpr hr _).bind fun htest => ?_
  refine (hr.statement _).bindDead (fun hbody => .pure ⟨?_, hbody.2⟩) fun hd _ => .pure hd
  exact M.node rfl trivial (.cons htest (.cons hbody.1 (.nil _)))

theorem doWhileStmt (c : Cursor) :
    M.Yields Cursor.Never c (doWhileStmt r) (doWhileStmt r') (M.StatementMade c.nextSite) := by
  refine .expect fun _ _ => (hr.statement _).bindDead (fun hbody => .expect fun _ _ => ?_)
    fun hd _ => .expect hd.2 rfl
  refine (parenExpr hr _).bind fun {c' e} htest => ?_
  have hmade : ∀ s, M.made c.nextSite c'.nextSite (.stmt (.doWhile s _ e)) :=
    fun s => M.node rfl trivial (.cons hbody.1 (.cons htest (.nil _)))
  exact .eat (fun _ _ => .look (.pure ⟨hmade _, nofun⟩)) fun _ => .look (.pure ⟨hmade _, nofun⟩)

/-! ### Switch -/

theorem caseTest (seenDefault : Bool) (c : Cursor) :
    M.Yields Cursor.Never c (caseTest r seenDefault) (caseTest r' seenDefault) fun c' test =>
      Maybe (fun lo hi e => M.made lo hi (.expr e)) c.nextSite c'.nextSite test ∧
        (seenDefault = true → test.isNone = false) := by
  refine .eat (fun _ _ => ?_) fun _ => .look ?_
  · exact (hr.expr _).bind fun he => .pure ⟨he, fun _ => rfl⟩
  · split
    · refine .advance fun _ _ => ?_
      split
      · exact .failAt_bind
      · next h => exact .pure ⟨rfl, fun h' => absurd h' h⟩
    · exact .failHere

theorem casesFrom (size : Nat) (seenDefault : Bool) (c : Cursor) :
    M.Yields Cursor.Never c (casesFrom r size seenDefault) (casesFrom r' size seenDefault) fun c' cases =>
      Run (fun lo hi k => M.made lo hi (.case k)) c.nextSite c'.nextSite cases ∧
        (cases.filter (·.test.isNone)).length ≤ if seenDefault then 0 else 1 := by
  induction size generalizing seenDefault c with
  | zero => exact .failHere
  | succ size ih =>
    refine .look ?_
    split
    · exact .pure ⟨.nil _, Nat.zero_le _⟩
    · refine .look ((caseTest hr seenDefault c).bind fun {c' test} htest => .expect fun _ _ => ?_)
      refine (Yields.many (R := fun lo hi s => M.made lo hi (.stmt s))
        (fun c => (hr.statement c).imp And.left) (fun {c} hd => ?_) _).bind fun hbody => .look ?_
      · have hkind : c.kind? = some (.punct .colon) := hd.2
        exact ⟨by simp [isAtCaseEnd, Cursor.isAt, hkind], hr.stuck hd⟩
      · refine (ih _ _).bind fun hrest => .pure ⟨.cons ?_ hrest.1, ?_⟩
        · exact M.node rfl trivial ((optionNodes htest.1).append (nodes hbody))
        · -- a default case makes the others count as seen
          have hcount := hrest.2
          rw [List.filter_cons]
          cases htest' : test.isNone with
          | false => simpa [htest'] using hcount
          | true =>
            have hseen : seenDefault = false := by
              cases seenDefault with
              | false => rfl
              | true => rw [htest.2 rfl] at htest'; cases htest'
            simpa [htest', hseen] using hcount

theorem switchStmt (c : Cursor) :
    M.Yields Cursor.Never c (switchStmt r) (switchStmt r') (M.StatementMade c.nextSite) := by
  refine .expect fun _ _ => (parenExpr hr _).bind fun hsubject => .expect fun {t ts} _ _ => ?_
  refine Yields.bind (casesFrom hr _ false (Cursor.past _ t ts)) fun hcases => .expect fun _ _ => .pure ⟨?_, nofun⟩
  exact M.node rfl hcases.2 (.cons hsubject (nodes hcases.1))

/-! ### Exceptions -/

theorem handler (c : Cursor) :
    M.Yields Cursor.Never c (handler r) (handler r') (M.on .handler c.nextSite) := by
  have hbody : ∀ {c₁ : Cursor} (param : Option Pattern) (t : Token),
      Maybe (fun lo hi p => M.made lo hi (.pattern p) ∧ p.isDeclared = true) c.nextSite c₁.nextSite param →
      M.Yields Cursor.Never c₁ (do
        let body ← Grammar.block r
        return Handler.mk (t.span.join body.span) param body) (do
        let body ← Grammar.block r'
        return Handler.mk (t.span.join body.span) param body) (M.on .handler c.nextSite) := by
    intro c₁ param t hparam
    have hmade : Maybe (fun lo hi p => M.made lo hi (.pattern p)) c.nextSite c₁.nextSite param := by
      cases param with
      | none => exact hparam
      | some p => exact hparam.1
    refine (block hr _).bind fun hb => .pure (M.node rfl ?_ ((optionNodes hmade).append (.cons hb (.nil _))))
    intro p hp
    cases hp
    exact hparam.2
  refine .expect fun _ _ => .eat (fun _ _ => ?_) fun _ => ?_
  · refine (hr.binding _).bindDead (fun {_ p} hp => rejectReceiver hp.2 fun hdeclared => .expect fun _ _ => ?_)
      fun hd _ => .rejectReceiver (.expect hd.2 rfl)
    exact hbody (some p) _ ⟨hp.1, hdeclared⟩
  · exact hbody none _ rfl

theorem tryStmt (c : Cursor) :
    M.Yields Cursor.Never c (tryStmt r) (tryStmt r') (M.StatementMade c.nextSite) := by
  refine .expect fun _ _ => (block hr _).bind fun hbody => .look ?_
  refine .optional (R := fun lo hi h => M.made lo hi (.handler h)) (fun _ => handler hr _)
    fun {c₁ h} hhandler => ?_
  refine .eatOptional (R := fun lo hi b => M.made lo hi (.block b)) (fun _ => block hr _)
    fun {c₂ f} hfinalizer => ?_
  dsimp only
  split
  · exact .failHere_bind
  · next hsome =>
    refine .look (.pure ⟨M.node rfl ?_ (.cons hbody ((optionNodes hhandler).append (optionNodes hfinalizer))), nofun⟩)
    change h.isSome = true ∨ f.isSome = true
    cases h <;> cases f <;> simp_all

theorem throwStmt (c : Cursor) :
    M.Yields Cursor.Never c (throwStmt r) (throwStmt r') (M.StatementMade c.nextSite) := by
  refine .expect fun _ _ => .look ?_
  split
  · exact .failHere_bind
  · refine (hr.expr _).bind fun he => .consumeSemicolon fun hc' => .look (.pure ⟨?_, nofun⟩)
    rw [on, hc']
    exact M.node rfl trivial (.cons he (.nil _))

/-! ### All statements -/

theorem returnStmt (c : Cursor) :
    M.Yields Cursor.Never c (returnStmt r) (returnStmt r') (M.StatementMade c.nextSite) := by
  refine .expect fun _ _ => .look (.optionalUnless (R := fun lo hi e => M.made lo hi (.expr e))
    (fun _ => hr.expr _) fun {c₁ e} he => .consumeSemicolon fun {c₂} hc₂ => .look (.freshSite (.pure ⟨?_, nofun⟩)))
  refine M.node rfl trivial ((optionNodes he).append (.cons ?_ (.nil _)))
  rw [← hc₂]
  exact M.site c₂.nextSite

theorem varStmt (c : Cursor) :
    M.Yields M.Dead c (varStmt r) (varStmt r') (M.StatementMade c.nextSite) := by
  refine (declaration hr c).bindDead (fun {c₁ d} hd => .consumeSemicolon fun hc' => .look (.pure ⟨?_, nofun⟩))
    fun hd _ => .consumeSemicolon hd.2 (.look (.pure hd))
  rw [on, hc']
  exact M.node rfl trivial (.cons (DeclMade.made (d := { d with span := _ }) hd) (.nil _))

omit hr in
theorem jumpStmt (make : Span → Stmt) (c : Cursor)
    (hmake : ∀ s, M.made c.nextSite c.nextSite (.stmt (make s)) ∧ (make s).endsOpen = false) :
    M.Yields Cursor.Never c (jumpStmt make) (jumpStmt make) (M.StatementMade c.nextSite) := by
  refine .advance fun _ _ => .consumeSemicolon fun hc' => .look (.pure ⟨?_, fun h => ?_⟩)
  · rw [on, hc']
    exact (hmake _).1
  · rw [(hmake _).2] at h
    cases h

variable {head : Nat → Nat → Function → Prop} {g g' : Grammar} (hg : M.HooksYield head g g')

include hg

theorem functionStmt (c : Cursor) :
    M.Yields Cursor.Never c (functionStmt g r) (functionStmt g' r') (M.StatementMade c.nextSite) := by
  refine .expect fun _ _ => .expectIdent fun {_ _ n} _ hn => ?_
  refine (function hr hg _ _ (some n) false ⟨by simpa using hn, nofun⟩).bind
    fun hf => .pure ⟨M.node rfl ⟨hf.2.2, ?_⟩ (.cons hf.made (.nil _)), nofun⟩
  rw [hf.2.1]
  rfl

theorem exprStmt (c : Cursor) :
    M.Yields Cursor.Never c (exprStmt g r) (exprStmt g' r') (M.StatementMade c.nextSite) := by
  refine (sequence hr hg c).bind fun he => .consumeSemicolon fun hc' => .look (.pure ⟨?_, nofun⟩)
  rw [on, hc']
  exact M.node rfl trivial (.cons he (.nil _))

theorem baseStatement (c : Cursor) :
    M.Yields M.Dead c (baseStatement g r) (baseStatement g' r') (M.StatementMade c.nextSite) := by
  refine .look ?_
  split
  · exact .failHere
  · exact (block hr c).bind fun hb => .pure ⟨M.node rfl trivial (.cons hb (.nil _)), nofun⟩
  · exact .advance fun _ _ => .pure ⟨M.node rfl trivial (.nil _), nofun⟩
  · split
    · exact varStmt hr c
    · exact varStmt hr c
    · exact varStmt hr c
    · exact (functionStmt hr hg c).weaken
    · exact (returnStmt hr c).weaken
    · exact ifStmt hr c
    · exact forStmt hr c
    · exact whileStmt hr c
    · exact (doWhileStmt hr c).weaken
    · exact (switchStmt hr c).weaken
    · exact (tryStmt hr c).weaken
    · exact (throwStmt hr c).weaken
    · exact (jumpStmt .break c fun _ => ⟨M.node rfl trivial (.nil _), rfl⟩).weaken
    · exact (jumpStmt .continue c fun _ => ⟨M.node rfl trivial (.nil _), rfl⟩).weaken
    · exact (exprStmt hr hg c).weaken
  · exact (exprStmt hr hg c).weaken

theorem statement (c : Cursor) :
    M.Yields M.Dead c (statement g r) (statement g' r') (M.StatementMade c.nextSite) :=
  hg.statement hr (baseStatement hr hg) c

end

/-! ### The productions tied together -/

section
variable {head : Nat → Nat → Function → Prop} {g g' : Grammar} (hg : M.HooksYield head g g')

include hg

theorem rules (depth : Nat) : M.RulesYield (rules g depth) (rules g' depth) := by
  induction depth with
  | zero =>
    exact ⟨hg.own 0, fun _ => .failHere, nofun, fun _ => .failHere, fun _ => .failHere,
      fun _ => .failHere, fun _ _ => .failHere, fun _ => .failHere, fun _ => .failHere, fun _ => .failHere,
      fun _ _ _ _ _ => .failHere⟩
  | succ depth ih =>
    exact ⟨hg.own (depth + 1), statement ih hg, hg.statementStuck ih, sequence ih hg, assign ih hg, conditional ih hg, binary ih hg,
      unary ih hg, new ih hg, hg.binding ih, function ih hg⟩

/-- A program that the first grammar reads is read by the second one too, and its statements are
    made as the making says. -/
theorem program {tokens : List Token} {stmts : List Stmt} (htokens : M.Admits (.start tokens))
    (h : g.parse Grammar.program tokens = .ok stmts) :
    (∃ hi, Run (fun lo hi s => M.made lo hi (.stmt s)) 0 hi stmts) ∧
      g'.parse Grammar.program tokens = .ok stmts := by
  have hr := rules hg (tokens.length + 1)
  have hmany : M.Yields Cursor.Never (.start tokens) (Grammar.program (Grammar.rules g (tokens.length + 1)))
      (Grammar.program (Grammar.rules g' (tokens.length + 1))) fun c' ss =>
        Run (fun lo hi s => M.made lo hi (.stmt s)) 0 c'.nextSite ss := by
    refine Yields.many (fun c => (hr.statement c).imp And.left) (fun {c} hd => ?_) _
    have hkind : c.kind? = some (.punct .colon) := hd.2
    exact ⟨by simp [Cursor.isAt, hkind], hr.stuck hd⟩
  simp only [Grammar.parse, Grammar.run] at h ⊢
  split at h
  · next a c' hrun =>
    cases h
    obtain ⟨-, hmade, hsame⟩ := hmany htokens hrun
    refine ⟨⟨_, hmade⟩, ?_⟩
    have hsecond := hsame.resolve_right id
    simp only [Cursor.start] at hsecond ⊢
    rw [hsecond]
  · cases h

end

/-! ### The base language -/

/-- A function of the base language before its body is read. -/
structure BaseHead (M : Making) (lo hi : Nat) (fn : Function) : Prop where
  named : M.Named fn.name fn.isArrow
  params : Run (fun lo hi p => M.made lo hi (.pattern p)) lo hi fn.params
  receiver : fn.receiver = none
  returns : fn.returns = none
  condition : fn.condition = none
  sites : fn.checkedSites = []
  instrumented : fn.instrumented = false

theorem baseParams (hr : M.RulesYield r r') (c : Cursor) (start : Span) (name : Option Name) (isArrow : Bool)
    (hname : M.Named name isArrow) :
    M.Yields Cursor.Never c (baseParams r (.blank start name isArrow)) (baseParams r' (.blank start name isArrow))
      fun c' fn => M.BaseHead c.nextSite c'.nextSite fn ∧ fn.name = name ∧ fn.isArrow = isArrow := by
  refine .expect fun _ _ => (Yields.separated And.right (R := fun lo hi p => M.made lo hi (.pattern p))
    (listElement hr) _).bindDead (fun hs => ?_) fun hd _ => .expect hd.2 rfl
  exact .expect fun _ _ => .pure ⟨⟨hname, hs, rfl, rfl, rfl, rfl, rfl⟩, rfl, rfl⟩

/-- The body in the base language, whatever the parameters are. -/
theorem baseBodied (hr : M.RulesYield r r') (c : Cursor) (fn : Function) :
    M.Yields Cursor.Never c (baseBody r fn) (baseBody r' fn) fun c' f =>
      ∃ b, f = { fn with body := b } ∧ M.on .body c.nextSite c' b ∧ (fn.isArrow = false → ∃ block, b = .block block) := by
  refine .look ?_
  split
  · next hcond =>
    have harrow : fn.isArrow = true := (Bool.and_eq_true _ _ ▸ hcond).1
    refine (hr.assign _).bind fun he => .pure ⟨_, rfl, M.node rfl trivial (.cons he (.nil _)), fun hno => ?_⟩
    rw [harrow] at hno
    cases hno
  · exact (block hr _).bind fun hb => .pure ⟨_, rfl, M.node rfl trivial (.cons hb (.nil _)), fun _ => ⟨_, rfl⟩⟩

/-- Functions of the base language are made of their parts. -/
class MakesFunctions (M : Making) : Prop where
  function : ∀ {lo hi : Nat} {fn : Function}, fn.Proper M.lexis → Run M.made lo hi (Node.function fn).parts →
    M.made lo hi (.function fn)

theorem baseBody [M.MakesFunctions] (hr : M.RulesYield r r') {c : Cursor} {fn : Function}
    (h : M.BaseHead lo c.nextSite fn) :
    M.Yields Cursor.Never c (baseBody r fn) (baseBody r' fn) (M.FunctionMade lo fn.name fn.isArrow) := by
  refine (baseBodied hr c fn).imp ?_
  rintro c' f ⟨b, rfl, hb, hblock⟩
  refine ⟨fun s => MakesFunctions.function ?_ ((nodes h.params).append (.cons hb (.nil _))), rfl, rfl⟩
  exact ⟨h.named.1, h.named.2, hblock, h.receiver, h.returns, h.condition, h.sites, h.instrumented⟩

theorem baseBody_dies {c : Cursor} {fn : Function} (hc : c.Bodiless) (harrow : fn.isArrow = false) :
    Dies Cursor.Never c (Grammar.baseBody r fn) := by
  refine Dies.look ?_
  rw [harrow]
  exact Dies.bind (.expectOther hc.2)

theorem baseAtom_dies {g : Grammar} {c : Cursor} (hc : c.AtColon) :
    Dies Cursor.Never c (Grammar.baseAtom g r) := by
  obtain ⟨t, ts, hrest, ht⟩ := hc.rest
  refine Dies.look ?_
  rw [Cursor.peek?, hrest]
  dsimp only [List.head?_cons]
  rw [ht, literal?, ht]
  exact .failAt

/-- No statement starts with a colon. -/
theorem baseStatement_dies {g : Grammar} {c : Cursor} (hc : c.AtColon)
    (hatom : Dies Cursor.Never c (Grammar.atom g r)) : Dies Cursor.Never c (Grammar.baseStatement g r) := by
  have hkind : c.kind? = some (.punct .colon) := hc
  have hnew : c.isAt (.reserved .kwNew) = false := by simp [Cursor.isAt, hkind]
  have hleft : Dies Cursor.Never c (Grammar.leftHandSide g r) := by
    refine Dies.look ?_
    rw [hnew]
    exact hatom.bind
  have hunary : Dies Cursor.Never c (Grammar.unary g r) := by
    refine Dies.look ?_
    rw [hkind]
    exact hleft.bind
  refine Dies.look ?_
  rw [hkind]
  exact Dies.bind (Dies.bind (Dies.bind (Dies.bind hunary.bind)))

/-- The productions of the base language yield what is asked of them. -/
theorem HooksYield.base [M.MakesFunctions] (hown : ∀ depth, M.own (Grammar.rules [] depth)) :
    M.HooksYield M.BaseHead [] [] where
  own := hown
  binding hr c := (baseBinding hr c).weaken
  params hr c start name isArrow hname := (baseParams hr c start name isArrow hname).weaken
  single hn := by
    refine ⟨⟨nofun, fun _ => rfl⟩, .cons ?_ (.nil _), rfl, rfl, rfl, rfl, rfl⟩
    exact M.node rfl hn (.cons (M.node rfl rfl (.nil _)) (.nil _))
  body hr _ _ _ h := baseBody hr h
  bodyStuck _ _ fn hd harrow := baseBody_dies hd harrow
  atom _ h := h
  trailing _ _ _ _ he := baseTrailing he
  statement _ h := h
  statementStuck _ _ hd := baseStatement_dies hd.2 (baseAtom_dies hd.2)

end Making

/-! ### Trees -/

/-- The names and literals that tokens can stand for. -/
def Lexis.of (admits : Token.Kind → Prop) : Lexis where
  name x := ∃ k, admits k ∧ k.identText? = some x
  property x := ∃ k, admits k ∧ k.propertyText? = some x
  number x := admits (.number x)
  regex x y := admits (.regex x y)

/-- Trees that are proper everywhere, with their return statements numbered as they are read. -/
def Making.trees (admits : Token.Kind → Prop) (tolerant : Prop) : Making where
  admits := admits
  lexis := .of admits
  made lo hi n := n.Made (.of admits) lo hi
  tolerant := tolerant
  node {_ _ n} hn := .node (by cases n <;> first | rfl | cases hn)
  site := .site
  item h := h.item
  name hk hx := ⟨_, hk, hx⟩
  propertyName hk hx := ⟨_, hk, hx⟩
  number h := h
  regex h := h

instance (admits : Token.Kind → Prop) (tolerant : Prop) : (Making.trees admits tolerant).MakesFunctions :=
  ⟨fun hproper hparts => .node rfl hproper hparts⟩

/-- A program of the base language is made of proper trees. -/
theorem Grammar.made_of_parse {admits : Token.Kind → Prop} {tokens : List Token} {stmts : List Stmt}
    (htokens : ∀ t ∈ tokens, admits t.kind) (h : Grammar.parse [] Grammar.program tokens = .ok stmts) :
    ∃ hi, Run (fun lo hi s => (Node.stmt s).Made (.of admits) lo hi) 0 hi stmts :=
  ((Making.trees admits False).program (.base fun _ => trivial) ⟨htokens, trivial⟩ h).1

end LabelWeaver
