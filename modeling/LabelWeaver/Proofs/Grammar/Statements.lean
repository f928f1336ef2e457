import LabelWeaver.Proofs.Grammar.Expressions

/-! Statements of two runs, and the productions tied together: if the productions that layers change
    keep two runs side by side, so do all, at every depth. -/

namespace LabelWeaver

namespace Likeness

open Grammar

variable {L : Likeness} {lo hi : Nat} {r r' : Rules} {g g' : Grammar}

/-! ### Declarations -/

/-- Declarators of the same form. -/
structure DeclaratorLike (L : Likeness) (lo hi : Nat) (d d' : Declarator) : Prop where
  parts : ∃ mid, L.PatternLike lo mid d.target d'.target ∧ Optional (L.on .expr) mid hi d.init d'.init

theorem DeclaratorLike.rel {d d' : Declarator} (h : L.DeclaratorLike lo hi d d') :
    L.rel lo hi (.declarator d) (.declarator d') := by
  obtain ⟨mid, htarget, hinit⟩ := h.parts
  refine bare rfl ?_ rfl rfl (.cons htarget.rel (optionNodes hinit))
  simp only [Node.skeleton, hinit.map_const]

/-- Declarations of the same form. -/
structure DeclLike (L : Likeness) (lo hi : Nat) (d d' : Decl) : Prop where
  kind : d.kind = d'.kind
  decls : Chain L.DeclaratorLike lo hi d.decls d'.decls

theorem DeclLike.rel {d d' : Decl} (h : L.DeclLike lo hi d d') : L.rel lo hi (.decl d) (.decl d') := by
  refine bare rfl ?_ rfl rfl (h.decls.map DeclaratorLike.rel)
  simp only [Node.skeleton, h.kind, h.decls.map_const]

theorem rejectReceiver {α β : Type} {A : Nat → α → β → Prop} {p p' : Pattern} {f : Unit → Parse α}
    {f' : Unit → Parse β} (hp : L.PatternLike lo hi p p') {w : Nat} (hf : L.Sim w (f ()) (f' ()) A) :
    L.Sim w (rejectReceiver p >>= f) (rejectReceiver p' >>= f') A := by
  have hthis := hp.findThis?
  unfold Grammar.rejectReceiver
  cases h : p.findThis? with
  | some s => exact .failAt_bind
  | none =>
    cases h' : p'.findThis? with
    | some s => rw [h, h'] at hthis; cases hthis
    | none => exact hf

section
variable (hr : L.RulesLike r r')

include hr

theorem declarator (lo : Nat) : L.Sim lo (declarator r) (declarator r') (L.DeclaratorLike lo) := by
  refine (hr.binding lo).bind fun _ hp => rejectReceiver hp (.eat fun b => ?_)
  split
  · exact (hr.assign _).bind fun _ he => .pure ⟨_, hp, .some he⟩
  · exact .pure ⟨_, hp, .none⟩

theorem declaration (lo : Nat) : L.Sim lo (declaration r) (declaration r') (L.DeclLike lo) := by
  refine .advance fun t t' ht => (Sim.commaList (declarator hr) lo).bind fun _ hs => ?_
  refine .prevSpan fun _ _ => .pure ⟨?_, hs⟩
  simp only [ht]

omit hr in
theorem isAtDeclaration_beside {c d : Cursor} (h : c.Beside d) : isAtDeclaration c = isAtDeclaration d := by
  rw [isAtDeclaration, isAtDeclaration, h.isAt, h.isAt, h.isAt]

/-! ### Branches and loops -/

theorem parenExpr (lo : Nat) : L.Sim lo (parenExpr r) (parenExpr r') (L.on .expr lo) := by
  refine .expect fun _ _ _ => (hr.expr lo).bind fun _ he => ?_
  exact .expect fun _ _ _ => .pure he

theorem ifStmt (lo : Nat) : L.Sim lo (ifStmt r) (ifStmt r') (L.on .stmt lo) := by
  refine .expect fun _ _ _ => (parenExpr hr lo).bind fun _ htest => ?_
  refine (hr.statement _).bind fun _ hthen => .eat fun b => ?_
  split
  · refine (hr.statement _).bind fun _ helse => .pure ?_
    exact stmt rfl (.cons htest (.cons hthen (.cons helse (.nil _))))
  · exact .pure (stmt rfl (.cons htest (.cons hthen (.nil _))))

omit hr in
theorem isAtEach_beside {c d : Cursor} (h : c.Beside d) : isAtEach c = isAtEach d := by
  rw [isAtEach, isAtEach, h.isAt, h.kind?]

theorem forEachRest (start start' : Span) {target target' : ForTarget}
    (ht : L.rel lo hi (.forTarget target) (.forTarget target')) :
    L.Sim hi (forEachRest r start target) (forEachRest r' start' target') (L.on .stmt lo) := by
  refine .isAt fun b => .advance fun _ _ _ => Sim.either (hr.assign hi) (hr.expr hi) fun _ he => ?_
  refine .expect fun _ _ _ => (hr.statement _).bind fun _ hbody => .pure ?_
  exact stmt rfl (.cons ht (.cons he (.cons hbody (.nil _))))

theorem forLoopRest (start start' : Span) {init init' : ForInit}
    (hi' : L.rel lo hi (.forInit init) (.forInit init')) :
    L.Sim hi (forLoopRest r start init) (forLoopRest r' start' init') (L.on .stmt lo) := by
  refine .expect fun _ _ _ => .isAt fun b => Sim.optionalUnless (hr.expr hi) fun _ htest => ?_
  refine .expect fun _ _ _ => .isAt fun b => Sim.optionalUnless (hr.expr _) fun _ hupdate => ?_
  refine .expect fun _ _ _ => (hr.statement _).bind fun _ hbody => .pure (stmt ?_ ?_)
  · simp only [Stmt.skeleton, htest.map_const, hupdate.map_const]
  · exact .cons hi' ((optionNodes htest).append ((optionNodes hupdate).append (.cons hbody (.nil _))))

theorem forStmt (lo : Nat) : L.Sim lo (forStmt r) (forStmt r') (L.on .stmt lo) := by
  refine .expect fun t t' _ => .expect fun _ _ _ => .isAt fun b => ?_
  split
  · exact forLoopRest hr _ _ (bare rfl rfl rfl rfl (.nil lo))
  · refine .look isAtDeclaration_beside fun b => ?_
    split
    · refine (Sim.withNoIn (declaration hr lo)).bind fun {w d d'} _ hd => .look isAtEach_beside fun b => ?_
      have hloop : L.Sim w (Grammar.forLoopRest r t.span (.var d)) (Grammar.forLoopRest r' t'.span (.var d'))
          (L.on .stmt lo) := forLoopRest hr _ _ (bare rfl rfl rfl rfl (.cons hd.rel (.nil _)))
      split
      · have hdecls := hd.decls
        generalize d.decls = ds, d'.decls = ds' at hdecls ⊢
        cases hdecls with
        | nil => exact hloop
        | @cons _ _ _ x x' _ _ hx hrest =>
          obtain ⟨s, p, init⟩ := x
          obtain ⟨s', p', init'⟩ := x'
          obtain ⟨mid, hp, hinit⟩ := hx.parts
          cases hrest with
          | cons => cases init <;> cases init' <;> exact hloop
          | nil =>
            cases hinit with
            | some => exact hloop
            | none =>
              refine forEachRest hr _ _ (bare rfl ?_ rfl rfl (.cons hp.rel (.nil _)))
              simp only [Node.skeleton, hd.kind]
      · exact hloop
    · refine (Sim.withNoIn (hr.expr lo)).bind fun {w e e'} _ he => .look isAtEach_beside fun b => ?_
      split
      · cases ht : e.isTarget with
        | true =>
          rw [L.target he ht]
          exact forEachRest hr _ _ (bare rfl rfl rfl rfl (.cons he (.nil _)))
        | false =>
          rw [if_pos (by rfl)]
          exact .failAt_bind
      · exact forLoopRest hr _ _ (bare rfl rfl rfl rfl (.cons he (.nil _)))

theorem whileStmt (lo : Nat) : L.Sim lo (whileStmt r) (whileStmt r') (L.on .stmt lo) := by
  refine .expect fun _ _ _ => (parenExpr hr lo).bind fun _ htest => ?_
  refine (hr.statement _).bind fun _ hbody => .pure ?_
  exact stmt rfl (.cons htest (.cons hbody (.nil _)))

theorem doWhileStmt (lo : Nat) : L.Sim lo (doWhileStmt r) (doWhileStmt r') (L.on .stmt lo) := by
  refine .expect fun _ _ _ => (hr.statement lo).bind fun _ hbody => .expect fun _ _ _ => ?_
  refine (parenExpr hr _).bind fun _ htest => .eat fun _ => .prevSpan fun _ _ => .pure ?_
  exact stmt rfl (.cons hbody (.cons htest (.nil _)))

/-! ### Switch -/

omit hr in
theorem isAtCaseEnd_beside {c d : Cursor} (h : c.Beside d) : isAtCaseEnd c = isAtCaseEnd d := by
  rw [isAtCaseEnd, isAtCaseEnd, h.isAt, h.isAt, h.isAt, h.isAt]

theorem caseTest (seenDefault : Bool) (lo : Nat) :
    L.Sim lo (caseTest r seenDefault) (caseTest r' seenDefault) (Optional (L.on .expr) lo) := by
  refine .eat fun b => ?_
  split
  · exact (hr.expr lo).bind fun _ he => .pure (.some he)
  · refine .isAt fun b => ?_
    split
    · refine .advance fun _ _ _ => ?_
      split
      · exact .failAt_bind
      · exact .pure .none
    · exact .failHere

theorem casesFrom (size : Nat) (seenDefault : Bool) (lo : Nat) :
    L.Sim lo (casesFrom r size seenDefault) (casesFrom r' size seenDefault) (Chain (L.on .case) lo) := by
  induction size generalizing seenDefault lo with
  | zero => exact .failHere
  | succ size ih =>
    refine .isAt fun b => ?_
    split
    · exact .pure (.nil lo)
    · refine .here fun _ _ => (caseTest hr seenDefault lo).bind fun {_ t t'} _ htest => ?_
      refine .expect fun _ _ _ => (Sim.many isAtCaseEnd_beside hr.statement _).bind fun _ hbody => ?_
      have hnone : t.isNone = t'.isNone := by cases htest <;> rfl
      rw [hnone]
      refine .prevSpan fun _ _ => (ih _ _).bind fun _ hrest => .pure (.cons ?_ hrest)
      refine bare rfl ?_ rfl rfl ((optionNodes htest).append (nodes hbody))
      simp only [Node.skeleton, htest.map_const, hbody.map_const]

theorem switchStmt (lo : Nat) : L.Sim lo (switchStmt r) (switchStmt r') (L.on .stmt lo) := by
  refine .expect fun _ _ _ => (parenExpr hr lo).bind fun _ hsubject => .expect fun _ _ _ => ?_
  refine (Sim.sized fun size => casesFrom hr size false _).bind fun _ hcases => ?_
  refine .expect fun _ _ _ => .pure (stmt ?_ (.cons hsubject (nodes hcases)))
  simp only [Stmt.skeleton, hcases.map_const]

/-! ### Exceptions -/

/-- Blocks of the same form. -/
theorem blockNode (lo : Nat) : L.Sim lo (Grammar.block r) (Grammar.block r') (L.on .block lo) := by
  refine (block hr lo).imp fun _ hs => bare rfl ?_ rfl rfl (nodes hs)
  simp only [Node.skeleton, hs.map_const]

theorem handler (lo : Nat) : L.Sim lo (handler r) (handler r') (L.on .handler lo) := by
  have hbody : ∀ {w p p'} {t t' : Token}, Optional L.PatternLike lo w p p' →
      L.Sim w (Grammar.block r >>= fun b => Pure.pure (Handler.mk (t.span.join b.span) p b))
        (Grammar.block r' >>= fun b => Pure.pure (Handler.mk (t'.span.join b.span) p' b))
        (L.on .handler lo) := by
    intro w p p' t t' hp
    have hps : Chain L.rel lo w (p.toList.map .pattern) (p'.toList.map .pattern) := hp.toList PatternLike.rel
    refine (blockNode hr w).bind fun _ hb => .pure (bare rfl ?_ rfl rfl (hps.append (.cons hb (.nil _))))
    simp only [Node.skeleton, hp.map_const]
  refine .expect fun _ _ _ => .eat fun b => ?_
  split
  · refine (hr.binding lo).bind fun _ hp => rejectReceiver hp (.expect fun _ _ _ => ?_)
    exact hbody (.some hp)
  · exact hbody .none

theorem tryStmt (lo : Nat) : L.Sim lo (tryStmt r) (tryStmt r') (L.on .stmt lo) := by
  refine .expect fun _ _ _ => (blockNode hr lo).bind fun _ hbody => .isAt fun b => ?_
  refine Sim.optional (handler hr _) fun {_ h h'} _ hh => .eat fun b => ?_
  refine Sim.optional (blockNode hr _) fun {_ f f'} _ hf => ?_
  have hnone : (h.isNone && f.isNone) = (h'.isNone && f'.isNone) := by
    cases hh <;> cases hf <;> rfl
  dsimp only
  rw [hnone]
  split
  · exact .failHere_bind
  · refine .prevSpan fun _ _ => .pure (stmt ?_ (.cons hbody ((optionNodes hh).append (optionNodes hf))))
    simp only [Stmt.skeleton, hh.map_const, hf.map_const]

theorem throwStmt (lo : Nat) : L.Sim lo (throwStmt r) (throwStmt r') (L.on .stmt lo) := by
  refine .expect fun _ _ _ => .look (fun h => h.newlineBefore) fun b => ?_
  split
  · exact .failHere_bind
  · refine (hr.expr lo).bind fun _ he => .consumeSemicolon (.prevSpan fun _ _ => .pure ?_)
    exact stmt rfl (.cons he (.nil _))

/-! ### All statements -/

/-- The number of a return lies behind those of the returns in its argument. -/
theorem returnStmt (lo : Nat) : L.Sim lo (returnStmt r) (returnStmt r') (L.on .stmt lo) := by
  refine .expect fun _ _ _ => .look (fun h => h.isAtStatementEnd) fun b => ?_
  refine Sim.optionalUnless (hr.expr lo) fun _ he => .consumeSemicolon (.prevSpan fun _ _ => ?_)
  refine .freshSite fun n => .pure (stmt ?_ ((optionNodes he).append (.cons (L.site _ n) (.nil _))))
  simp only [Stmt.skeleton, he.map_const]

theorem varStmt (lo : Nat) : L.Sim lo (varStmt r) (varStmt r') (L.on .stmt lo) := by
  refine (declaration hr lo).bind fun _ hd => .consumeSemicolon (.prevSpan fun _ _ => .pure ?_)
  exact stmt rfl (.cons (DeclLike.rel ⟨hd.kind, hd.decls⟩) (.nil _))

end

theorem jumpStmt {make : Span → Stmt} (hs : ∀ s s', (make s).skeleton = (make s').skeleton)
    (hparts : ∀ s, (make s).parts = []) (lo : Nat) :
    L.Sim lo (jumpStmt make) (jumpStmt make) (L.on .stmt lo) := by
  refine .advance fun _ _ _ => .consumeSemicolon (.prevSpan fun _ _ => .pure (stmt (hs _ _) ?_))
  rw [hparts, hparts]
  exact .nil lo

section
variable (hr : L.RulesLike r r') (hg : L.HooksLike g g')

include hr hg

theorem functionStmt (lo : Nat) : L.Sim lo (functionStmt g r) (functionStmt g' r') (L.on .stmt lo) := by
  refine .expect fun _ _ _ => .expectIdent fun n n' hn => ?_
  have hname : (some n).map (·.text) = (some n').map (·.text) := congrArg some hn
  refine (function hr hg lo _ _ false hname).bind fun _ hf => .pure ?_
  exact stmt rfl (.cons hf (.nil _))

theorem exprStmt (lo : Nat) : L.Sim lo (exprStmt g r) (exprStmt g' r') (L.on .stmt lo) := by
  refine (sequence hr hg lo).bind fun _ he => .consumeSemicolon (.prevSpan fun _ _ => .pure ?_)
  exact stmt rfl (.cons he (.nil _))

theorem baseStatement (lo : Nat) :
    L.Sim lo (baseStatement g r) (baseStatement g' r') (L.on .stmt lo) := by
  refine .kind? fun k => ?_
  split
  · exact .failHere
  · refine (blockNode hr lo).bind fun _ hb => .pure ?_
    exact stmt rfl (.cons hb (.nil _))
  · exact .advance fun _ _ _ => .pure (stmt rfl (.nil lo))
  · split
    · exact varStmt hr lo
    · exact varStmt hr lo
    · exact varStmt hr lo
    · exact functionStmt hr hg lo
    · exact returnStmt hr lo
    · exact ifStmt hr lo
    · exact forStmt hr lo
    · exact whileStmt hr lo
    · exact doWhileStmt hr lo
    · exact switchStmt hr lo
    · exact tryStmt hr lo
    · exact throwStmt hr lo
    · exact jumpStmt (fun _ _ => rfl) (fun _ => rfl) lo
    · exact jumpStmt (fun _ _ => rfl) (fun _ => rfl) lo
    · exact exprStmt hr hg lo
  · exact exprStmt hr hg lo

end

/-! ### The knot -/

/-- The productions of two grammars stay side by side if the second ones can call each other as deep. -/
theorem rules_le (hg : L.HooksLike g g') {depth depth' : Nat} (hle : depth ≤ depth') :
    L.RulesLike (g.rules depth) (g'.rules depth') := by
  induction depth generalizing depth' with
  | zero =>
    exact ⟨fun _ => .failHere, fun _ => .failHere, fun _ => .failHere, fun _ => .failHere,
      fun _ _ => .failHere, fun _ => .failHere, fun _ => .failHere, fun _ => .failHere,
      fun _ _ _ _ _ _ _ => .failHere⟩
  | succ depth ih =>
    obtain ⟨depth', rfl⟩ : ∃ n, depth' = n + 1 := ⟨depth' - 1, by omega⟩
    have ih := ih (Nat.le_of_succ_le_succ hle)
    exact {
      statement := hg.statement ih (baseStatement ih hg)
      expr := sequence ih hg
      assign := assign ih hg
      conditional := conditional ih hg
      binary := binary ih hg
      unary := unary ih hg
      new := new ih hg
      binding := hg.binding ih
      function := fun lo start start' isArrow _ _ hname => function ih hg lo start start' isArrow hname }

theorem rules (hg : L.HooksLike g g') (depth : Nat) : L.RulesLike (g.rules depth) (g'.rules depth) :=
  rules_le hg (Nat.le_refl depth)

/-- Programs of two runs. -/
theorem program (hg : L.HooksLike g g') {tokens : List Token} (hadmits : L.admits tokens) {stmts : List Stmt}
    (h : g.parse Grammar.program tokens = .ok stmts) :
    ∃ stmts' hi, g'.parse Grammar.program tokens = .ok stmts' ∧ Chain (L.on .stmt) 0 hi stmts stmts' := by
  have hsim : L.Sim 0 (Grammar.program (g.rules (tokens.length + 1)))
      (Grammar.program (g'.rules (tokens.length + 1))) (Chain (L.on .stmt) 0) :=
    Sim.many (fun h => h.isAt _) (rules hg _).statement 0
  unfold Grammar.parse at h
  split at h
  · next c hrun =>
    cases h
    obtain ⟨stmts', d, hrun', -, -, hs⟩ := hsim ⟨⟨rfl, rfl⟩, hadmits⟩ rfl hrun
    have hrun' : g'.run Grammar.program (.start tokens) = .ok stmts' d := hrun'
    exact ⟨stmts', c.nextSite, by rw [Grammar.parse, hrun'], hs⟩
  · cases h

end Likeness

/-- A program is read in two steps: its tokens, then its statements. -/
theorem Grammar.parseProgram_eq_ok {g : Grammar} {source : String} {program : Program} :
    g.parseProgram source = .ok program ↔
      ∃ lexed stmts, g.read source = .ok lexed ∧ g.parse Grammar.program lexed.tokens = .ok stmts ∧
        program = ⟨stmts, lexed.comments⟩ := by
  unfold parseProgram
  constructor
  · intro h
    cases hread : g.read source with
    | error e => rw [hread] at h; cases h
    | ok lexed =>
      rw [hread] at h
      change (g.parse Grammar.program lexed.tokens >>= fun stmts => _) = _ at h
      cases hparse : g.parse Grammar.program lexed.tokens with
      | error e => rw [hparse] at h; cases h
      | ok stmts =>
        rw [hparse] at h
        cases h
        exact ⟨lexed, stmts, rfl, hparse, rfl⟩
  · rintro ⟨lexed, stmts, hread, hparse, rfl⟩
    rw [hread]
    change (g.parse Grammar.program lexed.tokens >>= fun stmts => _) = _
    rw [hparse]
    rfl

end LabelWeaver
