import LabelWeaver.Proofs.Grammar.Spans.Basic

/-! The productions of the base language keep to the spans of the tokens, and so do those of every grammar
    whose layers do. -/

namespace LabelWeaver

namespace SpanSet

open Grammar Keeps

variable {S : SpanSet} {r : Rules}

/-! ### Receivers in patterns -/

theorem elementsFindThis?_mem {es : List (Option Pattern)} (h : ∀ p, some p ∈ es → S.HasPattern p) :
    ∀ s ∈ elementsFindThis? es, s ∈ S := by
  induction es with
  | nil => nofun
  | cons e es ih =>
    have hes := ih fun p hp => h p (List.mem_cons_of_mem _ hp)
    cases e with
    | none => exact hes
    | some p =>
      intro s hs
      rw [elementsFindThis?, Option.mem_def, Option.or_eq_some_iff] at hs
      rcases hs with hs | ⟨-, hs⟩
      · exact (h p List.mem_cons_self).2 s hs
      · exact hes s hs

theorem propertiesFindThis?_mem {ps : List PatternProp} (h : ∀ p ∈ ps, ∀ s ∈ propertiesFindThis? [p], s ∈ S) :
    ∀ s ∈ propertiesFindThis? ps, s ∈ S := by
  induction ps with
  | nil => nofun
  | cons p ps ih =>
    have hp := h p List.mem_cons_self
    have hps := ih fun q hq => h q (List.mem_cons_of_mem _ hq)
    intro s hs
    cases p with
    | shorthand b e => exact hps s hs
    | keyValue k p | rest p =>
      rw [propertiesFindThis?, Option.mem_def, Option.or_eq_some_iff] at hs
      rcases hs with hs | ⟨-, hs⟩
      · exact hp s (by simpa [propertiesFindThis?] using hs)
      · exact hps s hs

theorem rejectReceiver {p : Pattern} (h : S.HasPattern p) : S.Keeps (rejectReceiver p) fun _ => True := by
  unfold Grammar.rejectReceiver
  split
  · next s hs => exact .failAt (h.2 s hs)
  · exact .pure trivial

section
variable (hr : S.KeepsRules r)

include hr

/-! ### Patterns -/

theorem propKey : S.Keeps (propKey r) fun k => ∀ n, k = .name n → n.span ∈ S := by
  refine advance.bind fun t ht => ?_
  split
  · exact .pure nofun
  · exact .pure nofun
  · exact hr.assign.bind fun _ _ => expect.bind fun _ _ => .pure nofun
  · split
    · refine .pure ?_
      rintro n ⟨⟩
      exact ht
    · exact .failAt ht

theorem bindingElement : S.Keeps (bindingElement r.binding r) S.HasPattern := by
  refine hr.binding.bind fun p hp => eat.bind fun _ _ => .ite ?_ (.pure hp)
  exact hr.assign.bind fun e he => .pure ⟨join_mem hp.1 he, hp.2⟩

theorem restElement : S.Keeps (restElement r) S.HasPattern :=
  expect.bind fun _ ht => hr.binding.bind fun _ hp => .pure ⟨join_mem ht hp.1, hp.2⟩

theorem listElement : S.Keeps (listElement r) S.HasPattern :=
  .see fun _ => .ite (restElement hr) (bindingElement hr)

theorem patternProp : S.Keeps (patternProp r) fun p => ∀ s ∈ propertiesFindThis? [p], s ∈ S := by
  refine .see fun _ => .ite ((restElement hr).bind fun p hp => .pure ?_) ?_
  · simpa [propertiesFindThis?] using hp.2
  · refine (propKey hr).bind fun k _ => eat.bind fun _ _ => .ite ?_ ?_
    · refine (bindingElement hr).bind fun p hp => .pure ?_
      simpa [propertiesFindThis?] using hp.2
    · split
      · exact eat.bind fun _ _ => .optional hr.assign fun _ => .pure fun _ h => (by cases h)
      · exact .failHere

theorem baseBinding : S.Keeps (baseBinding r) S.HasPattern := by
  refine .see fun _ => ?_
  split
  · refine expect.bind fun _ ht => (elements (listElement hr)).bind fun es hes => expect.bind fun _ ht' => .pure ?_
    exact ⟨join_mem ht ht', elementsFindThis?_mem hes⟩
  · refine expect.bind fun _ ht => (separated (patternProp hr)).bind fun ps hps => expect.bind fun _ ht' => .pure ?_
    exact ⟨join_mem ht ht', propertiesFindThis?_mem hps⟩
  · exact expectIdent.bind fun n hn => .pure ⟨hn, nofun⟩

/-! ### Functions -/

theorem block : S.Keeps (block r) (·.span ∈ S) := by
  refine expect.bind fun _ ht => (many (A := fun _ => True) ?_).bind fun _ _ => expect.bind fun _ ht' =>
    .pure (join_mem ht ht')
  exact .see fun _ => .ite .failHere_bind (hr.statement.imp fun _ _ => trivial)

theorem baseParams (fn : Function) (hfn : S.HasParams fn) : S.Keeps (baseParams r fn) S.HasParams := by
  refine expect.bind fun _ _ => (separated (listElement hr)).bind fun ps hps => expect.bind fun _ _ => .pure ?_
  exact fun p hp => (List.mem_append.mp hp).elim (hfn p) (hps p)

theorem baseBody (fn : Function) : S.Keeps (baseBody r fn) fun _ => True := by
  refine .see fun _ => .ite ?_ ?_
  · exact hr.assign.bind fun _ _ => .pure trivial
  · exact (block hr).bind fun _ _ => .pure trivial

/-! ### Lists and members -/

theorem spreadOrAssign : S.Keeps (spreadOrAssign r) (·.span ∈ S) := by
  refine .see fun _ => .ite ?_ hr.assign
  exact advance.bind fun _ ht => hr.assign.bind fun _ he => .pure (join_mem ht he)

theorem exprList (close : Token.Kind) : S.Keeps (exprList r close) fun es => ∀ e ∈ es, e.span ∈ S :=
  .withNoIn ((separated (spreadOrAssign hr)).bind fun _ hes => expect.bind fun _ _ => .pure hes)

theorem memberStep (allowCall : Bool) (e : Expr) (he : e.span ∈ S) :
    S.Keeps (memberStep r allowCall e) fun o => ∀ e' ∈ o, e'.span ∈ S := by
  have hsome : ∀ {e' : Expr}, e'.span ∈ S → ∀ b ∈ some e', b.span ∈ S := fun h b hb => by cases hb; exact h
  refine eat.bind fun _ _ => .ite ?_ (eat.bind fun _ _ => .ite ?_ ?_)
  · exact expectPropertyName.bind fun n hn => .pure (hsome (join_mem he hn))
  · exact (withNoIn hr.expr).bind fun _ _ => expect.bind fun _ ht => .pure (hsome (join_mem he ht))
  · cases allowCall with
    | false => exact .pure nofun
    | true =>
      refine eat.bind fun _ _ => .ite ?_ (.pure nofun)
      exact (exprList hr _).bind fun _ _ => prevSpan.bind fun _ hs => .pure (hsome (join_mem he hs))

theorem memberTail (allowCall : Bool) {e : Expr} (he : e.span ∈ S) : S.Keeps (memberTail r allowCall e) (·.span ∈ S) :=
  extend (memberStep hr allowCall) he

/-! ### Literals -/

theorem arrayLiteral : S.Keeps (arrayLiteral r) (·.span ∈ S) :=
  expect.bind fun _ ht => (withNoIn (elements (spreadOrAssign hr))).bind fun _ _ => expect.bind fun _ ht' =>
    .pure (join_mem ht ht')

theorem property : S.Keeps (property r) fun _ => True := by
  refine eat.bind fun _ _ => .ite (hr.assign.bind fun _ _ => .pure trivial) (here.bind fun _ hs => ?_)
  refine (propKey hr).bind fun k _ => eat.bind fun _ _ => .ite (hr.assign.bind fun _ _ => .pure trivial) ?_
  refine .see fun _ => .ite ((hr.function _ _ hs).bind fun _ _ => .pure trivial) ?_
  split
  · exact .pure trivial
  · exact .failHere

theorem objectLiteral : S.Keeps (objectLiteral r) (·.span ∈ S) :=
  expect.bind fun _ ht => (withNoIn (separated (property hr))).bind fun _ _ => expect.bind fun _ ht' =>
    .pure (join_mem ht ht')

end

/-! ### Functions in a grammar -/

section
variable {g : Grammar} (hg : ∀ layer ∈ g, S.KeepsLayer layer) (hr : S.KeepsRules r)

/-- What every layer makes of a production that keeps to the spans does so too. -/
theorem foldr_layers {α : Type} {Q : α → Prop} {hook : Layer → α → α} {base : α}
    (hhook : ∀ layer ∈ g, ∀ inner, Q inner → Q (hook layer inner)) (hbase : Q base) :
    Q (g.foldr hook base) := by
  induction g with
  | nil => exact hbase
  | cons layer g ih =>
    exact hhook layer List.mem_cons_self _ (ih fun l hl => hhook l (List.mem_cons_of_mem _ hl))

include hg hr

theorem binding : S.Keeps (binding g r) S.HasPattern :=
  foldr_layers (Q := fun inner => S.Keeps inner S.HasPattern)
    (fun layer hl _ h => (hg layer hl).binding hr h) (baseBinding hr)

theorem params (fn : Function) (hfn : S.HasParams fn) : S.Keeps (params g r fn) S.HasParams :=
  foldr_layers (Q := fun inner : Function → Parse Function => ∀ fn, S.HasParams fn → S.Keeps (inner fn) S.HasParams)
    (fun layer hl _ h => (hg layer hl).params hr h) (baseParams hr) fn hfn

theorem body (fn : Function) (hfn : S.HasParams fn) : S.Keeps (body g r fn) fun _ => True :=
  foldr_layers (Q := fun inner : Function → Parse Function => ∀ fn, S.HasParams fn → S.Keeps (inner fn) fun _ => True)
    (fun layer hl _ h => (hg layer hl).body hr h) (fun fn _ => baseBody hr fn) fn hfn

theorem function {start : Span} (name : Option Name) (isArrow : Bool) (hstart : start ∈ S) :
    S.Keeps (function g r start name isArrow) (·.span ∈ S) := by
  refine (withNoIn (A := fun _ => True) ?_).bind fun _ _ => prevSpan.bind fun _ hs => .pure (join_mem hstart hs)
  refine (params hg hr _ fun _ hp => absurd hp List.not_mem_nil).bind fun fn hfn => ?_
  refine .ite (.see fun _ => .see fun _ => ?_) (body hg hr fn hfn)
  exact .ite .failHere_bind (expect.bind fun _ _ => body hg hr fn hfn)

theorem nameArrow : S.Keeps (nameArrow g r) (·.span ∈ S) := by
  refine here.bind fun _ hstart => expectIdent.bind fun n hn => (withNoIn (A := fun _ => True) ?_).bind
    fun _ _ => prevSpan.bind fun _ hs => .pure (join_mem hstart hs)
  refine expect.bind fun _ _ => body hg hr _ ?_
  intro p hp
  cases List.mem_singleton.mp hp
  exact ⟨hn, nofun⟩

/-! ### Expressions -/

theorem parenthesized : S.Keeps (parenthesized g r) (·.span ∈ S) := by
  refine .see fun _ => .ite ?_ ?_
  · exact here.bind fun _ hs => (function hg hr _ _ hs).bind fun _ hfn => .pure hfn
  · exact advance.bind fun _ _ => (withNoIn hr.expr).bind fun _ he => expect.bind fun _ _ => .pure he

theorem functionExpr : S.Keeps (functionExpr g r) (·.span ∈ S) := by
  refine advance.bind fun _ ht => .see fun _ => .optional expectIdent fun _ => ?_
  exact (function hg hr _ _ ht).bind fun _ hfn => .pure hfn

omit hg hr in
theorem literal?_mem {t : Token} {e : Expr} (h : literal? t = some e) : e.span = t.span := by
  unfold literal? at h
  split at h <;> cases h <;> rfl

theorem baseAtom : S.Keeps (baseAtom g r) (·.span ∈ S) := by
  refine (look (A := fun o => ∀ t ∈ o, t.span ∈ S) fun c hc t ht => ?_).bind fun o ho => ?_
  · exact hc.rest t (List.mem_of_mem_head? ht)
  · cases o with
    | none => exact .failHere
    | some t =>
      have ht : t.span ∈ S := ho t rfl
      dsimp only
      split
      · exact .see fun _ => .ite (nameArrow hg hr) (advance.bind fun _ _ => .pure ht)
      · split
        · next e he =>
          refine advance.bind fun _ _ => .pure ?_
          rw [literal?_mem he]
          exact ht
        · split
          · exact parenthesized hg hr
          · exact arrayLiteral hr
          · exact objectLiteral hr
          · exact functionExpr hg hr
          · exact .failAt ht

theorem atom : S.Keeps (atom g r) (·.span ∈ S) :=
  foldr_layers (Q := fun inner => S.Keeps inner (Expr.span · ∈ S))
    (fun layer hl _ h => (hg layer hl).atom hr h) (baseAtom hg hr)

theorem new : S.Keeps (new g r) (·.span ∈ S) := by
  refine expect.bind fun _ ht => .see fun _ => .either hr.new (atom hg hr) fun _ he => ?_
  refine (memberTail hr false he).bind fun _ _ => eat.bind fun _ _ => ?_
  refine .either (A := fun _ => True) ((exprList hr _).imp fun _ _ => trivial) (.pure trivial) fun _ _ => ?_
  exact prevSpan.bind fun _ hs => .pure (join_mem ht hs)

theorem leftHandSide : S.Keeps (leftHandSide g r) (·.span ∈ S) :=
  .see fun _ => .either (new hg hr) (atom hg hr) fun _ he => memberTail hr true he

omit hg hr in
theorem checkUpdateTarget {e : Expr} (he : e.span ∈ S) : S.Keeps (checkUpdateTarget e) fun _ => True :=
  .ite (.pure trivial) (.failAt he)

omit hg hr in
theorem baseTrailing (e : Expr) (he : e.span ∈ S) : S.Keeps (baseTrailing e) (·.span ∈ S) := by
  refine .see fun _ => ?_
  split
  · exact .pure he
  · refine .see fun _ => .ite (.pure he) ((checkUpdateTarget he).bind fun _ _ => ?_)
    exact advance.bind fun _ ht => .pure (join_mem he ht)

theorem trailing (e : Expr) (he : e.span ∈ S) : S.Keeps (trailing g r e) (·.span ∈ S) :=
  foldr_layers (Q := fun inner : Expr → Parse Expr => ∀ e : Expr, e.span ∈ S → S.Keeps (inner e) (·.span ∈ S))
    (fun layer hl _ h => (hg layer hl).trailing hr h) baseTrailing e he

theorem unary : S.Keeps (unary g r) (·.span ∈ S) := by
  refine .see fun _ => ?_
  split
  · exact advance.bind fun _ ht => hr.unary.bind fun _ he => .pure (join_mem ht he)
  · split
    · exact advance.bind fun _ ht => hr.unary.bind fun _ he => (checkUpdateTarget he).bind fun _ _ =>
        .pure (join_mem ht he)
    · exact (leftHandSide hg hr).bind fun e he => trailing hg hr e he

omit hg in
theorem binaryStep (least : Prec) (e : Expr) (he : e.span ∈ S) :
    S.Keeps (binaryStep r least e) fun o => ∀ e' ∈ o, e'.span ∈ S := by
  refine .see fun _ => ?_
  split
  · exact .pure nofun
  · split
    · exact .pure nofun
    · refine advance.bind fun _ _ => (hr.binary _).bind fun _ hright => .pure ?_
      rintro _ ⟨⟩
      exact join_mem he hright

theorem binary (least : Prec) : S.Keeps (binary g r least) (·.span ∈ S) :=
  (unary hg hr).bind fun _ he => extend (binaryStep hr least) he

theorem conditional : S.Keeps (conditional g r) (·.span ∈ S) := by
  refine (binary hg hr _).bind fun _ he => eat.bind fun _ _ => .ite ?_ (.pure he)
  exact (withNoIn hr.assign).bind fun _ _ => expect.bind fun _ _ => hr.assign.bind fun _ he' => .pure (join_mem he he')

theorem assign : S.Keeps (assign g r) (·.span ∈ S) := by
  refine (conditional hg hr).bind fun _ he => .see fun _ => ?_
  split
  · exact .pure he
  · refine .ite (.failAt_bind he) ?_
    exact advance.bind fun _ _ => hr.assign.bind fun _ he' => .pure (join_mem he he')

theorem expr : S.Keeps (expr g r) (·.span ∈ S) := by
  refine (assign hg hr).bind fun e he => eat.bind fun _ _ => .ite ?_ (.pure he)
  refine (commaList hr.assign).bind fun es hes => .pure (join_mem he ?_)
  cases hlast : es.getLast? with
  | none => exact he
  | some e' => exact hes e' (List.mem_of_getLast? hlast)

/-! ### Statements -/

omit hg in
theorem declaration : S.Keeps (declaration r) (·.span ∈ S) := by
  refine advance.bind fun _ ht => (commaList (A := fun _ => True) ?_).bind fun _ _ => prevSpan.bind fun _ hs =>
    .pure (join_mem ht hs)
  refine hr.binding.bind fun _ hp => (rejectReceiver hp).bind fun _ _ => eat.bind fun _ _ => ?_
  exact .ite (hr.assign.bind fun _ _ => .pure trivial) (.pure trivial)

omit hg in
theorem parenExpr : S.Keeps (parenExpr r) (·.span ∈ S) :=
  expect.bind fun _ _ => hr.expr.bind fun _ he => expect.bind fun _ _ => .pure he

omit hg in
theorem ifStmt : S.Keeps (ifStmt r) (·.span ∈ S) := by
  refine expect.bind fun _ ht => (parenExpr hr).bind fun _ _ => hr.statement.bind fun _ hs => eat.bind fun _ _ => ?_
  exact .ite (hr.statement.bind fun _ hs' => .pure (join_mem ht hs')) (.pure (join_mem ht hs))

omit hg in
theorem forEachRest {start : Span} (hstart : start ∈ S) (target : ForTarget) :
    S.Keeps (forEachRest r start target) (·.span ∈ S) := by
  refine .see fun _ => advance.bind fun _ _ => .either hr.assign hr.expr fun _ _ => expect.bind fun _ _ => ?_
  exact hr.statement.bind fun _ hs => .pure (join_mem hstart hs)

omit hg in
theorem forLoopRest {start : Span} (hstart : start ∈ S) (init : ForInit) :
    S.Keeps (forLoopRest r start init) (·.span ∈ S) := by
  refine expect.bind fun _ _ => .see fun _ => .optionalUnless hr.expr fun _ => expect.bind fun _ _ => ?_
  refine .see fun _ => .optionalUnless hr.expr fun _ => expect.bind fun _ _ => ?_
  exact hr.statement.bind fun _ hs => .pure (join_mem hstart hs)

omit hg in
theorem forStmt : S.Keeps (forStmt r) (·.span ∈ S) := by
  refine expect.bind fun _ ht => expect.bind fun _ _ => .see fun _ => .ite (forLoopRest hr ht _) ?_
  refine .see fun _ => .ite ((withNoIn (declaration hr)).bind fun d _ => .see fun _ => .ite ?_ ?_) ?_
  · split
    · exact forEachRest hr ht _
    · exact forLoopRest hr ht _
  · exact forLoopRest hr ht _
  · refine (withNoIn hr.expr).bind fun e he => .see fun _ => .ite ?_ (forLoopRest hr ht _)
    exact .ite (.failAt_bind he) (forEachRest hr ht _)

omit hg in
theorem whileStmt : S.Keeps (whileStmt r) (·.span ∈ S) :=
  expect.bind fun _ ht => (parenExpr hr).bind fun _ _ => hr.statement.bind fun _ hs => .pure (join_mem ht hs)

omit hg in
theorem doWhileStmt : S.Keeps (doWhileStmt r) (·.span ∈ S) :=
  expect.bind fun _ ht => hr.statement.bind fun _ _ => expect.bind fun _ _ => (parenExpr hr).bind fun _ _ =>
    eat.bind fun _ _ => prevSpan.bind fun _ hs => .pure (join_mem ht hs)

omit hg in
theorem caseTest (seenDefault : Bool) : S.Keeps (caseTest r seenDefault) fun _ => True := by
  refine eat.bind fun _ _ => .ite (hr.expr.bind fun _ _ => .pure trivial) (.see fun _ => .ite ?_ .failHere)
  exact advance.bind fun _ ht => .ite (.failAt_bind ht) (.pure trivial)

omit hg in
theorem casesFrom (size : Nat) (seenDefault : Bool) : S.Keeps (casesFrom r size seenDefault) fun _ => True := by
  induction size generalizing seenDefault with
  | zero => exact .failHere
  | succ size ih =>
    refine .see fun _ => .ite (.pure trivial) (.see fun _ => (caseTest hr _).bind fun _ _ => expect.bind fun _ _ => ?_)
    exact (many hr.statement).bind fun _ _ => .see fun _ => (ih _).bind fun _ _ => .pure trivial

omit hg in
theorem switchStmt : S.Keeps (switchStmt r) (·.span ∈ S) :=
  expect.bind fun _ ht => (parenExpr hr).bind fun _ _ => expect.bind fun _ _ =>
    (sized fun size => casesFrom hr size false).bind fun _ _ => expect.bind fun _ ht' => .pure (join_mem ht ht')

omit hg in
theorem handler : S.Keeps (handler r) fun _ => True := by
  have hbody : ∀ param (t : Token), S.Keeps (do
      let body ← Grammar.block r
      return Handler.mk (t.span.join body.span) param body) fun _ => True :=
    fun _ _ => (block hr).bind fun _ _ => .pure trivial
  refine expect.bind fun _ _ => eat.bind fun _ _ => .ite ?_ (hbody _ _)
  exact hr.binding.bind fun _ hp => (rejectReceiver hp).bind fun _ _ => expect.bind fun _ _ => hbody _ _

omit hg in
theorem tryStmt : S.Keeps (tryStmt r) (·.span ∈ S) := by
  refine expect.bind fun _ ht => (block hr).bind fun _ _ => .see fun _ => .optional (handler hr) fun _ => ?_
  refine eat.bind fun _ _ => .optional (block hr) fun _ => ?_
  exact .ite .failHere_bind (prevSpan.bind fun _ hs => .pure (join_mem ht hs))

omit hg in
theorem throwStmt : S.Keeps (throwStmt r) (·.span ∈ S) := by
  refine expect.bind fun t ht => .see fun _ => .ite .failHere_bind ?_
  exact hr.expr.bind fun _ _ => consumeSemicolon.bind fun _ _ => prevSpan.bind fun _ hs => .pure (join_mem ht hs)

omit hg in
theorem returnStmt : S.Keeps (returnStmt r) (·.span ∈ S) :=
  expect.bind fun _ ht => .see fun _ => .optionalUnless hr.expr fun _ => consumeSemicolon.bind fun _ _ =>
    prevSpan.bind fun _ hs => freshSite.bind fun _ _ => .pure (join_mem ht hs)

theorem functionStmt : S.Keeps (functionStmt g r) (·.span ∈ S) :=
  expect.bind fun _ ht => expectIdent.bind fun _ _ => (function hg hr _ _ ht).bind fun _ hfn => .pure hfn

omit hg in
theorem varStmt : S.Keeps (varStmt r) (·.span ∈ S) :=
  (declaration hr).bind fun _ hd => consumeSemicolon.bind fun _ _ => prevSpan.bind fun _ hs => .pure (join_mem hd hs)

omit hg hr in
theorem jumpStmt {make : Span → Stmt} (hmake : ∀ s, (make s).span = s) : S.Keeps (jumpStmt make) (·.span ∈ S) :=
  advance.bind fun _ ht => consumeSemicolon.bind fun _ _ => prevSpan.bind fun _ hs =>
    .pure (by rw [hmake]; exact join_mem ht hs)

theorem exprStmt : S.Keeps (exprStmt g r) (·.span ∈ S) :=
  (expr hg hr).bind fun _ he => consumeSemicolon.bind fun _ _ => prevSpan.bind fun _ hs => .pure (join_mem he hs)

theorem baseStatement : S.Keeps (baseStatement g r) (·.span ∈ S) := by
  refine .see fun _ => ?_
  split
  · exact .failHere
  · exact (block hr).bind fun _ hb => .pure hb
  · exact advance.bind fun _ ht => .pure ht
  · split
    · exact varStmt hr
    · exact varStmt hr
    · exact varStmt hr
    · exact functionStmt hg hr
    · exact returnStmt hr
    · exact ifStmt hr
    · exact forStmt hr
    · exact whileStmt hr
    · exact doWhileStmt hr
    · exact switchStmt hr
    · exact tryStmt hr
    · exact throwStmt hr
    · exact jumpStmt fun _ => rfl
    · exact jumpStmt fun _ => rfl
    · exact exprStmt hg hr
  · exact exprStmt hg hr

theorem statement : S.Keeps (statement g r) (·.span ∈ S) :=
  foldr_layers (Q := fun inner => S.Keeps inner (Stmt.span · ∈ S))
    (fun layer hl _ h => (hg layer hl).statement hr h) (baseStatement hg hr)

end

/-! ### The productions tied together -/

theorem rules {g : Grammar} (hg : ∀ layer ∈ g, S.KeepsLayer layer) (depth : Nat) : S.KeepsRules (g.rules depth) := by
  induction depth with
  | zero =>
    exact ⟨.failHere, .failHere, .failHere, .failHere, fun _ => .failHere, .failHere, .failHere, .failHere,
      fun _ _ _ => .failHere⟩
  | succ depth ih =>
    exact ⟨statement hg ih, expr hg ih, assign hg ih, conditional hg ih, binary hg ih, unary hg ih, new hg ih,
      binding hg ih, function hg ih⟩

/-- What is wrong with the order of tokens is reported at a span that is made of theirs. -/
theorem span_mem_of_parse {α : Type} {g : Grammar} {p : Rules → Parse α} {A : α → Prop} {tokens : List Token}
    {e : SourceError} (hg : ∀ layer ∈ g, S.KeepsLayer layer) (hp : ∀ {r}, S.KeepsRules r → S.Keeps (p r) A)
    (hzero : .zero ∈ S) (htokens : ∀ t ∈ tokens, t.span ∈ S) (h : g.parse p tokens = .error e) : e.span ∈ S := by
  unfold Grammar.parse at h
  split at h
  · cases h
  · next e' c' hrun =>
    cases h
    exact (hp (rules hg _)).error ⟨htokens, hzero⟩ hrun

theorem program (hr : S.KeepsRules r) : S.Keeps (program r) fun _ => True :=
  (many hr.statement).imp fun _ _ => trivial

theorem wholeExpr (hr : S.KeepsRules r) : S.Keeps (wholeExpr r) fun _ => True :=
  hr.expr.bind fun _ _ => .see fun _ => .ite (.pure trivial) .failHere

end SpanSet

end LabelWeaver
