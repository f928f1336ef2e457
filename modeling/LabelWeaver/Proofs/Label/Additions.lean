import LabelWeaver.Proofs.Instrument.Covered
import LabelWeaver.Proofs.Grammar.Sites
import LabelWeaver.Proofs.Label.Productions
import LabelWeaver.Proofs.Token.ReadAs

/-! Compiling with checks only adds checks. A source is read twice, once with checks and once without,
    and the two trees are the same but for what talks to the run-time library. -/

namespace LabelWeaver

open Instrument Label

/-- A statement that declares labels, gives a rule or asserts something. -/
inductive RuntimeStmt (names : RuntimeNames) : Stmt → Prop where
  | declare (anchor : Span) (labels : List Label) :
      RuntimeStmt names (Emitter.stmt ⟨names, anchor⟩ (Emitter.declare ⟨names, anchor⟩ labels))
  | declareBelow (anchor : Span) (labels parents : List Label) :
      RuntimeStmt names (Emitter.stmt ⟨names, anchor⟩ (Emitter.declareBelow ⟨names, anchor⟩ labels parents))
  | traitRule (anchor : Span) (target : Expr) (name : String) (fn : Function) :
      RuntimeStmt names (Emitter.stmt ⟨names, anchor⟩ (Emitter.traitRule ⟨names, anchor⟩ target name fn))
  | assertCondition (anchor : Span) (condition : Expr) :
      RuntimeStmt names
        (Emitter.stmt ⟨names, anchor⟩ (Emitter.assertCondition ⟨names, anchor⟩ condition "assertion"))
  | assertContract (anchor : Span) (value : Expr) (c : Contract) :
      RuntimeStmt names (.block (Emitter.block ⟨names, anchor⟩ (Emitter.expectation ⟨names, anchor⟩ value c)))

/-- The first node is the second one with checks added. -/
inductive Adds (names : RuntimeNames) : Node → Node → Prop where
  /-- Nodes of the same form, up to spans, numbers and annotations. -/
  | same {n m : Node} (hskeleton : n.skeleton = m.skeleton) (hparts : List.Forall₂ (Adds names) n.parts m.parts) :
      Adds names n m
  | item {e e' : Expr} (h : Adds names (.expr e) (.expr e')) : Adds names (.item e) (.item e')
  | assume {e e' : Expr} (anchor : Span) (label : Label) (h : Adds names (.expr e) (.expr e')) :
      Adds names (.expr (Emitter.assume ⟨names, anchor⟩ e label)) (.expr e')
  | drop {e e' : Expr} (anchor : Span) (label : Label) (h : Adds names (.expr e) (.expr e')) :
      Adds names (.expr (Emitter.drop ⟨names, anchor⟩ e label)) (.expr e')
  | symbol {e e' : Expr} (anchor : Span) (name : String) (h : Adds names (.expr e) (.expr e')) :
      Adds names (.expr (Emitter.symbol ⟨names, anchor⟩ name e)) (.expr e')
  | stmt {s : Stmt} (span : Span) (h : RuntimeStmt names s) : Adds names (.stmt s) (.stmt (.empty span))
  /-- A function with checks. Before they were put in, its body was `plain`; an expression becomes a
      block that returns it. -/
  | function {fn fn' : Function} {plain : FunctionBody} {site : Nat} {span : Span} {stmts : List Stmt}
      (hflag : fn.instrumented = true)
      (hskeleton : (Node.function { fn with instrumented := false }).skeleton = (Node.function fn').skeleton)
      (hparams : List.Forall₂ (Adds names) (fn.params.map .pattern) (fn'.params.map .pattern))
      (hplain : Adds names (.body plain) (.body fn'.body))
      (hblock : plain.toBlock site = .block ⟨span, stmts⟩)
      (hbody : fn.body = .block ⟨span, checkedStmts (.startingAt names span) fn span stmts⟩) :
      Adds names (.function fn) (.function fn')

/-- What is followed while a program is read with and without checks. -/
structure AddsIn (names : RuntimeNames) (lo hi : Nat) (n m : Node) : Prop where
  adds : Adds names n m
  sites : n.SitesIn lo hi

/-- The function that copies labels is called nowhere. -/
def NoCopy (tokens : List Token) : Prop :=
  tokens.IsChain fun word paren => ¬ (word.kind = .ident "cpAnn" ∧ paren.kind = .punct .lparen)

instance : DecidablePred NoCopy := fun tokens =>
  inferInstanceAs (Decidable (tokens.IsChain fun word paren =>
    ¬ (word.kind = .ident "cpAnn" ∧ paren.kind = .punct .lparen)))

section
variable {names names' : RuntimeNames} {lo mid hi : Nat}

theorem adds_of_chain {ns ms : List Node} (h : Chain (AddsIn names) lo hi ns ms) :
    List.Forall₂ (Adds names) ns ms := by
  induction h with
  | nil => exact .nil
  | cons ha _ ih => exact .cons ha.adds ih

theorem Adds.isTarget {e e' : Expr} (h : Adds names (.expr e) (.expr e')) (he : e.isTarget = true) :
    e'.isTarget = true := by
  cases h with
  | same hskeleton => rwa [← Expr.isTarget_of_skeleton hskeleton]
  | assume => cases he
  | drop => cases he
  | symbol => cases he

end

/-- Nodes with checks added. -/
def adding (names : RuntimeNames) : Likeness where
  admits := NoCopy
  rel := AddsIn names
  admits_tail h := h.of_cons
  le h := h.sites.le
  mono h hlo hhi := ⟨h.adds, h.sites.mono hlo hhi⟩
  node hn hskeleton hparts _ := ⟨.same hskeleton (adds_of_chain hparts), .node AddsIn.sites hn hparts⟩
  demand {n m} hn hskeleton hparts := by
    have hsites : n.ownedSites = [] := by
      cases n <;> first | rfl | cases hn
    refine ⟨0, 0, .same hskeleton (hparts.imp fun _ _ h => ?_), .of_nil hsites (Nat.le_refl _)⟩
    obtain ⟨_, _, h⟩ := h
    exact h.adds
  site n _ := ⟨.same rfl .nil, .site n⟩
  item h := ⟨.item h.adds, .of_nil rfl h.sites.le⟩
  target h := h.adds.isTarget

/-! ### What is made of what was read -/

section
variable {names names' : RuntimeNames} {lo mid hi : Nat}

/-- Without checks a statement of the run-time library is left out. -/
theorem RuntimeStmt.addsIn {s : Stmt} (h : RuntimeStmt names s) (hle : lo ≤ hi) (span : Span) :
    AddsIn names lo hi (.stmt s) (.stmt (.empty span)) := by
  refine ⟨.stmt span h, .of_nil ?_ hle⟩
  cases h with
  | assertContract anchor value c => simp [Node.ownedSites, Stmt.sites, Stmt.returns, Emitter.block]
  | _ => rfl

theorem adds_declared (hle : lo ≤ hi) (span span' : Span) (ls ls' : List Label) (ps ps' : Option (List Label)) :
    AddsIn names lo hi (.stmt (declared ⟨true, names⟩ span ls ps)) (.stmt (declared ⟨false, names'⟩ span' ls' ps')) := by
  change AddsIn names lo hi _ (.stmt (.empty span'))
  unfold declared
  split
  · exact ⟨.same rfl .nil, .of_nil rfl hle⟩
  · cases ps with
    | none => exact (RuntimeStmt.declare _ _).addsIn hle span'
    | some ps => exact (RuntimeStmt.declareBelow _ _ _).addsIn hle span'

theorem adds_asserted {e e' : Expr} {c c' : Option Contract} (he : AddsIn names lo mid (.expr e) (.expr e'))
    (hc : Optional ((adding names).on .contract) mid hi c c') (span span' : Span) :
    AddsIn names lo hi (.stmt (asserted ⟨true, names⟩ span e c)) (.stmt (asserted ⟨false, names'⟩ span' e' c')) := by
  cases hc with
  | none => exact (RuntimeStmt.assertCondition _ _).addsIn he.sites.le span'
  | some hc => exact (RuntimeStmt.assertContract _ _ _).addsIn (Nat.le_trans he.sites.le hc.sites.le) span'

theorem adds_relabelled {e e' : Expr} {ls ls' : List Label} (he : AddsIn names lo mid (.expr e) (.expr e'))
    (hls : Chain ((adding names).on .label) mid hi ls ls') (span span' : Span) (dropping : Bool) :
    AddsIn names lo hi (.expr (relabelled ⟨true, names⟩ span dropping ls e))
      (.expr (relabelled ⟨false, names'⟩ span' dropping ls' e')) := by
  change AddsIn names lo hi _ (.expr e')
  unfold relabelled
  simp only [Bool.not_true, Bool.false_eq_true, if_false]
  induction hls generalizing e with
  | nil => exact he
  | cons hl _ ih =>
    refine ih ⟨?_, .of_nil rfl (Nat.le_trans he.sites.le hl.sites.le)⟩
    cases dropping with
    | true => exact .drop _ _ he.adds
    | false => exact .assume _ _ he.adds

/-- Putting checks into a function adds checks. -/
theorem adds_instrument (names : RuntimeNames) (fn : Function) {fn' : Function} {site : Nat} {span : Span}
    {stmts : List Stmt} (hflag : fn.instrumented = false) (hsites : fn.checkedSites = []) (hnodup : (listSites stmts).Nodup)
    (hblock : fn.body.toBlock site = .block ⟨span, stmts⟩)
    (hskeleton : (Node.function fn).skeleton = (Node.function fn').skeleton)
    (hparams : List.Forall₂ (Adds names) (fn.params.map .pattern) (fn'.params.map .pattern))
    (hbody : Adds names (.body fn.body) (.body fn'.body)) :
    Adds names (.function ({ fn with body := fn.body.toBlock site }.instrument names).1) (.function fn') := by
  obtain ⟨sites, hrun⟩ := Function.instrument_fresh names { fn with body := fn.body.toBlock site } hblock hflag
    hsites hnodup
  rw [hrun]
  refine .function rfl ?_ hparams hbody hblock rfl
  rw [← hskeleton]
  simp only [Node.skeleton, hflag]

theorem adds_finished {fn fn' : Function} {b b' : FunctionBody} (hfn : (adding names).HeadLike lo mid fn fn')
    (hb : (adding names).BodyLike mid hi b b') (site' : Nat) :
    (adding names).FunctionLike lo (if takesSite ⟨true, names⟩ { fn with body := b } then hi + 1 else hi)
      (finished ⟨true, names⟩ hi { fn with body := b }) (finished ⟨false, names'⟩ site' { fn' with body := b' }) := by
  intro s s'
  have hle := hfn.le_takesSite hb ⟨true, names⟩
  have hskeleton := hfn.skeleton s s' b b'
  refine ⟨?_, .of_nil rfl hle⟩
  change Adds names _ (.function { fn' with span := s', body := b' })
  unfold finished
  cases hneeds : Function.needsChecks { fn with body := b } with
  | false => exact .same hskeleton (adds_of_chain (hfn.parts hb))
  | true =>
    obtain ⟨mid', -, hparams⟩ := hfn.params
    obtain ⟨span, stmts, hblock, hnodup⟩ := hb.toBlock AddsIn.sites hi
    have hpatterns : Chain (AddsIn names) lo mid' (fn.params.map .pattern) (fn'.params.map .pattern) :=
      hparams.map Likeness.PatternLike.rel
    have hadds := adds_instrument names { fn with span := s, body := b } hfn.instrumented.1 hfn.sites.1 hnodup
      hblock hskeleton (adds_of_chain hpatterns) hb.rel.adds
    rw [Function.instrument_span names { fn with body := b.toBlock hi }] at hadds
    exact hadds

/-- What the annotation language makes with checks is what it makes without, and checks. -/
theorem adding_builds (names names' : RuntimeNames) :
    (adding names).BuildsLike ⟨true, names⟩ ⟨false, names'⟩ where
  declared hle := adds_declared hle _ _ _ _ _ _
  ruled _ he hfn := (RuntimeStmt.traitRule _ _ _ _).addsIn (Nat.le_trans he.sites.le hfn.sites.le) _
  asserted he hc := adds_asserted he hc _ _
  symbolized _ he := ⟨.symbol _ _ he.adds, .of_nil rfl he.sites.le⟩
  relabelled he hls := adds_relabelled he hls _ _ _
  finished hfn hb site' := adds_finished hfn hb site'
  copied _ _ _ _ hadmits hword hparen _ := ((List.isChain_cons_cons.mp hadmits).1 ⟨hword, hparen⟩).elim

end

/-- A source that is read with checks, and in which the function that copies labels is called nowhere, is
    read without checks too; the tree with checks is the other one with checks added. -/
theorem adds_of_parseProgram {names : RuntimeNames} {source : String} {lexed : Lexed} {program : Program}
    (hread : (Grammar.labels ⟨true, names⟩).read source = .ok lexed) (hcopy : NoCopy lexed.tokens)
    (h : (Grammar.labels ⟨true, names⟩).parseProgram source = .ok program) (names' : RuntimeNames) :
    ∃ program', (Grammar.labels ⟨false, names'⟩).parseProgram source = .ok program' ∧
      program'.comments = program.comments ∧
      List.Forall₂ (Adds names) (program.body.map .stmt) (program'.body.map .stmt) := by
  obtain ⟨lexed', stmts, hread', hstmts, rfl⟩ := Grammar.parseProgram_eq_ok.mp h
  cases hread.symm.trans hread'
  have hplain : (Grammar.labels ⟨false, names'⟩).read source = .ok lexed := by
    rw [Grammar.read_labels] at hread ⊢
    exact hread
  obtain ⟨stmts', _, hstmts', hchain⟩ :=
    Likeness.program (Likeness.labels_hooks (adding_builds names names')) hcopy hstmts
  refine ⟨⟨stmts', lexed.comments⟩, Grammar.parseProgram_eq_ok.mpr ⟨lexed, stmts', hplain, hstmts', rfl⟩, rfl, ?_⟩
  exact adds_of_chain (Likeness.nodes hchain)

/-- A declaration of labels, an arrow with checks around an operator, and an assertion. -/
theorem adds_of_parseProgram_arrow :
    ∃ lexed program program',
      (Grammar.labels ⟨true, {}⟩).read "SecAnn <!S!>; f = (a :<!S!>) => a as <!T!>; assert f;" = .ok lexed ∧
      NoCopy lexed.tokens ∧
      (Grammar.labels ⟨true, {}⟩).parseProgram "SecAnn <!S!>; f = (a :<!S!>) => a as <!T!>; assert f;" = .ok program ∧
      (Grammar.labels ⟨false, {}⟩).parseProgram "SecAnn <!S!>; f = (a :<!S!>) => a as <!T!>; assert f;" =
        .ok program' ∧
      List.Forall₂ (Adds {}) (program.body.map .stmt) (program'.body.map .stmt) := by
  have htokens : (((Grammar.labels ⟨true, {}⟩).read
        "SecAnn <!S!>; f = (a :<!S!>) => a as <!T!>; assert f;").toOption.any fun lexed =>
      decide (NoCopy lexed.tokens)) = true := by
    decide +kernel
  have hparse : ((Grammar.labels ⟨true, {}⟩).parseProgram
      "SecAnn <!S!>; f = (a :<!S!>) => a as <!T!>; assert f;").isOk = true := by
    decide +kernel
  cases hread : (Grammar.labels ⟨true, {}⟩).read "SecAnn <!S!>; f = (a :<!S!>) => a as <!T!>; assert f;" with
  | error e => rw [hread] at htokens; cases htokens
  | ok lexed =>
    cases hprogram : (Grammar.labels ⟨true, {}⟩).parseProgram
        "SecAnn <!S!>; f = (a :<!S!>) => a as <!T!>; assert f;" with
    | error e => rw [hprogram] at hparse; cases hparse
    | ok program =>
      rw [hread] at htokens
      have hcopy : NoCopy lexed.tokens := of_decide_eq_true htokens
      obtain ⟨program', h, -, hadds⟩ := adds_of_parseProgram hread hcopy hprogram {}
      exact ⟨lexed, program, program', rfl, hcopy, rfl, h, hadds⟩

end LabelWeaver
