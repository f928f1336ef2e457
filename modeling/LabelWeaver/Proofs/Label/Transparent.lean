import LabelWeaver.Proofs.Label.ReadAnnotations
import LabelWeaver.Proofs.Grammar.Statements
import LabelWeaver.Compile

/-! Without checks, annotations leave no trace. A function with annotations of all kinds is compiled to
    the text of the same function without them. -/

namespace LabelWeaver.Annotated

open Parse Grammar

variable {names : RuntimeNames} {r : Rules} {t k : Token.Kind} {ks : List Token.Kind}

/-- The language with annotations where checks are not wanted. -/
abbrev disabled (names : RuntimeNames) : Grammar := .labels ⟨false, names⟩

/-! ### Expressions of one token -/

/-- A token that is an expression by itself. -/
inductive IsOperand : Token.Kind → Prop
  | ident (x : String) : IsOperand (.ident x)
  | string (v : String) : IsOperand (.string v)
  | number (m : String) : IsOperand (.number m)

/-- The expression is the name that the token is, if it is one. -/
def Names (t : Token.Kind) (e : Expr) : Prop := ∀ x, t = .ident x → ∃ s, e = .ident s x

/-- What follows an expression here. -/
inductive EndsValue : Token.Kind → Prop
  | semi : EndsValue (.punct .semi)
  | comma : EndsValue (.punct .comma)
  | labelOpen : EndsValue (.marker .labelOpen)

/-- What follows an operand here. -/
inductive EndsOperand : Token.Kind → Prop
  | value {k : Token.Kind} (h : EndsValue k) : EndsOperand k
  | drop : EndsOperand (.contextual .kwDrop)
  | as : EndsOperand (.contextual .kwAs)

theorem reads_baseAtom {g : Grammar} (ht : IsOperand t) (hk : EndsOperand k) :
    Reads (baseAtom g r) (t :: k :: ks) (k :: ks) (Names t) := by
  refine .firstTwo fun s s' ts prev noIn n hts => ?_
  have hrest : OnLine (⟨k, s', false⟩ :: ts) (k :: ks) := hts.cons s'
  cases ht with
  | ident x =>
    refine ⟨.ident s x, ⟨⟨k, s', false⟩ :: ts, s, noIn, n⟩, ?_, hrest, rfl, ?_⟩
    · cases hk with
      | value hk => cases hk <;> rfl
      | drop => rfl
      | as => rfl
    · rintro _ ⟨⟩
      exact ⟨s, rfl⟩
  | string v => exact ⟨.string s v, ⟨⟨k, s', false⟩ :: ts, s, noIn, n⟩, rfl, hrest, rfl, nofun⟩
  | number m => exact ⟨.number s m, ⟨⟨k, s', false⟩ :: ts, s, noIn, n⟩, rfl, hrest, rfl, nofun⟩

/-- No operand here is a call of the function that copies labels. -/
theorem reads_atom {settings : Settings} (ht : IsOperand t) (hk : EndsOperand k) :
    Reads (Grammar.atom (.labels settings) r) (t :: k :: ks) (k :: ks) (Names t) := by
  have hbase : Reads (baseAtom (.labels settings) r) (t :: k :: ks) (k :: ks) (Names t) := reads_baseAtom ht hk
  refine .kind? (.lookTwo (some k) (fun _ _ _ _ _ _ => rfl) ?_)
  split
  · rename_i hword _
    cases ht <;> cases hword
  · rename_i _ hparen
    cases hk with
    | value hk => cases hk <;> cases hparen
    | drop => cases hparen
    | as => cases hparen
  · exact hbase

theorem EndsOperand.reads_memberTail {allowCall : Bool} {e : Expr} (hk : EndsOperand k) :
    Reads (memberTail r allowCall e) (k :: ks) (k :: ks) (· = e) := by
  cases hk with
  | value hk => cases hk <;> exact Annotated.reads_memberTail rfl
  | drop => exact Annotated.reads_memberTail rfl
  | as => exact Annotated.reads_memberTail rfl

theorem reads_leftHandSide {settings : Settings} (ht : IsOperand t) (hk : EndsOperand k) :
    Reads (leftHandSide (.labels settings) r) (t :: k :: ks) (k :: ks) (Names t) := by
  have hatom : Reads (Grammar.atom (.labels settings) r >>= memberTail r true) (t :: k :: ks) (k :: ks) (Names t) := by
    refine (reads_atom ht hk).bind fun e he => (hk.reads_memberTail).imp ?_
    rintro _ rfl
    exact he
  cases ht <;> exact .isAt hatom

theorem reads_trailing (ops : List Operator) (e : Expr) (hk : EndsValue k) :
    Reads (trailing (disabled names) r e) (ops.flatMap Operator.kinds ++ k :: ks) (k :: ks) (· = e) := by
  have hops : ∀ ops : List Operator, Reads (Label.labelOps ⟨false, names⟩ r e)
      (ops.flatMap Operator.kinds ++ k :: ks) (k :: ks) (· = e) := by
    intro ops
    cases hk <;> exact reads_labelOps ops e rfl rfl
  have hbase : Reads (baseTrailing e) (k :: ks) (k :: ks) (· = e) := by
    cases hk <;> exact .kind? (.pure rfl)
  refine (hops ops).bind ?_
  intro e' he
  rw [he]
  refine Reads.bind hbase ?_
  intro e' he
  rw [he]
  exact hops []

theorem exists_operators (ops : List Operator) (hk : EndsValue k) (ks : List Token.Kind) :
    ∃ k' ks', ops.flatMap Operator.kinds ++ k :: ks = k' :: ks' ∧ EndsOperand k' := by
  cases ops with
  | nil => exact ⟨k, ks, rfl, .value hk⟩
  | cons op ops =>
    refine ⟨.contextual (if op.dropping then .kwDrop else .kwAs), _, rfl, ?_⟩
    cases op.dropping with
    | true => exact .drop
    | false => exact .as

theorem reads_unary (ht : IsOperand t) (ops : List Operator) (hk : EndsValue k) :
    Reads (unary (disabled names) r) (t :: (ops.flatMap Operator.kinds ++ k :: ks)) (k :: ks) (Names t) := by
  have hleft : Reads (leftHandSide (disabled names) r) (t :: (ops.flatMap Operator.kinds ++ k :: ks))
      (ops.flatMap Operator.kinds ++ k :: ks) (Names t) := by
    obtain ⟨k', ks', hrest, hk'⟩ := exists_operators ops hk ks
    rw [hrest]
    exact reads_leftHandSide ht hk'
  have hvalue : Reads (leftHandSide (disabled names) r >>= trailing (disabled names) r)
      (t :: (ops.flatMap Operator.kinds ++ k :: ks)) (k :: ks) (Names t) := by
    refine hleft.bind fun e he => (reads_trailing ops e hk).imp ?_
    rintro _ rfl
    exact he
  cases ht <;> exact .kind? hvalue

theorem reads_conditional (ht : IsOperand t) (ops : List Operator) (hk : EndsValue k) :
    Reads (conditional (disabled names) r) (t :: (ops.flatMap Operator.kinds ++ k :: ks)) (k :: ks) (Names t) := by
  have hbinary : Reads (binary (disabled names) r .sequence) (t :: (ops.flatMap Operator.kinds ++ k :: ks)) (k :: ks)
      (Names t) := by
    refine (reads_unary ht ops hk).bind fun e he => ?_
    have hstop : Reads (binaryStep r .sequence e) (k :: ks) (k :: ks) (· = none) := by
      cases hk <;> exact .lookFirst none (fun _ _ _ _ _ => rfl) (.pure rfl)
    refine hstop.stop.imp ?_
    rintro _ rfl
    exact he
  refine hbinary.bind fun e he => ?_
  cases hk <;> exact .pass rfl (.pure he)

theorem reads_assign (ht : IsOperand t) (ops : List Operator) (hk : EndsValue k) :
    Reads (assign (disabled names) r) (t :: (ops.flatMap Operator.kinds ++ k :: ks)) (k :: ks) (Names t) := by
  refine (reads_conditional ht ops hk).bind fun e he => ?_
  cases hk <;> exact .kind? (.pure he)

theorem reads_expr (ht : IsOperand t) :
    Reads (expr (disabled names) r) (t :: .punct .semi :: ks) (.punct .semi :: ks) (Names t) :=
  (reads_assign ht [] .semi).bind fun _ he => .pass rfl (.pure he)

/-! ### Rules -/

theorem readsOperands (names : RuntimeNames) (depth : Nat) : ReadsOperands ((disabled names).rules (depth + 1)) where
  conditional x _ := (reads_conditional (.ident x) [] .labelOpen).imp fun _ _ => trivial
  string v _ := (reads_assign (.string v) [] .comma).imp fun _ _ => trivial
  number m _ := (reads_assign (.number m) [] .comma).imp fun _ _ => trivial

theorem readsBindings (names : RuntimeNames) (depth : Nat) : ReadsBindings ((disabled names).rules (depth + 2)) :=
  fun x ss _ _ hk => reads_binding (readsOperands names depth) x ss hk

/-- The rules read names, with label operators behind them or alone, as values. -/
structure ReadsValues (r : Rules) : Prop where
  assign : ∀ (x : String) (ops : List Operator) ks,
    Reads r.assign (.ident x :: (ops.flatMap Operator.kinds ++ .punct .semi :: ks)) (.punct .semi :: ks)
      fun e => ∃ s, e = .ident s x
  expr : ∀ x ks, Reads r.expr (.ident x :: .punct .semi :: ks) (.punct .semi :: ks) fun e => ∃ s, e = .ident s x

theorem readsValues (names : RuntimeNames) (depth : Nat) : ReadsValues ((disabled names).rules (depth + 1)) where
  assign x ops _ := (reads_assign (.ident x) ops .semi).imp fun _ he => he x rfl
  expr x _ := (reads_expr (.ident x)).imp fun _ he => he x rfl

/-! ### Statements -/

/-- The declaration of a variable that gets the value of another one. -/
def IsVar (x y : String) (s : Stmt) : Prop :=
  ∃ span span' b v, s = .var ⟨span, .var, [⟨span', .name b, some (.ident v y)⟩]⟩ ∧ b.name.text = x

/-- The return of the value of a variable. -/
def IsReturn (x : String) (s : Stmt) : Prop := ∃ span v site, s = .ret span (some (.ident v x)) site

theorem reads_declarator (hb : ReadsBindings r) (hv : ReadsValues r) (x y : String) (ops : List Operator) :
    Reads (declarator r) (.ident x :: .punct .eq :: .ident y :: (ops.flatMap Operator.kinds ++ .punct .semi :: ks))
      (.punct .semi :: ks)
      fun d => ∃ span b v, d = ⟨span, .name b, some (.ident v y)⟩ ∧ b.name.text = x := by
  refine (hb x [] _ _ .eq).bind ?_
  rintro _ ⟨b, rfl, hb⟩
  refine .eat rfl ((hv.assign y ops ks).bind ?_)
  rintro _ ⟨v, rfl⟩
  exact .pure ⟨_, b, v, rfl, hb⟩

theorem reads_varStmt (hb : ReadsBindings r) (hv : ReadsValues r) (x y : String) (ops : List Operator) :
    Reads (varStmt r)
      (.reserved .kwVar :: .ident x :: .punct .eq :: .ident y :: (ops.flatMap Operator.kinds ++ .punct .semi :: ks)) ks
      (IsVar x y) := by
  have hdeclaration : Reads (declaration r)
      (.reserved .kwVar :: .ident x :: .punct .eq :: .ident y :: (ops.flatMap Operator.kinds ++ .punct .semi :: ks))
      (.punct .semi :: ks)
      fun d => ∃ span span' b v, d = ⟨span, .var, [⟨span', .name b, some (.ident v y)⟩]⟩ ∧ b.name.text = x := by
    refine .advance (by simp) fun word hword => ?_
    rw [hword]
    refine (Reads.commaList (reads_declarator hb hv x y ops) rfl).bind ?_
    rintro _ ⟨_, rfl, span, b, v, rfl, hx⟩
    exact .prevSpan fun _ => .pure ⟨_, span, b, v, rfl, hx⟩
  refine hdeclaration.bind ?_
  rintro _ ⟨span, span', b, v, rfl, hx⟩
  exact .consumeSemicolon (.prevSpan fun _ => .pure ⟨_, span', b, v, rfl, hx⟩)

theorem reads_returnStmt (hv : ReadsValues r) (x : String) :
    Reads (returnStmt r) (.reserved .kwReturn :: .ident x :: .punct .semi :: ks) ks (IsReturn x) := by
  refine .expect (by simp) fun _ _ => ?_
  refine .lookFirst false (fun _ _ _ _ _ => rfl) ?_
  refine Reads.bind ((hv.expr x ks).map (B := fun o => ∃ s, o = some (.ident s x)) ?_) ?_
  · rintro _ ⟨s, rfl⟩
    exact ⟨s, rfl⟩
  rintro _ ⟨s, rfl⟩
  exact .consumeSemicolon (.prevSpan fun _ => .freshSite fun site => .pure ⟨_, s, site, rfl⟩)

/-- A statement that starts with a reserved word and a name is one of the base language. -/
theorem reads_statement {w : Reserved} {x : String} {ks' : List Token.Kind} {A : Stmt → Prop}
    (h : Reads (baseStatement (disabled names) r) (.reserved w :: .ident x :: ks) ks' A) :
    Reads (statement (disabled names) r) (.reserved w :: .ident x :: ks) ks' A :=
  .lookTwo false (fun _ _ _ _ _ _ => rfl) (.kind? h)

/-- The body that all functions here have. -/
def IsBody (b : Block) : Prop := ∃ span s s', b = ⟨span, [s, s']⟩ ∧ IsVar "t" (paramText 0) s ∧ IsReturn "t" s'

theorem reads_block (names : RuntimeNames) (depth : Nat) (ops : List Operator) :
    Reads (block ((disabled names).rules (depth + 3))) (bodyKinds ops ++ ks) ks IsBody := by
  have hb := readsBindings names depth
  have hv := readsValues names (depth + 1)
  have hvar : ∀ ks, Reads (statement (disabled names) _) _ ks (IsVar "t" (paramText 0)) := fun _ =>
    reads_statement (.kind? (reads_varStmt hb hv "t" (paramText 0) ops))
  have hreturn : ∀ ks, Reads (statement (disabled names) _) _ ks (IsReturn "t") := fun _ =>
    reads_statement (.kind? (reads_returnStmt hv "t"))
  rw [bodyKinds_append]
  refine .expect (by simp) fun _ _ => ?_
  refine Reads.bind (.sized (.manyFrom_cons rfl (.isAt (hvar _))
    (.manyFrom_cons rfl (.isAt (hreturn _)) (.manyFrom_nil rfl)))) ?_
  rintro _ ⟨s, _, rfl, hs, s', _, rfl, hs', rfl⟩
  exact .expect (by simp) fun _ _ => .pure ⟨_, s, s', rfl, hs, hs'⟩

/-! ### Functions -/

/-- A function as the base language has it, with `n` parameters. -/
structure IsFunction (n : Nat) (fn : Function) : Prop where
  name : ∃ s, fn.name = some ⟨s, "f"⟩
  isArrow : fn.isArrow = false
  params : IsParams 0 n fn.params
  body : ∃ b, fn.body = .block b ∧ IsBody b

theorem reads_body (names : RuntimeNames) (depth : Nat) (ops : List Operator) {fn : Function}
    (hfn : fn.isArrow = false) :
    Reads (body (disabled names) ((disabled names).rules (depth + 3)) fn) (bodyKinds ops ++ ks) ks
      fun fn' => ∃ b, fn' = { fn with body := .block b } ∧ IsBody b := by
  have hbase : Reads (baseBody ((disabled names).rules (depth + 3)) fn) (bodyKinds ops ++ ks) ks
      fun fn' => ∃ b, fn' = { fn with body := .block b } ∧ IsBody b := by
    refine .isAt ?_
    rw [hfn]
    exact (reads_block names depth ops).bind fun b hb => .pure ⟨b, rfl, hb⟩
  exact hbase.bind fun fn' hfn' => .pure hfn'

theorem reads_function (names : RuntimeNames) (depth : Nat) (f : Source) (start : Span) (name : Name)
    (hname : name.text = "f") :
    Reads (function (disabled names) ((disabled names).rules (depth + 3)) start (some name) false)
      (.punct .lparen :: (paramsKinds 0 f.params ++ .punct .rparen ::
        (returnsKinds f.returns ++ (bodyKinds f.ops ++ ks)))) ks (IsFunction f.params.length) := by
  have hparts : Reads (params (disabled names) ((disabled names).rules (depth + 3)) (.blank start (some name) false) >>=
      body (disabled names) ((disabled names).rules (depth + 3)))
      (.punct .lparen :: (paramsKinds 0 f.params ++ .punct .rparen ::
        (returnsKinds f.returns ++ (bodyKinds f.ops ++ ks)))) ks (IsFunction f.params.length) := by
    refine (reads_params (readsBindings names (depth + 1)) f.params f.returns start (some name)).bind ?_
    rintro fn ⟨hn, harrow, hparams⟩
    refine (reads_body names depth f.ops harrow).imp ?_
    rintro _ ⟨b, rfl, hb⟩
    exact ⟨⟨name.span, by rw [hn, ← hname]⟩, harrow, hparams, b, rfl, hb⟩
  refine (Reads.withNoIn hparts).bind ?_
  rintro fn ⟨hn, harrow, hparams, hb⟩
  exact .prevSpan fun _ => .pure ⟨hn, harrow, hparams, hb⟩

theorem reads_program (names : RuntimeNames) (depth : Nat) (f : Source) :
    Reads (program ((disabled names).rules (depth + 4))) f.kinds [.eof]
      fun stmts => ∃ fn, stmts = [.function fn] ∧ IsFunction f.params.length fn := by
  have hfunction : Reads (statement (disabled names) ((disabled names).rules (depth + 3))) f.kinds [.eof]
      fun s => ∃ fn, s = .function fn ∧ IsFunction f.params.length fn := by
    refine reads_statement (.kind? ?_)
    refine .expect (by simp) fun word _ => .expectIdent fun name hname => ?_
    exact (reads_function names depth f word.span name hname).bind fun fn hfn => .pure ⟨fn, rfl, hfn⟩
  refine (Reads.sized (.manyFrom_cons rfl hfunction (.manyFrom_nil rfl))).imp ?_
  rintro _ ⟨_, _, rfl, ⟨fn, rfl, hfn⟩, rfl⟩
  exact ⟨fn, rfl, hfn⟩

/-! ### Texts -/

/-- The text of the function with `n` parameters and no annotations, as it is printed. -/
def printed (n : Nat) : String :=
  "function f(" ++ paramsText 0 (List.replicate n []) ++ ") \x7b\n    var t = p0;\n    return t;\n\x7d\n"

/-- Without comments the pieces are written one after the other. -/
theorem weave_append (ps qs : List Piece) : Layout.weave [] (ps ++ qs) = Layout.weave [] ps ++ Layout.weave [] qs := by
  induction ps with
  | nil => rfl
  | cons p ps ih =>
    cases p with
    | token _ | space | newline | indent _ => exact congrArg (_ :: ·) ih
    | comments _ _ => exact ih
    | emptyBlock _ _ => exact congrArg (_ :: ·) ih

theorem render_append (ps qs : List Piece) :
    Layout.render [] (ps ++ qs) = Layout.render [] ps ++ Layout.render [] qs := by
  rw [Layout.render, weave_append, String.join_append]
  rfl

theorem IsParams.eq_nil {i : Nat} {ps : List Pattern} (h : IsParams i 0 ps) : ps = [] := by
  obtain ⟨bs, rfl, hbs⟩ := h
  rw [List.map_eq_nil_iff.mp hbs]
  rfl

theorem IsParams.exists_cons {i n : Nat} {ps : List Pattern} (h : IsParams i (n + 1) ps) :
    ∃ b ps', ps = .name b :: ps' ∧ b.name.text = paramText i ∧ IsParams (i + 1) n ps' := by
  obtain ⟨bs, rfl, hbs⟩ := h
  rw [List.range'_succ, List.map_cons] at hbs
  obtain ⟨b, bs, rfl, hb, hbs⟩ := List.map_eq_cons_iff.mp hbs
  exact ⟨b, _, rfl, hb, bs, rfl, hbs⟩

theorem params_name (depth : Nat) (b : Binding) (ps : List Pattern) :
    Layout.params depth (.name b :: ps) = Layout.name b.name.text :: Layout.params depth ps := by
  obtain ⟨span, name, demand⟩ := b
  simp [Layout.params, Layout.isThis, Pattern.layout]

theorem IsParams.render {i n : Nat} {ps : List Pattern} (h : IsParams i n ps) (depth : Nat) :
    Layout.render [] (Layout.commaSep (Layout.params depth ps)) = paramsText i (List.replicate n []) := by
  induction n generalizing i ps with
  | zero =>
    rw [h.eq_nil, Layout.params]
    rfl
  | succ n ih =>
    obtain ⟨b, ps, rfl, hb, hps⟩ := h.exists_cons
    have hname : Layout.render [] (Layout.name b.name.text) = paramText i ++ suffixesText [] := by
      rw [hb]
      simp [Layout.render, Layout.weave, Token.Kind.spelling, suffixesText, Layout.commentLines]
    cases n with
    | zero =>
      rw [params_name, hps.eq_nil, Layout.params, Layout.commaSep, hname]
      rfl
    | succ n =>
      have hrest := ih hps
      obtain ⟨b', ps, rfl, -, -⟩ := hps.exists_cons
      rw [params_name] at hrest
      rw [params_name, params_name, Layout.commaSep, render_append, render_append, hname, hrest]
      · rfl
      · simp

theorem IsVar.layout {x y : String} {s : Stmt} (h : IsVar x y s) (depth : Nat) :
    s.layout depth = Layout.keyword .kwVar ++ Layout.space ++ (Layout.name x ++ Layout.spaced (.punct .eq) ++
      Layout.name y) ++ Layout.sign .semi := by
  obtain ⟨span, span', ⟨_, ⟨_, _⟩, _⟩, v, rfl, rfl⟩ := h
  rfl

theorem IsReturn.layout {x : String} {s : Stmt} (h : IsReturn x s) (depth : Nat) :
    s.layout depth = Layout.keyword .kwReturn ++ Layout.space ++ Layout.name x ++ Layout.sign .semi := by
  obtain ⟨span, v, site, rfl⟩ := h
  rfl

theorem IsBody.render {b : Block} (h : IsBody b) :
    Layout.render [] (b.layout 0) = "\x7b\n    var t = p0;\n    return t;\n\x7d" := by
  obtain ⟨span, s, s', rfl, hs, hs'⟩ := h
  have hlayout : Block.layout 0 ⟨span, [s, s']⟩ = Layout.braces 0 (Layout.lead 1 s ++ s.layout 1 ++ Layout.newline ++
      (Layout.lead 1 s' ++ s'.layout 1 ++ Layout.newline ++ []) ++ [.comments span.stop 1]) := rfl
  rw [hlayout, hs.layout, hs'.layout]
  change String.join ["\x7b", "\n", Layout.indentation 1, "var", " ", "t", " ", "=", " ", paramText 0, ";", "\n",
    Layout.indentation 1, "return", " ", "t", ";", "\n", "", "\x7d"] = _
  rw [← String.toList_inj]
  simp [Layout.indentation, paramText]

theorem IsFunction.print {n : Nat} {fn : Function} (h : IsFunction n fn) :
    Program.print ⟨[.function fn], []⟩ = printed n := by
  obtain ⟨⟨s, hname⟩, harrow, hparams, b, hbody, hb⟩ := h
  obtain ⟨_, _, ps, _, _, _, _, _, _, _⟩ := fn
  dsimp only at hname harrow hparams hbody
  subst hname harrow hbody
  change Layout.render [] (Layout.lead 0 _ ++ (Layout.keyword .kwFunction ++ Layout.space ++ Layout.name "f" ++
    (Layout.sign .lparen ++ Layout.commaSep (Layout.params 0 ps) ++ Layout.sign .rparen) ++ Layout.space ++
    b.layout 0) ++ Layout.newline ++ []) = _
  simp only [render_append, hparams.render, hb.render]
  change "" ++ ("function" ++ " " ++ "f" ++ ("(" ++ _ ++ ")") ++ " " ++ _) ++ "\n" ++ "" = _
  rw [← String.toList_inj]
  simp [printed]

/-- From a text over its tokens and its tree to the text that is printed. `levels` levels of rules are
    enough for the source. -/
theorem compile_of_reads {settings : Settings} {source out : String} {ks : List Token.Kind} (levels : Nat)
    (hlevels : levels ≤ ks.length + 1) (hsource : ReadAs source.toList ks)
    (h : ∀ depth, Reads (program ((Grammar.labels settings).rules (depth + levels))) ks [.eof]
      fun stmts => Program.print ⟨stmts, []⟩ = out) (unit : String) :
    compile settings none ⟨unit, source⟩ = .ok out := by
  obtain ⟨ts, hread, hts⟩ := hsource source.length 0 none none (Nat.le_of_eq String.length_toList)
  obtain ⟨depth, hdepth⟩ : ∃ depth, ts.length + 1 = depth + levels := by
    have hlength := hts.length
    exact ⟨ts.length + 1 - levels, by omega⟩
  obtain ⟨stmts, c, hrun, -, -, hprint⟩ := h depth (.start ts) hts
  have hparse : (Grammar.labels settings).parse program ts = .ok stmts := by
    rw [← hdepth] at hrun
    unfold Grammar.parse Grammar.run
    rw [Cursor.start] at hrun ⊢
    rw [hrun]
  have htokens : (Grammar.labels settings).read source = .ok ⟨ts, []⟩ := by
    rw [Grammar.read_labels, Lexed.read, hread]
    rfl
  have hprogram : (Grammar.labels settings).parseProgram source = .ok ⟨stmts, []⟩ :=
    parseProgram_eq_ok.mpr ⟨_, _, htokens, hparse, rfl⟩
  have hunit : CompileUnit.compile settings ⟨unit, source⟩ = .ok out := by
    rw [CompileUnit.compile, hprogram]
    exact congrArg _ hprint
  rw [compile, hunit]
  exact congrArg Except.ok String.empty_append

theorem compile_text (names : RuntimeNames) (f : Source) (unit : String) :
    compile ⟨false, names⟩ none ⟨unit, f.text⟩ = .ok (printed f.params.length) := by
  have hlength : 4 ≤ f.kinds.length + 1 := by
    simp only [Source.kinds, List.length_cons]
    omega
  refine compile_of_reads 4 hlength f.readAs (fun depth => (reads_program names depth f).imp ?_) unit
  rintro _ ⟨fn, rfl, hfn⟩
  exact hfn.print

/-- A function with annotations and the same function without them are compiled to the same text. -/
theorem compile_disabled_transparent (names : RuntimeNames) (f : Source) (unit : String) :
    compile ⟨false, names⟩ none ⟨unit, f.text⟩ = .ok (printed f.params.length) ∧
      compile ⟨false, names⟩ none ⟨unit, f.plain.text⟩ = .ok (printed f.params.length) := by
  refine ⟨compile_text names f unit, ?_⟩
  have hlength : f.plain.params.length = f.params.length := List.length_map ..
  rw [← hlength]
  exact compile_text names f.plain unit

end LabelWeaver.Annotated
