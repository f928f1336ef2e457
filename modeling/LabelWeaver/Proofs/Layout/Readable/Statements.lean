import LabelWeaver.Proofs.Layout.Readable.Expressions

/-! Layouts of patterns, declarations and statements can be read; so can those of all trees that the
    reader of the base language makes. -/

namespace LabelWeaver

open Layout

section
variable {e : Expr} {span : Span} {s : Stmt} {lo mid hi : Nat}

/-! ### Patterns -/

theorem Pattern.isBinding_bare (p : Pattern) : p.bare.isBinding = p.isBinding := by cases p <;> rfl

theorem Pattern.isRest_bare (p : Pattern) : p.bare.isRest = p.isRest := by cases p <;> rfl

theorem Pattern.Recovered.noThis_bare {p : Pattern} (h : p.Recovered lo hi) : p.bare.findThis? = none := by
  have hbare := p.findThis?_bare
  rw [h.noThis] at hbare
  cases hfind : p.bare.findThis? with
  | none => rfl
  | some => rw [hfind] at hbare; cases hbare

theorem findThis?_elements {ps : List (Option Pattern)} (h : ∀ p, some p ∈ ps → p.findThis? = none) :
    elementsFindThis? ps = none := by
  induction ps with
  | nil => rfl
  | cons p ps ih =>
    have hps := ih fun p hp => h p (List.mem_cons_of_mem _ hp)
    cases p with
    | none => exact hps
    | some p => rw [elementsFindThis?, h p List.mem_cons_self, hps]; rfl

theorem findThis?_properties {ps : List PatternProp} (h : ∀ p ∈ ps, propertiesFindThis? [p] = none) :
    propertiesFindThis? ps = none := by
  induction ps with
  | nil => rfl
  | cons p ps ih =>
    obtain ⟨hp, hps⟩ := List.forall_mem_cons.mp h
    cases p with
    | keyValue key value =>
      rw [propertiesFindThis?, Option.or_eq_none_iff] at hp
      rw [propertiesFindThis?, hp.1, ih hps]; rfl
    | shorthand binding default => rw [propertiesFindThis?, ih hps]
    | rest target =>
      rw [propertiesFindThis?, Option.or_eq_none_iff] at hp
      rw [propertiesFindThis?, hp.1, ih hps]; rfl

theorem Pattern.recovered {p : Pattern} (hproper : p.Proper (.of Token.Kind.Legal))
    (h : Run Node.Recovered lo hi p.parts) : p.Recovered lo hi := by
  cases p with
  | name b =>
    obtain ⟨span, name, demand⟩ := b
    obtain ⟨rfl, hdemand⟩ := run_singleton_iff.mp h
    obtain rfl : demand = .none := hdemand
    refine ⟨fun depth => ?_, rfl⟩
    have hlayout : text ((Pattern.name ⟨span, name, .none⟩).layout depth) = [some (.ident name.text)] := by
      simp [Pattern.layout, Lexeme.word_of_name hproper]
    rw [hlayout]
    exact .name name.text
  | this => exact hproper.elim
  | array span elements =>
    have hrun : Run (Maybe Pattern.Recovered) lo hi elements := h.maybe
    refine ⟨fun depth => ?_, findThis?_elements fun p hp => ?_⟩
    · rw [Pattern.layout, patternElements_eq, text_brackets, Pattern.bare, Bare.patternElements_eq, Pattern.exposesIn,
        elementsExposeIn_eq]
      refine .array (hrun.imp fun p hp _ _ hread => ?_)
      cases p with
      | none => exact hread
      | some p =>
        refine (hread.readable depth).weaken fun hin => ?_
        exact List.any_eq_true.mpr ⟨p, List.mem_filterMap.mpr ⟨some p, hp, rfl⟩, hin⟩
    · obtain ⟨_, _, hread⟩ := hrun.mem hp
      exact Pattern.Recovered.noThis hread
  | object span properties =>
    have hrun : Run PatternProp.Recovered lo hi properties := run_map_iff (B := Node.Recovered).mp h
    refine ⟨fun depth => ?_, findThis?_properties fun p hp => ?_⟩
    · have hlayout : text ((Pattern.object span properties).layout depth) = some (.punct .lbrace) ::
          (commaTexts (properties.map fun p => text (p.layout depth)) ++ [some (Token.Kind.punct .rbrace)]) := by
        cases properties with
        | nil => rfl
        | cons p ps =>
          rw [Pattern.layout, patternProps_eq]
          · simp [text_commaSep, Function.comp_def]
          · exact List.cons_ne_nil p ps
      rw [hlayout, Pattern.bare, Bare.patternProps_eq, Pattern.exposesIn, propertiesExposeIn_eq]
      refine .object (hrun.imp fun p hp _ _ hread => ?_)
      exact (hread.readable depth).weaken fun hin => List.any_eq_true.mpr ⟨p, hp, hin⟩
    · obtain ⟨_, _, hread⟩ := hrun.mem hp
      exact hread.noThis
  | withDefault span target e =>
    obtain ⟨mid, htarget, h⟩ := run_cons_iff.mp h
    have he := run_singleton_iff.mp h
    refine ⟨fun depth => ?_, htarget.noThis⟩
    have hlayout : text ((Pattern.withDefault span target e).layout depth) = text (target.layout depth) ++
        some (Token.Kind.punct .eq) :: text (fit .assign e (e.layout depth)) := by simp [Pattern.layout]
    rw [hlayout, Pattern.bare, Pattern.exposesIn]
    exact (htarget.readable depth).withDefault (by rw [target.isBinding_bare]; exact hproper) (he.value depth)
  | rest span target =>
    have htarget := run_singleton_iff.mp h
    refine ⟨fun depth => ?_, htarget.noThis⟩
    have hlayout : text ((Pattern.rest span target).layout depth) = some (.punct .ellipsis) ::
        text (target.layout depth) := by simp [Pattern.layout]
    rw [hlayout, Pattern.bare, Pattern.exposesIn]
    exact (htarget.readable depth).rest (by rw [target.isBinding_bare]; exact hproper)

theorem PropKey.recovered {k : PropKey} (h : Run Node.Recovered lo hi (Node.key k).parts) :
    (Node.key k).Recovered lo hi := by
  intro depth
  cases k with
  | name n =>
    obtain rfl := run_nil_iff.mp h
    rw [PropKey.layout]
    exact .name (Lexeme.propertyText?_word n.text)
  | string x =>
    obtain rfl := run_nil_iff.mp h
    rw [PropKey.layout]
    exact .string x
  | number x =>
    obtain rfl := run_nil_iff.mp h
    rw [PropKey.layout]
    exact .number x
  | computed e =>
    have he := run_singleton_iff.mp h
    have hlayout : text ((PropKey.computed e).layout depth) = some (.punct .lbracket) ::
        (text (fit .assign e (e.layout depth)) ++ [some (Token.Kind.punct .rbracket)]) := by simp [PropKey.layout]
    rw [hlayout, PropKey.bare, PropKey.exposesIn]
    exact .computed (he.value depth)

theorem PatternProp.recovered {p : PatternProp} (hproper : (Node.patternProp p).Proper (.of Token.Kind.Legal))
    (h : Run Node.Recovered lo hi (Node.patternProp p).parts) : p.Recovered lo hi := by
  cases p with
  | keyValue key value =>
    obtain ⟨mid, hkey, h⟩ := run_cons_iff.mp h
    have hvalue := run_singleton_iff.mp h
    refine ⟨fun depth => ?_, by rw [propertiesFindThis?, hvalue.noThis]; rfl⟩
    have hlayout : text ((PatternProp.keyValue key value).layout depth) = text (key.layout depth) ++
        some (Token.Kind.punct .colon) :: text (value.layout depth) := by simp [PatternProp.layout]
    rw [hlayout, PatternProp.bare, PatternProp.exposesIn]
    exact .keyValue (hkey depth) (hvalue.readable depth) (by rw [value.isRest_bare]; exact hproper)
  | shorthand b e =>
    obtain ⟨span, name, demand⟩ := b
    obtain ⟨mid, ⟨rfl, hdemand⟩, hdefault⟩ := run_cons_iff.mp h
    obtain rfl : demand = .none := hdemand
    refine ⟨fun depth => ?_, rfl⟩
    cases e with
    | none =>
      obtain rfl := run_nil_iff.mp hdefault
      exact .shorthand (Lexeme.propertyText?_word name.text)
    | some e =>
      have he := run_singleton_iff.mp hdefault
      have hlayout : text ((PatternProp.shorthand ⟨span, name, .none⟩ (some e)).layout depth) =
          some (Lexeme.word name.text) :: some (.punct .eq) :: text (fit .assign e (e.layout depth)) := by
        simp [PatternProp.layout]
      rw [hlayout, PatternProp.exposesIn]
      exact .shorthandDefault (Lexeme.propertyText?_word name.text) (he.value depth)
  | rest target =>
    have htarget := run_singleton_iff.mp h
    refine ⟨fun depth => ?_, by rw [propertiesFindThis?, htarget.noThis]; rfl⟩
    rw [PatternProp.layout, PatternProp.bare, PatternProp.exposesIn]
    exact .rest (htarget.readable depth) (by rw [target.isRest_bare]; exact hproper)

/-! ### Blocks, properties and declarations -/

theorem Node.recovered_item (h : Run Node.Recovered lo hi (Node.item e).parts) : (Node.item e).Recovered lo hi := by
  intro depth
  have hitem : ∀ {e : Expr}, Run Node.Recovered lo hi [.expr e] → e.Recovered lo hi := by
    intro e h
    have he := run_singleton_iff.mp h
    exact he
  cases e with
  | spread span e =>
    have hfits : .assign ≤ (Expr.spread span e).prec := Nat.le_refl _
    rw [fit_of_le hfits, Expr.text_spread]
    exact ((hitem h).value depth).spread
  | _ => exact ((hitem h).value depth).item

theorem Block.recovered {b : Block} (h : Run Node.Recovered lo hi (Node.block b).parts) :
    (Node.block b).Recovered lo hi := by
  intro depth
  obtain ⟨span, stmts⟩ := b
  have hrun := run_map_iff.mp h
  have hlayout : text ((Block.mk span stmts).layout depth) =
      blockText (!stmts.isEmpty) (stmts.map fun s => text (s.layout (depth + 1))) := by
    cases stmts with
    | nil => rfl
    | cons s ss =>
      rw [Block.layout, text_braces, text_append, text_stmts]
      · simp [blockText]
      · exact List.cons_ne_nil s ss
  rw [hlayout, Block.bare, Bare.stmts_eq]
  exact .ofStmts _ (hrun.imp fun _ _ _ _ hs => hs (depth + 1))

theorem Property.recovered {p : Property} (hproper : (Node.property p).Proper (.of Token.Kind.Legal))
    (hfn : ∀ k fn, p = .method k fn → fn.Proper (.of Token.Kind.Legal))
    (h : Run Node.Recovered lo hi (Node.property p).parts) : (Node.property p).Recovered lo hi := by
  intro depth
  cases p with
  | keyValue key e =>
    obtain ⟨mid, hkey, h⟩ := run_cons_iff.mp h
    have he := run_singleton_iff.mp h
    have hlayout : text ((Property.keyValue key e).layout depth) = text (key.layout depth) ++
        some (Token.Kind.punct .colon) :: text (fit .assign e (e.layout depth)) := by simp [Property.layout]
    rw [hlayout, Property.bare]
    exact .keyValue (hkey depth) (he.value depth)
  | shorthand name =>
    obtain rfl := run_nil_iff.mp h
    rw [Property.layout]
    exact .shorthand (Lexeme.propertyText?_word name.text)
  | method key fn =>
    obtain ⟨mid, hkey, h⟩ := run_cons_iff.mp h
    obtain ⟨mid₂, hparams, hbody⟩ := run_singleton_iff.mp h
    obtain ⟨harrow, hname⟩ := hproper
    have hfn := hfn key fn rfl
    obtain ⟨b, hb⟩ := hfn.body harrow
    have hlayout : text ((Property.method key fn).layout depth) = text (key.layout depth) ++
        (headText false (fn.params.map fun p => text (p.layout depth)) ++ text (b.layout depth)) := by
      have hhead := text_params hparams depth
      obtain ⟨span, name, params, body, isArrow, receiver, returns, condition, sites, instrumented⟩ := fn
      cases hb
      simp [Property.layout, headText, hhead, FunctionBody.layout]
    rw [hb] at hbody
    rw [hlayout, Property.bare, Function.bare_of_proper hfn, harrow, hname, hb]
    exact .method (hkey depth) (readable_params hparams depth) (.block (hbody depth))
  | spread e =>
    have he := run_singleton_iff.mp h
    have hlayout : text ((Property.spread e).layout depth) = some (.punct .ellipsis) ::
        text (fit .assign e (e.layout depth)) := by simp [Property.layout]
    rw [hlayout, Property.bare]
    exact .spread (he.value depth)

theorem Declarator.recovered {d : Declarator} (hproper : d.target.isDeclared = true)
    (h : Run Node.Recovered lo hi (Node.declarator d).parts) : (Node.declarator d).Recovered lo hi := by
  intro depth
  obtain ⟨span, target, init⟩ := d
  obtain ⟨mid, htarget, h⟩ := run_cons_iff.mp h
  have hbinding : target.bare.isBinding = true := by
    rw [target.isBinding_bare]
    exact (Pattern.isDeclared_iff.mp hproper).1
  cases init with
  | none =>
    obtain rfl := run_nil_iff.mp h
    have hread := ReadableDeclarator.target (htarget.readable depth) hbinding htarget.noThis_bare
    rw [Declarator.layout]
    exact hread.weaken (by simp [Declarator.exposesIn])
  | some e =>
    have he := run_singleton_iff.mp h
    have hlayout : text ((Declarator.mk span target (some e)).layout depth) = text (target.layout depth) ++
        some (Token.Kind.punct .eq) :: text (fit .assign e (e.layout depth)) := by simp [Declarator.layout]
    rw [hlayout]
    exact .init (htarget.readable depth) hbinding htarget.noThis_bare (he.value depth)

theorem Decl.recovered {d : Decl} (hproper : d.decls ≠ []) (h : Run Node.Recovered lo hi (Node.decl d).parts) :
    (Node.decl d).Recovered lo hi := by
  intro depth
  obtain ⟨span, kind, decls⟩ := d
  have hrun := run_map_iff.mp h
  have hlayout : text ((Decl.mk span kind decls).layout depth) = some (.reserved kind.word) ::
      commaTexts (decls.map fun d => text (d.layout depth)) := by
    simp [Decl.layout, declarators_eq, text_commaSep_map]
  rw [hlayout, Decl.bare, Bare.declarators_eq]
  refine .ofDeclarators kind hproper (hrun.imp fun d hd _ _ hread => ?_)
  exact (hread depth).weaken fun hin => List.any_eq_true.mpr ⟨d, hd, hin⟩

theorem ForInit.recovered {i : ForInit} (h : Run Node.Recovered lo hi (Node.forInit i).parts) :
    (Node.forInit i).Recovered lo hi := by
  intro hclear depth
  cases i with
  | none =>
    obtain rfl := run_nil_iff.mp h
    exact .none
  | var d =>
    have hd := run_singleton_iff.mp h
    have hread := hd depth
    rw [show d.exposesIn = false from hclear] at hread
    exact .var hread
  | expr e =>
    have he := run_singleton_iff.mp h
    have hread := he.readable depth
    rw [show e.exposesIn = false from hclear] at hread
    exact .expr hread

theorem ForTarget.recovered {t : ForTarget} (hproper : (Node.forTarget t).Proper (.of Token.Kind.Legal))
    (h : Run Node.Recovered lo hi (Node.forTarget t).parts) : (Node.forTarget t).Recovered lo hi := by
  intro hclear depth
  cases t with
  | var kind p =>
    have hp := run_singleton_iff.mp h
    have hread := hp.readable depth
    rw [show p.exposesIn = false from hclear] at hread
    exact .var kind hread (by rw [p.isBinding_bare]; exact (Pattern.isDeclared_iff.mp hproper).1) hp.noThis_bare
  | expr e =>
    have he := run_singleton_iff.mp h
    have htarget : e.isTarget = true := hproper
    have hread := he.fit depth .call
    rw [Expr.exposesIn_of_call_le (Expr.call_le_prec htarget), Bool.and_false] at hread
    exact .expr hread (by rw [Expr.isTarget_bare, htarget])

theorem Handler.recovered {k : Handler} (hproper : ∀ p ∈ k.param, p.isDeclared = true)
    (h : Run Node.Recovered lo hi (Node.handler k).parts) : (Node.handler k).Recovered lo hi := by
  intro depth
  obtain ⟨span, param, b⟩ := k
  obtain ⟨mid, hparam, h⟩ := run_append_iff.mp h
  have hb := run_singleton_iff.mp h
  cases param with
  | none =>
    obtain rfl := run_nil_iff.mp hparam
    have hlayout : text ((Handler.mk span none b).layout depth) = some (.reserved .kwCatch) :: text (b.layout depth) := by
      simp [Handler.layout]
    rw [hlayout]
    exact .plain (hb depth)
  | some p =>
    have hp := run_singleton_iff.mp hparam
    have hlayout : text ((Handler.mk span (some p) b).layout depth) = some (.reserved .kwCatch) ::
        some (.punct .lparen) :: (text (p.layout depth) ++ some (Token.Kind.punct .rparen) :: text (b.layout depth)) := by
      simp [Handler.layout]
    rw [hlayout]
    have hbinding : p.bare.isBinding = true := by
      rw [p.isBinding_bare]
      exact (Pattern.isDeclared_iff.mp (hproper p rfl)).1
    exact .withParam (hp.readable depth) hbinding hp.noThis_bare (hb depth)

theorem Case.recovered {k : Case} (h : Run Node.Recovered lo hi (Node.case k).parts) :
    (Node.case k).Recovered lo hi := by
  intro depth
  obtain ⟨span, test, body⟩ := k
  obtain ⟨mid, htest, hbody⟩ := run_append_iff.mp h
  have hrun := (run_map_iff.mp hbody).imp (B := fun lo hi s => ReadableStmt lo hi (text (s.layout (depth + 1))) s.bare)
    fun _ _ _ _ hs => hs (depth + 1)
  cases test with
  | none =>
    obtain rfl := run_nil_iff.mp htest
    have hlayout : text ((Case.mk span none body).layout depth) = caseText [some (.reserved .kwDefault)]
        (body.map fun s => text (s.layout (depth + 1))) := by
      simp [Case.layout, caseText, text_stmts]
    rw [hlayout, Case.bare, Bare.stmts_eq]
    exact .default hrun
  | some e =>
    have he := run_singleton_iff.mp htest
    have hlayout : text ((Case.mk span (some e) body).layout depth) =
        caseText (some (.reserved .kwCase) :: text (e.layout depth)) (body.map fun s => text (s.layout (depth + 1))) := by
      simp [Case.layout, caseText, text_stmts]
    rw [hlayout, Case.bare, Bare.stmts_eq]
    exact .test (he.readable depth) hrun

/-! ### Statements -/

/-- Whether an `else` behind a statement would belong to it does not depend on spans. -/
theorem Stmt.endsOpen_bare : ∀ s : Stmt, s.bare.endsOpen = s.endsOpen
  | .ifElse _ _ _ none => rfl
  | .ifElse _ _ _ (some s) => s.endsOpen_bare
  | .forLoop _ _ _ _ s => s.endsOpen_bare
  | .forEach _ _ _ _ s => s.endsOpen_bare
  | .while _ _ s => s.endsOpen_bare
  | .ret _ none _ | .ret _ (some _) _ => rfl
  | .expr _ _ | .var _ | .function _ | .doWhile _ _ _ | .switch _ _ _ | .tryCatch _ _ _ _ | .throw _ _
  | .break _ | .continue _ | .block _ | .empty _ => rfl

theorem Case.isNone_test_bare (k : Case) : k.bare.test.isNone = k.test.isNone := by
  obtain ⟨span, test, body⟩ := k
  cases test <;> rfl

theorem Stmt.recovered_expr (h : e.Recovered lo hi) : (Node.stmt (.expr span e)).Recovered lo hi := by
  intro depth
  have hlayout : text ((Stmt.expr span e).layout depth) =
      text (parenIf e.startsLikeStatement (e.layout depth)) ++ [some (Token.Kind.punct .semi)] := by simp [Stmt.layout]
  rw [hlayout]
  cases hstarts : e.startsLikeStatement with
  | true =>
    rw [parenIf, if_pos rfl]
    refine .expr (h.paren depth) ?_
    rw [text_paren]
    exact ⟨fun h => (by cases h), fun h => (by cases h)⟩
  | false =>
    rw [parenIf, if_neg Bool.false_ne_true]
    have hplain := h.starts hstarts depth []
    rw [List.append_nil] at hplain
    exact .expr (h.readable depth) hplain

theorem Stmt.recovered_ifElse {alternate : Option Stmt} {mid' : Nat}
    (hproper : (Stmt.ifElse span e s alternate).Proper) (he : e.Recovered lo mid)
    (hs : (Node.stmt s).Recovered mid mid') (halternate : Run Node.Recovered mid' hi (alternate.toList.map .stmt)) :
    (Node.stmt (.ifElse span e s alternate)).Recovered lo hi := by
  intro depth
  rw [Stmt.bare_ifElse]
  cases alternate with
  | none =>
    obtain rfl := run_nil_iff.mp halternate
    have hlayout : text ((Stmt.ifElse span e s none).layout depth) = some (.reserved .kwIf) :: some (.punct .lparen) ::
        (text (e.layout depth) ++ some (Token.Kind.punct .rparen) ::
          clauseText (isBlock s) (text (s.layout (clauseDepth (isBlock s) depth)))) := by
      simp [Stmt.layout, text_clause]
    rw [hlayout]
    exact .ifThen (he.readable depth) (hs _)
  | some s₂ =>
    have hs₂ := run_singleton_iff.mp halternate
    have hlayout : text ((Stmt.ifElse span e s (some s₂)).layout depth) =
        some (.reserved .kwIf) :: some (.punct .lparen) :: (text (e.layout depth) ++ some (Token.Kind.punct .rparen) ::
          (clauseText (isBlock s) (text (s.layout (clauseDepth (isBlock s) depth))) ++ (gapText (isBlock s) ++
            some (Token.Kind.reserved .kwElse) :: clauseText (isBlock s₂ || isIf s₂)
              (text (s₂.layout (clauseDepth (isBlock s₂ || isIf s₂) depth)))))) := by
      simp [Stmt.layout, text_clause, text_clauseGap]
    rw [hlayout]
    exact .ifElse (he.readable depth) (hs _) (by rw [s.endsOpen_bare]; exact hproper) (hs₂ _)

theorem maybe_readable {e : Option Expr} (h : Run Node.Recovered lo hi (e.toList.map .expr)) (depth : Nat) :
    Maybe (fun lo hi e => ReadableExpr lo hi (text (e.layout depth)) e.bare) lo hi e := by
  have hmaybe := run_toList_iff.mp h
  cases e with
  | none => exact hmaybe
  | some e => exact ⟨_, _, _, hmaybe.readable depth⟩

theorem Stmt.text_forLoop (span : Span) (init : ForInit) (test update : Option Expr) (s : Stmt) (depth : Nat) :
    text ((Stmt.forLoop span init test update s).layout depth) =
      some (.reserved .kwFor) :: some (.punct .lparen) :: (text (init.layout depth) ++ some (Token.Kind.punct .semi) ::
        (partText (fun e => text (e.layout depth)) test ++ some (Token.Kind.punct .semi) ::
          (partText (fun e => text (e.layout depth)) update ++ some (Token.Kind.punct .rparen) ::
            clauseText (isBlock s) (text (s.layout (clauseDepth (isBlock s) depth)))))) := by
  cases test <;> cases update <;> simp [Stmt.layout, text_clause]

theorem Stmt.recovered_forLoop {init : ForInit} {test update : Option Expr} {mid₁ mid₂ : Nat}
    (hclear : init.exposesIn = false) (hinit : (Node.forInit init).Recovered lo mid)
    (htest : Run Node.Recovered mid mid₁ (test.toList.map .expr))
    (hupdate : Run Node.Recovered mid₁ mid₂ (update.toList.map .expr)) (hs : (Node.stmt s).Recovered mid₂ hi) :
    (Node.stmt (.forLoop span init test update s)).Recovered lo hi := by
  intro depth
  rw [Stmt.text_forLoop, Stmt.bare_forLoop]
  exact .forLoop (hinit hclear depth) (maybe_readable htest depth) (maybe_readable hupdate depth) (hs _)

theorem Stmt.text_forEach (span : Span) (target : ForTarget) (values : Bool) (e : Expr) (s : Stmt) (depth : Nat) :
    text ((Stmt.forEach span target values e s).layout depth) =
      some (.reserved .kwFor) :: some (.punct .lparen) :: (text (target.layout depth) ++ some (eachToken values) ::
        (text (fit .assign e (e.layout depth)) ++ some (Token.Kind.punct .rparen) ::
          clauseText (isBlock s) (text (s.layout (clauseDepth (isBlock s) depth))))) := by
  have htoken : (if values then Token.Kind.ident "of" else .reserved .kwIn).asRead = eachToken values := by
    cases values with
    | true => decide +kernel
    | false => rfl
  simp [Stmt.layout, text_clause, htoken]

theorem Stmt.recovered_forEach {target : ForTarget} {values : Bool} {mid₁ : Nat} (hclear : target.exposesIn = false)
    (htarget : (Node.forTarget target).Recovered lo mid) (he : e.Recovered mid mid₁)
    (hs : (Node.stmt s).Recovered mid₁ hi) : (Node.stmt (.forEach span target values e s)).Recovered lo hi := by
  intro depth
  rw [Stmt.text_forEach]
  exact .forEach (htarget hclear depth) (he.value depth) (hs _)

theorem Stmt.recovered_while (he : e.Recovered lo mid) (hs : (Node.stmt s).Recovered mid hi) :
    (Node.stmt (.while span e s)).Recovered lo hi := by
  intro depth
  have hlayout : text ((Stmt.while span e s).layout depth) = some (.reserved .kwWhile) :: some (.punct .lparen) ::
      (text (e.layout depth) ++ some (Token.Kind.punct .rparen) ::
        clauseText (isBlock s) (text (s.layout (clauseDepth (isBlock s) depth)))) := by
    simp [Stmt.layout, text_clause]
  rw [hlayout]
  exact .while (he.readable depth) (hs _)

theorem Stmt.recovered_doWhile (hs : (Node.stmt s).Recovered lo mid) (he : e.Recovered mid hi) :
    (Node.stmt (.doWhile span s e)).Recovered lo hi := by
  intro depth
  have hlayout : text ((Stmt.doWhile span s e).layout depth) = some (.reserved .kwDo) ::
      (clauseText (isBlock s) (text (s.layout (clauseDepth (isBlock s) depth))) ++ (gapText (isBlock s) ++
        some (Token.Kind.reserved .kwWhile) :: some (.punct .lparen) ::
          (text (e.layout depth) ++ [some (Token.Kind.punct .rparen), some (.punct .semi)]))) := by
    simp [Stmt.layout, text_clause, text_clauseGap]
  rw [hlayout]
  exact .doWhile (hs _) (he.readable depth)

theorem Stmt.recovered_switch {cases : List Case} (hproper : (Stmt.switch span e cases).Proper)
    (he : e.Recovered lo mid) (hcases : Run Node.Recovered mid hi (cases.map .case)) :
    (Node.stmt (.switch span e cases)).Recovered lo hi := by
  intro depth
  have hlayout : text ((Stmt.switch span e cases).layout depth) = some (.reserved .kwSwitch) :: some (.punct .lparen) ::
      (text (e.layout depth) ++ some (Token.Kind.punct .rparen) :: some (.punct .lbrace) :: none ::
        (cases.flatMap (fun k => text (k.layout (depth + 1))) ++ [none, some (.punct .rbrace)])) := by
    simp [Stmt.layout, text_braces, text_cases]
  have hdefault : ((cases.map Case.bare).filter (·.test.isNone)).length ≤ 1 := by
    have htest : ((·.test.isNone) ∘ Case.bare) = fun k : Case => k.test.isNone := funext Case.isNone_test_bare
    rw [List.filter_map, List.length_map, htest]
    exact hproper
  have hbare : (Stmt.switch span e cases).bare = .switch .zero e.bare (cases.map Case.bare) := by
    rw [← Bare.cases_eq]
    rfl
  rw [hlayout, hbare]
  exact .switch (he.readable depth) ((run_map_iff.mp hcases).imp fun _ _ _ _ hk => hk (depth + 1)) hdefault

theorem Stmt.recovered_tryCatch {b : Block} {handler : Option Handler} {finalizer : Option Block} {mid' : Nat}
    (hproper : (Stmt.tryCatch span b handler finalizer).Proper) (hb : (Node.block b).Recovered lo mid)
    (hhandler : Run Node.Recovered mid mid' (handler.toList.map .handler))
    (hfinalizer : Run Node.Recovered mid' hi (finalizer.toList.map .block)) :
    (Node.stmt (.tryCatch span b handler finalizer)).Recovered lo hi := by
  intro depth
  have hlayout : text ((Stmt.tryCatch span b handler finalizer).layout depth) = some (.reserved .kwTry) ::
      (text (b.layout depth) ++ (partText (fun h => text (h.layout depth)) handler ++
        partText (finallyText fun b => text (b.layout depth)) finalizer)) := by
    cases handler <;> cases finalizer <;> simp [Stmt.layout, finallyText]
  have hhandler : Maybe (fun lo hi h => ReadableHandler lo hi (text (h.layout depth)) h.bare) mid mid' handler := by
    have hmaybe := run_toList_iff.mp hhandler
    cases handler with
    | none => exact hmaybe
    | some h => exact hmaybe depth
  have hfinalizer : Maybe (fun lo hi b => ReadableBlock lo hi (text (b.layout depth)) b.bare) mid' hi finalizer := by
    have hmaybe := run_toList_iff.mp hfinalizer
    cases finalizer with
    | none => exact hmaybe
    | some b => exact hmaybe depth
  rw [hlayout, Stmt.bare_tryCatch]
  exact .tryCatch (hb depth) hhandler hfinalizer hproper

theorem Stmt.recovered (hproper : s.Proper) (hclear : (Node.stmt s).ClearHead)
    (hfn : ∀ fn, s = .function fn → fn.Proper (.of Token.Kind.Legal)) (h : Run Node.Recovered lo hi s.parts) :
    (Node.stmt s).Recovered lo hi := by
  cases s with
  | expr span e =>
    have he := run_singleton_iff.mp h
    exact Stmt.recovered_expr he
  | var d =>
    have hd := run_singleton_iff.mp h
    intro depth
    have hlayout : text ((Stmt.var d).layout depth) = text (d.layout depth) ++ [some (Token.Kind.punct .semi)] := by
      simp [Stmt.layout]
    rw [hlayout]
    exact .var (hd depth)
  | function fn =>
    obtain ⟨mid', hparams, hbody⟩ := run_singleton_iff.mp h
    obtain ⟨harrow, hname⟩ := hproper
    have hfn := hfn fn rfl
    obtain ⟨b, hb⟩ := hfn.body harrow
    obtain ⟨n, hn⟩ := Option.isSome_iff_exists.mp hname
    intro depth
    have hbare : (Stmt.function fn).bare = .function fn.bare := rfl
    rw [hb] at hbody
    rw [Stmt.layout_function, Function.text_layout hfn harrow hparams hb, hbare, Function.bare_of_proper hfn, harrow, hb, hn]
    exact .function n.text (readable_params hparams depth) (.block (hbody depth))
  | ret span argument site =>
    obtain ⟨mid, hargument, h⟩ := run_append_iff.mp h
    obtain ⟨rfl, rfl⟩ := run_singleton_iff.mp h
    intro depth
    cases argument with
    | none =>
      obtain rfl := run_nil_iff.mp hargument
      exact .ret
    | some e =>
      have he := run_singleton_iff.mp hargument
      have hlayout : text ((Stmt.ret span (some e) mid).layout depth) = some (.reserved .kwReturn) ::
          (text (e.layout depth) ++ [some (Token.Kind.punct .semi)]) := by simp [Stmt.layout]
      rw [hlayout]
      exact .retValue (he.readable depth)
  | ifElse span e s alternate =>
    obtain ⟨mid, he, h⟩ := run_cons_iff.mp h
    obtain ⟨mid', hs, h⟩ := run_cons_iff.mp h
    exact Stmt.recovered_ifElse hproper he hs h
  | forLoop span init test update s =>
    obtain ⟨mid, hinit, h⟩ := run_cons_iff.mp h
    obtain ⟨mid₁, htest, h⟩ := run_append_iff.mp h
    obtain ⟨mid₂, hupdate, h⟩ := run_append_iff.mp h
    have hs := run_singleton_iff.mp h
    exact Stmt.recovered_forLoop hclear hinit htest hupdate hs
  | forEach span target values e s =>
    obtain ⟨mid, htarget, h⟩ := run_cons_iff.mp h
    obtain ⟨mid₁, he, h⟩ := run_cons_iff.mp h
    have hs := run_singleton_iff.mp h
    exact Stmt.recovered_forEach hclear htarget he hs
  | «while» span e s =>
    obtain ⟨mid, he, h⟩ := run_cons_iff.mp h
    have hs := run_singleton_iff.mp h
    exact Stmt.recovered_while he hs
  | doWhile span s e =>
    obtain ⟨mid, hs, h⟩ := run_cons_iff.mp h
    have he := run_singleton_iff.mp h
    exact Stmt.recovered_doWhile hs he
  | switch span e cases =>
    obtain ⟨mid, he, h⟩ := run_cons_iff.mp h
    exact Stmt.recovered_switch hproper he h
  | tryCatch span b handler finalizer =>
    obtain ⟨mid, hb, h⟩ := run_cons_iff.mp h
    obtain ⟨mid', hhandler, hfinalizer⟩ := run_append_iff.mp h
    exact Stmt.recovered_tryCatch hproper hb hhandler hfinalizer
  | throw span e =>
    have he := run_singleton_iff.mp h
    intro depth
    have hlayout : text ((Stmt.throw span e).layout depth) = some (.reserved .kwThrow) ::
        (text (e.layout depth) ++ [some (Token.Kind.punct .semi)]) := by simp [Stmt.layout]
    rw [hlayout]
    exact .throw (he.readable depth)
  | «break» span =>
    obtain rfl := run_nil_iff.mp h
    exact fun _ => .break
  | «continue» span =>
    obtain rfl := run_nil_iff.mp h
    exact fun _ => .continue
  | block b =>
    have hb := run_singleton_iff.mp h
    intro depth
    rw [Stmt.layout]
    exact .block (hb depth)
  | empty span =>
    obtain rfl := run_nil_iff.mp h
    exact fun _ => .empty

end

/-! ### All trees -/

/-- Functions inside a made tree are proper. -/
theorem Node.proper_function {L : Lexis} {lo hi : Nat} {fn : Function} {ns : List Node} (h : Run (Node.Made L) lo hi ns)
    (hfn : .function fn ∈ ns) : fn.Proper L := by
  obtain ⟨_, _, hmade⟩ := h.mem hfn
  exact hmade.proper

/-- Every tree that the reader makes has a layout that is read as the tree. -/
theorem Node.Made.recovered {lo hi : Nat} {n : Node} (h : n.Made (.of Token.Kind.Legal) lo hi)
    (hclear : n.All Node.ClearHead) : n.Recovered lo hi := by
  refine Node.Made.byParts (P := fun lo hi n => n.All Node.ClearHead → n.Recovered lo hi) (fun _ _ => ⟨rfl, rfl⟩) ?_ h hclear
  intro lo hi n hn hproper hmade ih hclear
  have hparts : Run Node.Recovered lo hi n.parts := ih.imp fun m hm _ _ hread => hread (hclear.part hm)
  cases n with
  | expr e =>
    refine Expr.recovered hproper (fun span fn he => ?_) hparts
    subst he
    exact Node.proper_function hmade (List.mem_cons_self ..)
  | item e => exact Node.recovered_item hparts
  | key k => exact PropKey.recovered hparts
  | property p =>
    refine Property.recovered hproper (fun k fn hp => ?_) hparts
    subst hp
    exact Node.proper_function hmade (List.mem_cons_of_mem _ (List.mem_cons_self ..))
  | function fn =>
    obtain ⟨mid, hparams, hrest⟩ := run_append_iff.mp hparts
    have hbody := run_singleton_iff.mp hrest
    exact ⟨mid, run_map_iff (B := Node.Recovered).mp hparams, hbody⟩
  | body b =>
    cases b with
    | block b =>
      have hb := run_singleton_iff.mp hparts
      exact hb
    | concise e =>
      have he := run_singleton_iff.mp hparts
      exact he
  | block b => exact Block.recovered hparts
  | stmt s =>
    refine Stmt.recovered hproper hclear.self (fun fn hs => ?_) hparts
    subst hs
    exact Node.proper_function hmade (List.mem_cons_self ..)
  | decl d => exact Decl.recovered hproper hparts
  | declarator d => exact Declarator.recovered hproper hparts
  | forInit i => exact ForInit.recovered hparts
  | forTarget t => exact ForTarget.recovered hproper hparts
  | case k => exact Case.recovered hparts
  | handler k => exact Handler.recovered hproper hparts
  | pattern p => exact Pattern.recovered hproper hparts
  | patternProp p => exact PatternProp.recovered hproper hparts
  | binding b => exact ⟨run_nil_iff.mp hparts, hproper⟩
  | site k => cases hn
  | demand | shape | contract | label => trivial

end LabelWeaver
