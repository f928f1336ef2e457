import LabelWeaver.Proofs.Tree.Each
import LabelWeaver.Proofs.Instrument.Reruns

/-! Functions that have their checks. A function that asks for nothing is left alone; any other has
    its checks after the first run, and no functions are inside it that were not there before. -/

namespace LabelWeaver

open Instrument

/-! ### Checked functions -/

/-- The returns that the statement owns are checked: each stands at the end of its check block. -/
inductive Stmt.ReturnsChecked (e : Emitter) (c : Contract) : Stmt → Prop where
  | checked (r : Return) : ReturnsChecked e c (checkBlock e c r)
  | leaf {s : Stmt} (h : s.isLeaf = true) : ReturnsChecked e c s
  | block {span : Span} {stmts : List Stmt} (h : ∀ s ∈ stmts, ReturnsChecked e c s) :
      ReturnsChecked e c (.block ⟨span, stmts⟩)
  | ifElse {span : Span} {test : Expr} {consequent : Stmt} {alternate : Option Stmt}
      (h : ReturnsChecked e c consequent) (h' : ∀ s ∈ alternate, ReturnsChecked e c s) :
      ReturnsChecked e c (.ifElse span test consequent alternate)
  | forLoop {span : Span} {init : ForInit} {test update : Option Expr} {body : Stmt}
      (h : ReturnsChecked e c body) : ReturnsChecked e c (.forLoop span init test update body)
  | forEach {span : Span} {target : ForTarget} {values : Bool} {obj : Expr} {body : Stmt}
      (h : ReturnsChecked e c body) : ReturnsChecked e c (.forEach span target values obj body)
  | whileLoop {span : Span} {test : Expr} {body : Stmt} (h : ReturnsChecked e c body) :
      ReturnsChecked e c (.while span test body)
  | doWhile {span : Span} {test : Expr} {body : Stmt} (h : ReturnsChecked e c body) :
      ReturnsChecked e c (.doWhile span body test)
  | switch {span : Span} {subject : Expr} {cases : List Case}
      (h : ∀ k ∈ cases, ∀ s ∈ k.body, ReturnsChecked e c s) :
      ReturnsChecked e c (.switch span subject cases)
  | tryCatch {span : Span} {body : Block} {handler : Option Handler} {finalizer : Option Block}
      (h : ∀ s ∈ body.stmts, ReturnsChecked e c s)
      (hh : ∀ k ∈ handler, ∀ s ∈ k.body.stmts, ReturnsChecked e c s)
      (hf : ∀ b ∈ finalizer, ∀ s ∈ b.stmts, ReturnsChecked e c s) :
      ReturnsChecked e c (.tryCatch span body handler finalizer)

/-- The statements of a body hold the checks that the function asks for: in front the condition on
    the arguments, the receiver and every bound name in order; if something is asked of the returned
    value, then at every return and at the end. -/
structure Function.CheckedBy (e : Emitter) (fn : Function) (body : Block) : Prop where
  front : conditionChecks e fn ++ receiverChecks e fn ++ parameterChecks e fn <+: body.stmts
  returns : ∀ c ∈ fn.returns, c.isEmpty = false → ∀ s ∈ body.stmts, s.ReturnsChecked e c
  stop : ∀ c ∈ fn.returns, c.isEmpty = false → tailChecks e body.span c <:+ body.stmts

/-- The function has its checks exactly if it asks for some. -/
structure Function.Covered (names : RuntimeNames) (fn : Function) : Prop where
  flag : fn.instrumented = true ↔ fn.needsChecks = true
  checks : fn.needsChecks = true →
    ∃ body, fn.body = .block body ∧ fn.CheckedBy (.startingAt names body.span) body

theorem Stmt.returnsChecked_mapReturns (e : Emitter) (c : Contract) (s : Stmt) :
    (s.mapReturns (checkBlock e c)).ReturnsChecked e c := by
  have hlist : ∀ stmts : List Stmt, (∀ s ∈ stmts, (s.mapReturns (checkBlock e c)).ReturnsChecked e c) →
      ∀ s ∈ listMapReturns (checkBlock e c) stmts, s.ReturnsChecked e c := by
    intro stmts ih s hs
    rw [listMapReturns_eq] at hs
    obtain ⟨t, ht, rfl⟩ := List.mem_map.mp hs
    exact ih t ht
  induction s using Stmt.owned_induction with
  | ret span argument site => exact .checked _
  | leaf s hs => rw [mapReturns_of_isLeaf hs]; exact .leaf hs
  | block span stmts ih => exact .block (hlist stmts ih)
  | ifElse span test consequent alternate ih ih' =>
    rw [mapReturns_ifElse]
    refine .ifElse ih fun s hs => ?_
    obtain ⟨t, ht, rfl⟩ := Option.map_eq_some_iff.mp hs
    exact ih' t ht
  | forLoop span init test update body ih => exact .forLoop ih
  | forEach span target values obj body ih => exact .forEach ih
  | whileLoop span test body ih => exact .whileLoop ih
  | doWhile span body test ih => exact .doWhile ih
  | switch span subject cases ih =>
    rw [mapReturns, caseMapReturns_eq]
    refine .switch fun k hk => ?_
    obtain ⟨k', hk', rfl⟩ := List.mem_map.mp hk
    rw [← listMapReturns_eq]
    exact hlist k'.body (ih k' hk')
  | tryCatch span body handler finalizer ih ihh ihf =>
    rw [mapReturns_tryCatch]
    refine .tryCatch (hlist _ ih) (fun k hk => ?_) fun b hb => ?_
    · obtain ⟨k', hk', rfl⟩ := Option.map_eq_some_iff.mp hk
      exact hlist _ (ihh k' hk')
    · obtain ⟨b', hb', rfl⟩ := Option.map_eq_some_iff.mp hb
      exact hlist _ (ihf b' hb')

theorem listReturnsChecked {e : Emitter} {c : Contract} {stmts : List Stmt} :
    ∀ s ∈ listMapReturns (checkBlock e c) stmts, s.ReturnsChecked e c := by
  intro s hs
  rw [listMapReturns_eq] at hs
  obtain ⟨t, -, rfl⟩ := List.mem_map.mp hs
  exact t.returnsChecked_mapReturns e c

/-! ### The first run -/

/-- The statements of a body with the checks that the function asks for. -/
def checkedStmts (e : Emitter) (fn : Function) (span : Span) (stmts : List Stmt) : List Stmt :=
  match returnContract? fn with
  | none => preconditions e fn ++ stmts
  | some c => preconditions e fn ++ listMapReturns (checkBlock e c) stmts ++ tailChecks e span c

section
variable (names : RuntimeNames) (fn : Function) {span : Span} {stmts : List Stmt}

/-- The first run changes the body and marks the function. -/
theorem Function.instrument_fresh (hbody : fn.body = .block ⟨span, stmts⟩) (hflag : fn.instrumented = false)
    (hsites : fn.checkedSites = []) (hnodup : (listSites stmts).Nodup) :
    ∃ sites, (fn.instrument names).1 =
      { fn with
          body := .block ⟨span, checkedStmts (.startingAt names span) fn span stmts⟩
          checkedSites := sites
          instrumented := true } := by
  unfold checkedStmts
  cases hc : returnContract? fn with
  | none =>
    rw [instrument_of_none hbody hflag hc]
    exact ⟨_, rfl⟩
  | some c =>
    rw [instrument_of_some hbody hflag hc hnodup, hsites,
      listMapReturns_checkUnless_of_fresh _ _ fun _ _ h => by cases h]
    exact ⟨_, rfl⟩

/-- Where a function ends does not matter to its checks. -/
theorem Function.instrument_span (s : Span) :
    ({ fn with span := s }.instrument names).1 = { (fn.instrument names).1 with span := s } := by
  unfold Function.instrument
  dsimp only
  split
  · rfl
  · cases fn.body with
    | concise value => rfl
    | block body =>
      unfold returnContract?
      dsimp only
      cases fn.returns.filter (!·.isEmpty) <;> rfl

/-- The checks that the function asks for are in the statements. -/
theorem Function.checkedBy_checkedStmts (e : Emitter) (span : Span) (stmts : List Stmt) :
    fn.CheckedBy e ⟨span, checkedStmts e fn span stmts⟩ := by
  unfold checkedStmts
  cases hc : returnContract? fn with
  | none =>
    have hnone : ∀ c ∈ fn.returns, c.isEmpty = false → False := by
      intro c hmem hempty
      rw [returnContract?_of_nonempty hmem hempty] at hc
      cases hc
    refine ⟨?_, fun c hmem hempty => (hnone c hmem hempty).elim, fun c hmem hempty => (hnone c hmem hempty).elim⟩
    rw [preconditions_eq]
    exact List.prefix_append _ _
  | some c =>
    have hsome : ∀ c' ∈ fn.returns, c'.isEmpty = false → c' = c := by
      intro c' hmem hempty
      rw [returnContract?_of_nonempty hmem hempty] at hc
      exact Option.some.inj hc
    have hlist : preconditions e fn ++ listMapReturns (checkBlock e c) stmts ++ tailChecks e span c =
        listMapReturns (checkBlock e c) (preconditions e fn ++ stmts ++ tailChecks e span c) := by
      rw [listMapReturns_append, listMapReturns_append, listMapReturns_of_nil (listReturns_preconditions _ _),
        listMapReturns_of_nil (listReturns_tailChecks _ _ _)]
    refine ⟨?_, fun c' hmem hempty s hs => ?_, fun c' hmem hempty => ?_⟩
    · rw [preconditions_eq]
      exact (List.prefix_append _ _).trans (List.prefix_append _ _)
    · rw [hsome c' hmem hempty]
      change s ∈ preconditions e fn ++ listMapReturns (checkBlock e c) stmts ++ tailChecks e span c at hs
      rw [hlist] at hs
      exact listReturnsChecked s hs
    · rw [hsome c' hmem hempty]
      exact List.suffix_append _ _

/-- A function that asks for something has its checks after the first run. -/
theorem Function.covered_instrument (hbody : fn.body = .block ⟨span, stmts⟩) (hflag : fn.instrumented = false)
    (hsites : fn.checkedSites = []) (hnodup : (listSites stmts).Nodup) (hneeds : fn.needsChecks = true) :
    (fn.instrument names).1.Covered names := by
  obtain ⟨sites, hrun⟩ := fn.instrument_fresh names hbody hflag hsites hnodup
  rw [hrun]
  refine ⟨⟨fun _ => hneeds, fun _ => rfl⟩, fun _ => ⟨_, rfl, ?_⟩⟩
  obtain ⟨hfront, hreturns, hstop⟩ := fn.checkedBy_checkedStmts (.startingAt names span) span stmts
  exact ⟨hfront, hreturns, hstop⟩

end

/-! ### What is inside checked functions -/

section
variable {W : Node → Prop} [Node.Ordinary W] (e : Emitter)

theorem all_checkBlock {c : Contract} (hc : (Node.contract c).All W) (r : Return)
    (hr : (Node.stmt r.stmt).All W) : (Node.stmt (checkBlock e c r)).All W := by
  obtain ⟨span, argument, site⟩ := r
  have hargument : ∀ value ∈ argument, (Node.expr value).All W := fun value hvalue =>
    hr.part (by simp [Return.stmt, Node.parts, Stmt.parts, Option.mem_def.mp hvalue])
  have hvalue : (Node.expr (checkedValue (e.moveTo span) argument)).All W := by
    cases argument with
    | none => exact Emitter.all_reference _ _
    | some value =>
      by_cases h : value.isSimple
      · simpa only [checkedValue, h, if_true] using hargument value rfl
      · simp only [checkedValue, h]
        exact Emitter.all_reference _ _
  have hstored : ∀ s ∈ storedValue (e.moveTo span) argument, (Node.stmt s).All W := by
    intro s hs
    cases argument with
    | none => cases hs
    | some value =>
      by_cases h : value.isSimple
      · simp [storedValue, h] at hs
      · simp only [storedValue, h] at hs
        rw [List.mem_singleton.mp hs, Emitter.all_var]
        exact hargument value rfl
  refine Emitter.all_block_stmt _ fun s hs => ?_
  rcases List.mem_append.mp hs with hs | hs
  · rcases List.mem_append.mp hs with hs | hs
    · exact hstored s hs
    · exact Emitter.all_expectation _ hvalue hc s hs
  · rw [List.mem_singleton.mp hs, Node.all_stmt rfl]
    cases argument <;> simp [Stmt.parts, hvalue]

/-- A statement other than a return keeps its form. -/
theorem Stmt.all_mapReturns_of_parts {f : Return → Stmt} {s : Stmt} (hs : ∀ r : Return, s ≠ r.stmt)
    (h : (Node.stmt s).All W) (hparts : ∀ m ∈ (s.mapReturns f).parts, m.All W) :
    (Node.stmt (s.mapReturns f)).All W :=
  Node.all_stmt_iff.mpr ⟨Node.Ordinary.mapReturns f hs h.self, hparts⟩

/-- What becomes of the returns decides about what comes in. -/
theorem Stmt.all_mapReturns {f : Return → Stmt}
    (hf : ∀ r : Return, (Node.stmt r.stmt).All W → (Node.stmt (f r)).All W) (s : Stmt)
    (h : (Node.stmt s).All W) : (Node.stmt (s.mapReturns f)).All W := by
  have hlist : ∀ stmts : List Stmt,
      (∀ s ∈ stmts, (Node.stmt s).All W → (Node.stmt (s.mapReturns f)).All W) →
      (∀ s ∈ stmts, (Node.stmt s).All W) → ∀ s ∈ listMapReturns f stmts, (Node.stmt s).All W := by
    intro stmts ih h s hs
    rw [listMapReturns_eq] at hs
    obtain ⟨t, ht, rfl⟩ := List.mem_map.mp hs
    exact ih t ht (h t ht)
  induction s using Stmt.owned_induction with
  | ret span argument site => exact hf _ h
  | leaf s hs => rwa [mapReturns_of_isLeaf hs]
  | block span stmts ih =>
    refine all_mapReturns_of_parts (fun _ h => Stmt.noConfusion h) h ?_
    have hparts := (Node.all_stmt_iff.mp h).2
    rw [mapReturns]
    simp only [parts, List.forall_mem_singleton, Node.all_block] at hparts ⊢
    exact hlist stmts ih hparts
  | ifElse span test consequent alternate ih ih' =>
    refine all_mapReturns_of_parts (fun _ h => Stmt.noConfusion h) h ?_
    have hparts := (Node.all_stmt_iff.mp h).2
    rw [mapReturns_ifElse]
    simp only [parts, List.forall_mem_cons, List.forall_mem_map, Option.mem_toList] at hparts ⊢
    obtain ⟨htest, hconsequent, halternate⟩ := hparts
    refine ⟨htest, ih hconsequent, fun s hs => ?_⟩
    obtain ⟨t, ht, rfl⟩ := Option.map_eq_some_iff.mp hs
    exact ih' t ht (halternate t ht)
  | forLoop span init test update body ih =>
    refine all_mapReturns_of_parts (fun _ h => Stmt.noConfusion h) h ?_
    have hparts := (Node.all_stmt_iff.mp h).2
    rw [mapReturns]
    simp only [parts, List.forall_mem_cons, List.forall_mem_append] at hparts ⊢
    obtain ⟨hinit, htest, hupdate, hbody, hnil⟩ := hparts
    exact ⟨hinit, htest, hupdate, ih hbody, hnil⟩
  | forEach span target values obj body ih =>
    refine all_mapReturns_of_parts (fun _ h => Stmt.noConfusion h) h ?_
    have hparts := (Node.all_stmt_iff.mp h).2
    rw [mapReturns]
    simp only [parts, List.forall_mem_cons] at hparts ⊢
    obtain ⟨htarget, hobj, hbody, hnil⟩ := hparts
    exact ⟨htarget, hobj, ih hbody, hnil⟩
  | whileLoop span test body ih =>
    refine all_mapReturns_of_parts (fun _ h => Stmt.noConfusion h) h ?_
    have hparts := (Node.all_stmt_iff.mp h).2
    rw [mapReturns]
    simp only [parts, List.forall_mem_cons] at hparts ⊢
    exact ⟨hparts.1, ih hparts.2.1, hparts.2.2⟩
  | doWhile span body test ih =>
    refine all_mapReturns_of_parts (fun _ h => Stmt.noConfusion h) h ?_
    have hparts := (Node.all_stmt_iff.mp h).2
    rw [mapReturns]
    simp only [parts, List.forall_mem_cons] at hparts ⊢
    exact ⟨ih hparts.1, hparts.2⟩
  | switch span subject cases ih =>
    refine all_mapReturns_of_parts (fun _ h => Stmt.noConfusion h) h ?_
    have hparts := (Node.all_stmt_iff.mp h).2
    rw [mapReturns, caseMapReturns_eq]
    simp only [parts, List.forall_mem_cons, List.forall_mem_map, Node.all_case] at hparts ⊢
    refine ⟨hparts.1, fun k hk => ⟨(hparts.2 k hk).1, fun s hs => ?_⟩⟩
    exact ih k hk s hs ((hparts.2 k hk).2 s hs)
  | tryCatch span body handler finalizer ih ihh ihf =>
    refine all_mapReturns_of_parts (fun _ h => Stmt.noConfusion h) h ?_
    have hparts := (Node.all_stmt_iff.mp h).2
    rw [mapReturns_tryCatch]
    simp only [parts, List.forall_mem_cons, List.forall_mem_append, List.forall_mem_map, Option.mem_toList,
      Node.all_block, Node.all_handler] at hparts ⊢
    obtain ⟨hbody, hhandler, hfinalizer⟩ := hparts
    refine ⟨hlist _ ih hbody, fun k hk => ?_, fun b hb => ?_⟩
    · obtain ⟨k', hk', rfl⟩ := Option.map_eq_some_iff.mp hk
      exact ⟨(hhandler k' hk').1, hlist _ (ihh k' hk') (hhandler k' hk').2⟩
    · obtain ⟨b', hb', rfl⟩ := Option.map_eq_some_iff.mp hb
      exact hlist _ (ihf b' hb') (hfinalizer b' hb')

theorem all_preconditions {fn : Function} (h : ∀ m ∈ (Node.function fn).children, m.All W) :
    ∀ s ∈ preconditions e fn, (Node.stmt s).All W := by
  intro s hs
  simp only [preconditions, List.mem_append, List.mem_map, Option.mem_toList, List.mem_flatMap] at hs
  rcases hs with (⟨condition, hmem, rfl⟩ | hs) | ⟨b, ⟨p, hp, hb⟩, hs⟩
  · have hcondition := h (.expr condition) (by simp [Node.children, Node.metadata, Option.mem_def.mp hmem])
    exact e.all_stmt rfl (e.all_assertCondition hcondition _)
  · cases hreceiver : fn.receiver with
    | none => simp [hreceiver] at hs
    | some d =>
      have hd := h (.demand d) (by simp [Node.children, Node.metadata, hreceiver])
      have hthis : (Node.expr (.this e.anchor)).All W := by
        rw [Node.all_expr rfl]
        simp [Expr.parts]
      rw [hreceiver] at hs
      exact e.all_demand hthis hd s hs
  · have hpattern := h (.pattern p) (by simp [Node.children, Node.parts, hp])
    exact e.all_demand (e.all_reference _) (Node.all_binding.mp (Pattern.all_bindings hpattern b hb)) s hs

theorem all_checkedStmts {fn : Function} (h : ∀ m ∈ (Node.function fn).children, m.All W) (span : Span)
    {stmts : List Stmt} (hstmts : ∀ s ∈ stmts, (Node.stmt s).All W) :
    ∀ s ∈ checkedStmts e fn span stmts, (Node.stmt s).All W := by
  have hpre := all_preconditions e h
  unfold checkedStmts
  cases hc : returnContract? fn with
  | none => exact List.forall_mem_append.mpr ⟨hpre, hstmts⟩
  | some c =>
    have hcontract : (Node.contract c).All W := by
      obtain ⟨hc, -⟩ := Option.filter_eq_some_iff.mp hc
      exact h _ (by simp [Node.children, Node.metadata, hc])
    refine List.forall_mem_append.mpr ⟨List.forall_mem_append.mpr ⟨hpre, fun s hs => ?_⟩, ?_⟩
    · rw [listMapReturns_eq] at hs
      obtain ⟨t, ht, rfl⟩ := List.mem_map.mp hs
      exact Stmt.all_mapReturns (all_checkBlock e hcontract) t (hstmts t ht)
    · exact Emitter.all_expectation _ (Emitter.all_reference _ _) hcontract

theorem all_toBlock {b : FunctionBody} (site : Nat) (h : (Node.body b).All W) :
    (Node.body (b.toBlock site)).All W := by
  cases b with
  | block b => exact h
  | concise value =>
    have hvalue : (Node.expr value).All W := h.part (by simp [Node.parts])
    have hreturn : (Node.stmt (.ret value.span (some value) site)).All W := by
      rw [Node.all_stmt rfl]
      simp [Stmt.parts, hvalue]
    rw [Node.all_of_ordinary rfl]
    simpa [FunctionBody.toBlock, Node.children, Node.parts, Node.metadata] using hreturn

/-- Putting checks in brings in nothing that would be excluded. -/
theorem Function.all_instrument (names : RuntimeNames) (fn : Function) {span : Span} {stmts : List Stmt}
    (hbody : fn.body = .block ⟨span, stmts⟩) (hflag : fn.instrumented = false) (hsites : fn.checkedSites = [])
    (hnodup : (listSites stmts).Nodup) (h : ∀ m ∈ (Node.function fn).children, m.All W)
    (hfn : W (.function (fn.instrument names).1)) : (Node.function (fn.instrument names).1).All W := by
  have hstmts : ∀ s ∈ stmts, (Node.stmt s).All W := by
    have hb := h (.body fn.body) (by simp [Node.children, Node.parts])
    rw [hbody] at hb
    have hblock : (Node.block ⟨span, stmts⟩).All W := hb.part (by simp [Node.parts])
    exact Node.all_block.mp hblock
  have hchecked := all_checkedStmts (.startingAt names span) h span hstmts
  obtain ⟨sites, hrun⟩ := fn.instrument_fresh names hbody hflag hsites hnodup
  refine Node.all_iff.mpr ⟨hfn, fun m hm => ?_⟩
  rw [hrun] at hm
  -- Only the body is new.
  simp only [Node.children, Node.parts, List.mem_append, List.mem_singleton] at hm h
  rcases hm with (hm | rfl) | hm
  · exact h m (.inl (.inl hm))
  · rw [Node.all_of_ordinary rfl]
    simpa [Node.children, Node.parts, Node.metadata] using hchecked
  · exact h m (.inr hm)

end

end LabelWeaver
