import LabelWeaver.Proofs.Instrument.Checks

/-! Putting the checks into a function is exact. The body becomes the checks on the arguments, the
    statements with a check block for each return the function owns, and the checks at the end; all
    else stays. Reading the check blocks back gives the statements as they were. However often the
    checks are put in, and whatever happens to the annotations in between, no return is wrapped
    twice. -/

namespace LabelWeaver

open Instrument

/-! ### Reading check blocks back -/

/-- The return that a check block stands for: the one at its end, with the value that the block
    stores in front. -/
def heldReturn? (stmts : List Stmt) : Option Stmt :=
  match stmts.getLast? with
  | some (.ret span argument site) =>
    match stmts.head? with
    | some (.var ⟨_, _, [⟨_, _, some value⟩]⟩) => some (.ret span (some value) site)
    | _ => some (.ret span argument site)
  | _ => none

mutual

/-- Replaces the blocks that end in a return by that return. -/
def Stmt.unwrap : Stmt → Stmt
  | .block ⟨span, stmts⟩ => (heldReturn? stmts).getD (.block ⟨span, listUnwrap stmts⟩)
  | .ifElse span test consequent none => .ifElse span test consequent.unwrap none
  | .ifElse span test consequent (some alternate) =>
    .ifElse span test consequent.unwrap (some alternate.unwrap)
  | .forLoop span init test update body => .forLoop span init test update body.unwrap
  | .forEach span target values obj body => .forEach span target values obj body.unwrap
  | .while span test body => .while span test body.unwrap
  | .doWhile span body test => .doWhile span body.unwrap test
  | .switch span subject cases => .switch span subject (caseUnwrap cases)
  | .tryCatch span ⟨bodySpan, body⟩ handler finalizer =>
    .tryCatch span ⟨bodySpan, listUnwrap body⟩
      (match handler with
        | some ⟨handlerSpan, param, ⟨blockSpan, stmts⟩⟩ =>
          some ⟨handlerSpan, param, ⟨blockSpan, listUnwrap stmts⟩⟩
        | none => none)
      (match finalizer with
        | some ⟨blockSpan, stmts⟩ => some ⟨blockSpan, listUnwrap stmts⟩
        | none => none)
  | s => s

def listUnwrap : List Stmt → List Stmt
  | [] => []
  | s :: rest => s.unwrap :: listUnwrap rest

def caseUnwrap : List Case → List Case
  | [] => []
  | ⟨span, test, body⟩ :: rest => ⟨span, test, listUnwrap body⟩ :: caseUnwrap rest

end

theorem heldReturn?_append_ret (stmts : List Stmt) (span : Span) (argument : Option Expr) (site : Nat) :
    heldReturn? (stmts ++ [.ret span argument site]) =
      match (stmts ++ [Stmt.ret span argument site]).head? with
      | some (.var ⟨_, _, [⟨_, _, some value⟩]⟩) => some (.ret span (some value) site)
      | _ => some (.ret span argument site) := by
  simp [heldReturn?]

theorem unwrap_checkBlock (e : Emitter) (c : Contract) (r : Return) :
    (checkBlock e c r).unwrap = r.stmt := by
  obtain ⟨span, argument, site⟩ := r
  -- The first statement of the block tells whether the value is stored.
  have hfirst : ∀ value, ∀ s ∈ ((e.moveTo span).expectation value c).head?, ∃ v, s = .expr span.anchor v := by
    intro value s hs
    exact eq_expr_of_mem_expectation (List.mem_of_mem_head? hs)
  have hplain : ∀ value, heldReturn? ((e.moveTo span).expectation value c ++ [.ret span argument site]) =
      some (.ret span argument site) := by
    intro value
    rw [heldReturn?_append_ret, List.head?_append]
    cases hh : ((e.moveTo span).expectation value c).head? with
    | none => rfl
    | some s =>
      obtain ⟨v, rfl⟩ := hfirst value s hh
      rfl
  simp only [checkBlock, Emitter.block, Stmt.unwrap, Return.stmt]
  cases argument with
  | none =>
    simp only [storedValue, List.nil_append, Option.map_none, hplain, Option.getD_some]
  | some value =>
    by_cases h : value.isSimple
    · simp only [storedValue, checkedValue, h, if_true, List.nil_append, Option.map_some, hplain,
        Option.getD_some]
    · simp only [storedValue, checkedValue, h, Option.map_some, heldReturn?_append_ret]
      rfl

theorem mapReturns_checkBlock_ne_ret (e : Emitter) (c : Contract) (s : Stmt) (span : Span)
    (argument : Option Expr) (site : Nat) : s.mapReturns (checkBlock e c) ≠ .ret span argument site := by
  cases s with
  | ifElse span test consequent alternate => cases alternate <;> nofun
  | block b => cases b; nofun
  | tryCatch span body handler finalizer =>
    rw [Stmt.mapReturns_tryCatch]
    nofun
  | _ => nofun

/-- After all returns got their check blocks, no list of statements ends in a return. -/
theorem heldReturn?_listMapReturns (e : Emitter) (c : Contract) (stmts : List Stmt) :
    heldReturn? (listMapReturns (checkBlock e c) stmts) = none := by
  unfold heldReturn?
  rw [listMapReturns_eq, List.getLast?_map]
  cases stmts.getLast? with
  | none => rfl
  | some s =>
    cases hs : s.mapReturns (checkBlock e c) with
    | ret span argument site => exact absurd hs (mapReturns_checkBlock_ne_ret e c s span argument site)
    | _ => simp only [Option.map_some, hs]

theorem listUnwrap_of {f : Return → Stmt} {stmts : List Stmt}
    (ih : ∀ s ∈ stmts, (s.mapReturns f).unwrap = s) : listUnwrap (listMapReturns f stmts) = stmts := by
  induction stmts with
  | nil => rfl
  | cons s rest ih' =>
    rw [listMapReturns, listUnwrap, ih s List.mem_cons_self,
      ih' fun t ht => ih t (List.mem_cons_of_mem _ ht)]

theorem unwrap_mapReturns (e : Emitter) (c : Contract) (s : Stmt) :
    (s.mapReturns (checkBlock e c)).unwrap = s := by
  induction s using Stmt.owned_induction with
  | ret span argument site => exact unwrap_checkBlock e c ⟨span, argument, site⟩
  | leaf s hs => cases s <;> first | rfl | cases hs
  | block span stmts ih =>
    rw [Stmt.mapReturns, Stmt.unwrap, heldReturn?_listMapReturns, Option.getD_none, listUnwrap_of ih]
  | ifElse span test consequent alternate ih ih' =>
    cases alternate with
    | none => rw [Stmt.mapReturns, Stmt.unwrap, ih]
    | some s => rw [Stmt.mapReturns, Stmt.unwrap, ih, ih' s rfl]
  | forLoop span init test update body ih | forEach span target values obj body ih
  | whileLoop span test body ih | doWhile span body test ih => rw [Stmt.mapReturns, Stmt.unwrap, ih]
  | switch span subject cases ih =>
    rw [Stmt.mapReturns, Stmt.unwrap]
    congr 1
    induction cases with
    | nil => rfl
    | cons k rest ih' =>
      obtain ⟨kspan, test, body⟩ := k
      rw [caseMapReturns, caseUnwrap, listUnwrap_of (ih _ List.mem_cons_self),
        ih' fun k hk => ih k (List.mem_cons_of_mem _ hk)]
  | tryCatch span body handler finalizer ih ihh ihf =>
    obtain ⟨bodySpan, body⟩ := body
    have hb := listUnwrap_of ih
    rcases handler with _ | ⟨handlerSpan, param, blockSpan, stmts⟩
    · rcases finalizer with _ | ⟨finSpan, final⟩
      · simp only [Stmt.mapReturns, Stmt.unwrap, hb]
      · simp only [Stmt.mapReturns, Stmt.unwrap, hb, listUnwrap_of (ihf _ rfl)]
    · have hh := listUnwrap_of (ihh _ rfl)
      rcases finalizer with _ | ⟨finSpan, final⟩
      · simp only [Stmt.mapReturns, Stmt.unwrap, hb, hh]
      · simp only [Stmt.mapReturns, Stmt.unwrap, hb, hh, listUnwrap_of (ihf _ rfl)]

/-! ### Checks own no returns -/

theorem returns_orFail (e : Emitter) (test : Expr) {checks : List Stmt} (h : listReturns checks = []) :
    (e.orFail test checks).returns = [] := by
  simp [Emitter.orFail, Emitter.fail, Emitter.block, Stmt.returns, h]

theorem returns_propsLoop (e : Emitter) {body : List Stmt} (h : listReturns body = []) :
    (e.propsLoop body).returns = [] := by
  simp [Emitter.propsLoop, Emitter.block, Stmt.returns, h]

theorem returns_everyProp (e : Emitter) (value : Expr) (c : Contract) :
    (e.everyProp value c).returns = [] :=
  returns_orFail e _ (by
    simp [Emitter.var, Stmt.returns, returns_propsLoop e (listReturns_expectation e _ c)])

theorem returns_namedProp (e : Emitter) (value prop : Expr) (c : Contract) :
    (e.namedProp value prop c).returns = [] :=
  returns_orFail e _ (listReturns_expectation e _ c)

theorem returns_countProps (e : Emitter) (value count : Expr) (c : Contract) :
    (e.countProps value count c).returns = [] := by
  refine returns_orFail e _ ?_
  have hloop := @returns_propsLoop e
    [.tryCatch e.anchor (e.block (e.expectation (e.currentProp value) c ++ [e.stmt (e.increment hitsVar)]))
      (some ⟨e.anchor, some (e.binding errorVar), e.block []⟩) none]
    (by simp [Emitter.block, Emitter.stmt, Stmt.returns])
  simp only [Emitter.var, Emitter.fail, listReturns_cons, hloop, listReturns_nil]
  simp [Emitter.block, Stmt.returns]

@[simp] theorem listReturns_demand (e : Emitter) (value : Expr) (d : Demand) :
    listReturns (e.demand value d) = [] := by
  refine listReturns_eq_nil fun s hs => ?_
  simp only [Emitter.demand, List.mem_append, List.mem_map] at hs
  rcases hs with ((hs | ⟨c, -, rfl⟩) | ⟨⟨prop, c⟩, -, rfl⟩) | ⟨⟨count, c⟩, -, rfl⟩
  · cases hd : d.expected with
    | none => simp [hd] at hs
    | some c =>
      rw [hd] at hs
      obtain ⟨v, rfl⟩ := eq_expr_of_mem_expectation hs
      rfl
  · exact returns_everyProp e value c
  · exact returns_namedProp e value prop c
  · exact returns_countProps e value count c

@[simp] theorem listReturns_preconditions (e : Emitter) (fn : Function) :
    listReturns (preconditions e fn) = [] := by
  have hparams : listReturns ((fn.params.flatMap Pattern.bindings).flatMap fun b =>
      e.demand (e.reference b.name.text) b.demand) = [] := by
    refine listReturns_eq_nil fun s hs => ?_
    obtain ⟨b, -, hs⟩ := List.mem_flatMap.mp hs
    have hb := listReturns_demand e (e.reference b.name.text) b.demand
    rw [listReturns_eq, List.flatMap_eq_nil_iff] at hb
    exact hb s hs
  rw [preconditions, listReturns_append, listReturns_append, hparams, List.append_nil]
  cases fn.condition <;> cases fn.receiver <;> simp [Emitter.stmt, Stmt.returns]

@[simp] theorem listReturns_tailChecks (e : Emitter) (span : Span) (c : Contract) :
    listReturns (tailChecks e span c) = [] :=
  listReturns_expectation _ _ c

/-- Statements that own no returns stay as they are. -/
theorem listMapReturns_of_nil {f : Return → Stmt} {stmts : List Stmt} (h : listReturns stmts = []) :
    listMapReturns f stmts = stmts := by
  have : listMapReturns f stmts = listMapReturns Return.stmt stmts :=
    listMapReturns_congr fun r hr => by rw [h] at hr; cases hr
  rw [this, listMapReturns_eq_self fun s _ => s.mapReturns_stmt]

theorem listSites_of_nil {stmts : List Stmt} (h : listReturns stmts = []) : listSites stmts = [] := by
  rw [listSites, h, List.map_nil]

/-! ### The checks in front -/

/-- The assertion of the condition on the arguments. -/
def conditionChecks (e : Emitter) (fn : Function) : List Stmt :=
  match fn.condition with
  | none => []
  | some condition => [e.stmt (e.assertCondition condition (fn.displayName ++ " where clause failed"))]

/-- The checks on the receiver. -/
def receiverChecks (e : Emitter) (fn : Function) : List Stmt :=
  match fn.receiver with
  | none => []
  | some d => e.demand (.this e.anchor) d

/-- The checks on the arguments: for each parameter in order, for each name that it binds. -/
def parameterChecks (e : Emitter) (fn : Function) : List Stmt :=
  fn.params.flatMap fun p => p.bindings.flatMap fun b => e.demand (e.reference b.name.text) b.demand

theorem preconditions_eq (e : Emitter) (fn : Function) :
    preconditions e fn = conditionChecks e fn ++ receiverChecks e fn ++ parameterChecks e fn := by
  unfold preconditions conditionChecks receiverChecks parameterChecks
  rw [List.flatMap_assoc]
  cases fn.condition <;> cases fn.receiver <;> rfl

/-! ### One run -/

section
variable {names : RuntimeNames} {fn : Function} {span : Span} {stmts : List Stmt}

/-- A run without a contract for the returned values adds the checks on the arguments only. -/
theorem instrument_of_none (hbody : fn.body = .block ⟨span, stmts⟩) (hflag : fn.instrumented = false)
    (hc : returnContract? fn = none) :
    fn.instrument names =
      ({ fn with
          body := .block ⟨span, preconditions (.startingAt names span) fn ++ stmts⟩
          instrumented := true },
        { preconditions := (preconditions (.startingAt names span) fn).length }) := by
  unfold Function.instrument
  simp only [hflag, hbody, hc]
  rfl

/-- A run with a contract: the checks on the arguments, the statements with check blocks for the
    returns that are not checked yet, the checks at the end. -/
theorem instrument_of_some {c : Contract} (hbody : fn.body = .block ⟨span, stmts⟩)
    (hflag : fn.instrumented = false) (hc : returnContract? fn = some c)
    (hnodup : (listSites stmts).Nodup) :
    fn.instrument names =
      ({ fn with
          body := .block ⟨span, preconditions (.startingAt names span) fn ++
            listMapReturns (checkUnless fn.checkedSites (.startingAt names span) c) stmts ++
            tailChecks (.startingAt names span) span c⟩
          checkedSites := markSites fn.checkedSites (listSites stmts)
          instrumented := true },
        { preconditions := (preconditions (.startingAt names span) fn).length
          wrappedReturns := (markSites fn.checkedSites (listSites stmts)).length - fn.checkedSites.length
          tailChecks := (tailChecks (.startingAt names span) span c).length }) := by
  have hpre := listReturns_preconditions (.startingAt names span) fn
  have hsites : listSites (preconditions (.startingAt names span) fn ++ stmts) = listSites stmts := by
    rw [listSites_append, listSites_of_nil hpre, List.nil_append]
  have hrun := @wrapList_run (.startingAt names span) c fn.checkedSites
    (preconditions (.startingAt names span) fn ++ stmts) (hsites ▸ hnodup)
  rw [hsites, listMapReturns_append, listMapReturns_of_nil hpre] at hrun
  unfold Function.instrument
  simp only [hflag, hbody, hc]
  rw [show wrapList _ c _ fn.checkedSites = _ from hrun]
  rfl

/-- The head of a function stays as it is. -/
theorem instrument_head (names : RuntimeNames) (fn : Function) :
    (fn.instrument names).1.name = fn.name ∧ (fn.instrument names).1.isArrow = fn.isArrow ∧
      (fn.instrument names).1.params = fn.params ∧ (fn.instrument names).1.receiver = fn.receiver := by
  unfold Function.instrument
  dsimp only
  split
  · exact ⟨rfl, rfl, rfl, rfl⟩
  · split
    · exact ⟨rfl, rfl, rfl, rfl⟩
    · split <;> exact ⟨rfl, rfl, rfl, rfl⟩

/-- A function whose checks are in place is left alone. -/
theorem instrument_of_instrumented (h : fn.instrumented = true) : fn.instrument names = (fn, {}) := by
  unfold Function.instrument
  simp only [h, if_true]

end

end LabelWeaver
