import LabelWeaver.Check.Demand
import LabelWeaver.Tree.Pattern

/-! Checks in annotated functions. In front of the body stand the checks on the arguments; every
    return statement that belongs to the function is preceded by the checks on its value; the end of
    the body is checked too, since a function that runs to its end returns `undefined`. Functions
    inside the body are left alone. -/

namespace LabelWeaver

/-- The function has an annotation that demands something. -/
def Function.needsChecks (fn : Function) : Bool :=
  fn.receiver.any (!·.isEmpty) || (fn.params.flatMap Pattern.bindings).any (!·.demand.isEmpty) ||
    fn.condition.isSome || fn.returns.any (!·.isEmpty)

/-- Turns the body of an arrow that is a single expression into a block that returns it. -/
def FunctionBody.toBlock (site : Nat) : FunctionBody → FunctionBody
  | .concise value => .block ⟨value.span, [.ret value.span (some value) site]⟩
  | body => body

/-- Evaluating the expression twice cannot be noticed. -/
def Expr.isSimple : Expr → Bool
  | ident _ _ | this _ | null _ | bool _ _ | number _ _ | string _ _ => true
  | _ => false

/-! ### Return statements -/

namespace Instrument

/-- Adds a number to an ascending list. -/
def insertSite (site : Nat) : List Nat → List Nat
  | [] => [site]
  | s :: sites =>
    if site < s then site :: s :: sites
    else if site = s then s :: sites
    else s :: insertSite site sites

/-- A return statement behind the checks on its value, which is evaluated once. -/
def wrap (e : Emitter) (c : Contract) (span : Span) (argument : Option Expr) (site : Nat) : Stmt :=
  let e := e.moveTo span
  match argument with
  | none => .block (e.block (e.expectation e.undefined c ++ [.ret span none site]))
  | some value =>
    if value.isSimple then
      .block (e.block (e.expectation value c ++ [.ret span (some value) site]))
    else
      let result := e.reference returnVar
      .block (e.block (e.var returnVar value :: e.expectation result c ++
        [.ret span (some result) site]))

mutual

/-- Wraps the return statements in a statement whose numbers are not among the checked ones, and
    adds their numbers to them. -/
def wrapReturns (e : Emitter) (c : Contract) : Stmt → StateM (List Nat) Stmt
  | .ret span argument site => do
    if site ∈ (← get) then return .ret span argument site
    modify (insertSite site)
    return wrap e c span argument site
  | .block ⟨span, stmts⟩ => return .block ⟨span, ← wrapList e c stmts⟩
  | .ifElse span test consequent none =>
    return .ifElse span test (← wrapReturns e c consequent) none
  | .ifElse span test consequent (some alternate) => do
    let consequent ← wrapReturns e c consequent
    return .ifElse span test consequent (some (← wrapReturns e c alternate))
  | .forLoop span init test update body =>
    return .forLoop span init test update (← wrapReturns e c body)
  | .forEach span target values obj body =>
    return .forEach span target values obj (← wrapReturns e c body)
  | .while span test body => return .while span test (← wrapReturns e c body)
  | .doWhile span body test => return .doWhile span (← wrapReturns e c body) test
  | .switch span subject cases => return .switch span subject (← wrapCases e c cases)
  | .tryCatch span ⟨bodySpan, body⟩ handler finalizer => do
    let body ← wrapList e c body
    let handler ← match handler with
      | some ⟨handlerSpan, param, ⟨blockSpan, stmts⟩⟩ =>
        pure (some ⟨handlerSpan, param, ⟨blockSpan, ← wrapList e c stmts⟩⟩)
      | none => pure none
    let finalizer ← match finalizer with
      | some ⟨blockSpan, stmts⟩ => pure (some ⟨blockSpan, ← wrapList e c stmts⟩)
      | none => pure none
    return .tryCatch span ⟨bodySpan, body⟩ handler finalizer
  | s => return s

def wrapList (e : Emitter) (c : Contract) : List Stmt → StateM (List Nat) (List Stmt)
  | [] => return []
  | s :: rest => do
    let s ← wrapReturns e c s
    return s :: (← wrapList e c rest)

def wrapCases (e : Emitter) (c : Contract) : List Case → StateM (List Nat) (List Case)
  | [] => return []
  | ⟨span, test, body⟩ :: rest => do
    let body ← wrapList e c body
    return ⟨span, test, body⟩ :: (← wrapCases e c rest)

end

/-! ### Functions -/

/-- What was added to a function. -/
structure Added where
  preconditions : Nat := 0
  wrappedReturns : Nat := 0
  tailChecks : Nat := 0
  deriving DecidableEq, Repr

def Added.isEmpty (a : Added) : Bool := a == {}

/-- The checks in front of the body: the condition on the arguments, the receiver, then every bound
    name in order. -/
def preconditions (e : Emitter) (fn : Function) : List Stmt :=
  (fn.condition.toList.map fun condition =>
    e.stmt (e.assertCondition condition (fn.displayName ++ " where clause failed"))) ++
  (fn.receiver.elim [] (e.demand (.this e.anchor))) ++
  (fn.params.flatMap Pattern.bindings).flatMap fun b => e.demand (e.reference b.name.text) b.demand

/-- The checks at the end of the body, which stand at its closing brace. -/
def tailChecks (e : Emitter) (body : Span) (c : Contract) : List Stmt :=
  let e := e.moveTo ⟨max (body.stop - 1) body.offset, 0⟩
  e.expectation e.undefined c

/-- The contract of the returned values, if it asks for something. -/
def returnContract? (fn : Function) : Option Contract := fn.returns.filter (!·.isEmpty)

end Instrument

open Instrument

/-- Puts the checks into a function, once; says what was added. Only a body that is a block takes
    checks. -/
def Function.instrument (names : RuntimeNames) (fn : Function) : Function × Added :=
  if fn.instrumented then (fn, {})
  else
    match fn.body with
    | .concise _ => ({ fn with instrumented := true }, {})
    | .block body =>
      let e := Emitter.startingAt names body.span
      let pre := preconditions e fn
      match returnContract? fn with
      | none =>
        ({ fn with body := .block ⟨body.span, pre ++ body.stmts⟩, instrumented := true },
          { preconditions := pre.length })
      | some c =>
        let (stmts, sites) := wrapList e c (pre ++ body.stmts) fn.checkedSites
        let tail := tailChecks e body.span c
        ({ fn with
            body := .block ⟨body.span, stmts ++ tail⟩
            checkedSites := sites
            instrumented := true },
          { preconditions := pre.length
            wrappedReturns := sites.length - fn.checkedSites.length
            tailChecks := tail.length })

end LabelWeaver
