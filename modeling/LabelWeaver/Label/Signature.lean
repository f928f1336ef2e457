import LabelWeaver.Label.Contract
import LabelWeaver.Check.Instrument

/-! Annotations of bindings and functions. Suffixes follow the name of a binding; suffixes without a
    name are for the receiver and hold a place in the parameter list. Behind the parameter list
    stand the contract of the receiver, that of the returned values and a condition. -/

namespace LabelWeaver.Label

open Parse

/-- The cursor is on the first sign of a suffix. -/
def isAtSuffix (c : Cursor) : Bool :=
  match c.kind? with
  | some (.punct .colon) | some (.marker .shapeNamed) | some (.marker .shapeCount)
  | some (.marker .shapeEvery) => true
  | _ => false

/-- An expression and a contract in brackets. -/
def shapeArgs (r : Rules) : Parse (Expr × Contract) := do
  let _ ← expect (.punct .lbracket)
  let key ← r.assign
  let _ ← expect (.punct .comma)
  let c ← contract true r
  let _ ← expect (.punct .rbracket)
  return (key, c)

/-- One more suffix. -/
def suffix (r : Rules) (d : Demand) : Parse (Option Demand) := do
  match ← kind? with
  | some (.punct .colon) =>
    let _ ← advance
    return some (d.expect (← contract true r))
  | some (.marker .shapeEvery) =>
    let _ ← advance
    return some (d.addShape (.every (← contract true r)))
  | some (.marker .shapeNamed) =>
    let _ ← advance
    let (prop, c) ← shapeArgs r
    return some (d.addShape (.named prop c))
  | some (.marker .shapeCount) =>
    let _ ← advance
    let (count, c) ← shapeArgs r
    return some (d.addShape (.atLeast count c))
  | _ => return none

def suffixes (r : Rules) (d : Demand) : Parse Demand := extend (suffix r) d

/-- A binding target with its suffixes; suffixes alone are for the receiver. -/
def binding (r : Rules) (inner : Parse Pattern) : Parse Pattern := do
  if ← look isAtSuffix then
    let start ← here
    let d ← suffixes r .none
    return .this (start.join (← prevSpan)) d
  match ← inner with
  | .name b =>
    if ← look isAtSuffix then
      let d ← suffixes r b.demand
      return .name ⟨b.span.join (← prevSpan), b.name, d⟩
    return .name b
  | p => return p

/-- Takes the place of the receiver out of a parameter list; `seen` is what was found before. -/
def takeReceiver (seen : Option Demand) :
    List Pattern → Except SyntaxError (Option Demand × List Pattern)
  | [] => .ok (seen, [])
  | .this span d :: rest =>
    if seen.isSome then .error ⟨.receiverTwice, span⟩ else takeReceiver (some d) rest
  | .withDefault span (.this _ _) _ :: _ => .error ⟨.receiverWithDefault, span⟩
  | p :: rest =>
    match p.findThis? with
    | some span => .error ⟨.receiverInsidePattern, span⟩
    | none => do
      let (d, params) ← takeReceiver seen rest
      return (d, p :: params)

/-- The contract of the receiver behind the parameter list. -/
def receiverContract (r : Rules) (inParams : Option Demand) : Parse (Option Demand) := do
  if ← isAt (.marker .receiver) then
    let tok ← advance
    if inParams.isSome then failAt .receiverAlreadyMarked tok.span
    return some (Demand.none.expect (← contract false r))
  return inParams

/-- A parameter list with the signature behind it. An arrow has no signature behind it. -/
def params (r : Rules) (inner : Function → Parse Function) (fn : Function) : Parse Function := do
  let fn ← inner fn
  match takeReceiver none fn.params with
  | .error e => failAt e.fault e.span
  | .ok (receiver, params) =>
    if fn.isArrow then return { fn with params := params, receiver := receiver }
    let receiver ← receiverContract r receiver
    let returns ← if ← eat (.punct .colon) then some <$> contract false r else pure fn.returns
    let condition ← if ← eat (.contextual .kwWhere) then some <$> r.expr else pure fn.condition
    return { fn with
      params := params, receiver := receiver, returns := returns, condition := condition }

/-- A body, with the checks put in if the function needs them. -/
def body (settings : Settings) (inner : Function → Parse Function) (fn : Function) :
    Parse Function := do
  let fn ← inner fn
  if !settings.enabled || !fn.needsChecks then return fn
  let fn ← match fn.body with
    | .concise _ => pure { fn with body := fn.body.toBlock (← freshSite) }
    | .block _ => pure fn
  return (fn.instrument settings.names).1

end LabelWeaver.Label
