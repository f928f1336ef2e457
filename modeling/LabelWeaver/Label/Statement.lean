import LabelWeaver.Label.Contract
import LabelWeaver.Check.Demand

/-! Statements and operators of the annotation language. Where checks are not wanted, the statements
    become empty ones and the operators leave their operand as it is. -/

namespace LabelWeaver.Label

open Parse Grammar

/-! ### Statements -/

/-- The declaration of labels, which may stand below other labels. -/
def declaration (settings : Settings) (r : Rules) : Parse Stmt := do
  let word ← advance
  let _ ← expect (.marker .labelOpen)
  let labels ← labelsOrNone r
  let parents ← if ← eat (.contextual .kwExtends) then do
      let _ ← expect (.marker .labelOpen)
      some <$> labelsOrNone r
    else pure none
  consumeSemicolon
  let span := word.span.join (← prevSpan)
  if !settings.enabled || labels.isEmpty || parents.any List.isEmpty then return .empty span
  let e := Emitter.startingAt settings.names span
  match parents with
  | some parents => return e.stmt (e.declareBelow labels parents)
  | none => return e.stmt (e.declare labels)

/-- A rule for an operation of an object: the object, the name of the operation, a function. -/
def traitRule (settings : Settings) (r : Rules) : Parse Stmt := do
  let word ← advance
  let target ← r.expr
  let name ← expectIdent
  let start ← here
  let _ ← eat (.reserved .kwFunction)
  let fn ← r.function start none false
  consumeSemicolon
  let span := word.span.join (← prevSpan)
  if !settings.enabled then return .empty span
  let e := Emitter.startingAt settings.names span
  return e.stmt (e.traitRule target name.text fn)

/-- The assertion of a condition, or that a value satisfies a contract. -/
def assertion (settings : Settings) (r : Rules) : Parse Stmt := do
  let word ← advance
  let value ← r.expr
  let c ← if ← eat (.contextual .kwIs) then some <$> contract true r else pure none
  consumeSemicolon
  let span := word.span.join (← prevSpan)
  if !settings.enabled then return .empty span
  let e := Emitter.startingAt settings.names span
  match c with
  | some c => return .block (e.block (e.expectation value c))
  | none => return e.stmt (e.assertCondition value "assertion")

/-- A statement. The words that start a statement here are names before a dot or an assignment
    sign. -/
def statement (settings : Settings) (r : Rules) (inner : Parse Stmt) : Parse Stmt := do
  let usedAsName ← look fun c =>
    c.kindAhead? 1 == some (.punct .dot) || c.kindAhead? 1 == some (.punct .eq)
  if usedAsName then return ← inner
  match ← kind? with
  | some (.contextual .kwSecAnn) => declaration settings r
  | some (.contextual .kwTraitRule) => traitRule settings r
  | some (.contextual .kwAssert) => assertion settings r
  | _ => inner

/-! ### Operators -/

/-- A symbolic value: its name and what it stands for. -/
def symbolic (settings : Settings) (r : Rules) : Parse Expr := do
  let word ← advance
  let name ← expectIdent
  let value ← r.conditional
  if !settings.enabled then return value
  return (Emitter.startingAt settings.names word.span).symbol name.text value

/-- The function that copies labels. Its call is read as any other call if checks are wanted;
    otherwise only the two arguments are left. -/
def copyLabels (settings : Settings) (r : Rules) : Parse Expr := do
  let word ← advance
  if settings.enabled then return (Emitter.startingAt settings.names word.span).copyLabels
  let _ ← expect (.punct .lparen)
  let args ← exprList r (.punct .rparen)
  let span := word.span.join (← prevSpan)
  if args.length ≠ 2 then failAt (.copyArguments args.length) span
  return .sequence span args

def atom (settings : Settings) (r : Rules) (inner : Parse Expr) : Parse Expr := do
  match ← kind?, ← look (·.kindAhead? 1) with
  | some (.contextual .kwSymbolic), some (.ident _) => symbolic settings r
  | some (.ident "cpAnn"), some (.punct .lparen) => copyLabels settings r
  | _, _ => inner

/-- One more operator that adds or removes labels; it stands on the line of its operand. -/
def labelOp (settings : Settings) (r : Rules) (value : Expr) : Parse (Option Expr) := do
  let dropping ← look (·.isAt (.contextual .kwDrop))
  let isOp ← look fun c =>
    (dropping || c.isAt (.contextual .kwAs)) && !c.newlineBefore &&
      c.kindAhead? 1 == some (.marker .labelOpen)
  if !isOp then return none
  let _ ← advance
  let c ← labelContract r
  if !settings.enabled then return some value
  let e := Emitter.startingAt settings.names c.span
  return some (c.labels.foldl (if dropping then e.drop else e.assume) value)

def labelOps (settings : Settings) (r : Rules) (value : Expr) : Parse Expr :=
  extend (labelOp settings r) value

/-- The operators after an operand; label operators stand on either side of the others. -/
def trailing (settings : Settings) (r : Rules) (inner : Expr → Parse Expr) (value : Expr) :
    Parse Expr := do
  let value ← labelOps settings r value
  let value ← inner value
  labelOps settings r value

end LabelWeaver.Label
