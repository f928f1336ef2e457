import LabelWeaver.Grammar.Pattern

/-! Functions: parameter lists, bodies and arrows. -/

namespace LabelWeaver.Grammar

open Parse

/-- Statements between braces. -/
def block (r : Rules) : Parse Block := do
  let opening ← expect (.punct .lbrace)
  let stmts ← many (·.isAt (.punct .rbrace)) do
    if ← isAt .eof then failHere .unclosedBlock
    r.statement
  let closing ← expect (.punct .rbrace)
  return ⟨opening.span.join closing.span, stmts⟩

/-- The parameter list of the base language; its parameters come after those already there. -/
def baseParams (r : Rules) (fn : Function) : Parse Function := do
  let _ ← expect (.punct .lparen)
  let params ← separated (.punct .rparen) (listElement r)
  let _ ← expect (.punct .rparen)
  return { fn with params := fn.params ++ params }

/-- The body in the base language: a block, or for an arrow also an expression. -/
def baseBody (r : Rules) (fn : Function) : Parse Function := do
  if fn.isArrow && !(← isAt (.punct .lbrace)) then
    return { fn with body := .concise (← r.assign) }
  return { fn with body := .block (← block r) }

def params (g : Grammar) (r : Rules) : Function → Parse Function :=
  g.foldr (fun layer inner => layer.params r inner) (baseParams r)

def body (g : Grammar) (r : Rules) : Function → Parse Function :=
  g.foldr (fun layer inner => layer.body r inner) (baseBody r)

/-- A function from its parameter list on; `start` is where it began. -/
def function (g : Grammar) (r : Rules) (start : Span) (name : Option Name) (isArrow : Bool) :
    Parse Function := do
  let fn ← withNoIn false do
    let fn ← params g r (.blank start name isArrow)
    if isArrow then
      if (← look Cursor.newlineBefore) && (← isAt (.punct .arrow)) then
        failHere .lineBreakBeforeArrow
      let _ ← expect (.punct .arrow)
    body g r fn
  return { fn with span := start.join (← prevSpan) }

/-- An arrow whose parameter list is a single name without parentheses. -/
def nameArrow (g : Grammar) (r : Rules) : Parse Expr := do
  let start ← here
  let name ← expectIdent
  let fn ← withNoIn false do
    let _ ← expect (.punct .arrow)
    body g r { Function.blank start none true with params := [.name ⟨name.span, name, .none⟩] }
  let span := start.join (← prevSpan)
  return .function span { fn with span := span }

/-- Whether an arrow follows the bracket that closes the one at the start of the tokens; `depth`
    brackets are open. -/
def arrowFollows : (depth : Nat) → List Token → Bool
  | _, [] => false
  | depth, tok :: rest =>
    match tok.kind with
    | .punct .lparen | .punct .lbracket | .punct .lbrace => arrowFollows (depth + 1) rest
    | .punct .rparen | .punct .rbracket | .punct .rbrace =>
      if depth ≤ 1 then rest.head?.any fun t => t.kind == .punct .arrow && !t.newlineBefore
      else arrowFollows (depth - 1) rest
    | .eof => false
    | _ => arrowFollows depth rest

end LabelWeaver.Grammar
