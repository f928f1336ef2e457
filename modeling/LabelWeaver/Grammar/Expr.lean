import LabelWeaver.Grammar.Function

/-! Expressions of the base language, from the atoms up to sequences. -/

namespace LabelWeaver.Grammar

open Parse

/-! ### Lists and members -/

/-- An expression, or one with dots that spread it. -/
def spreadOrAssign (r : Rules) : Parse Expr := do
  if ← isAt (.punct .ellipsis) then
    let dots ← advance
    let operand ← r.assign
    return .spread (dots.span.join operand.span) operand
  r.assign

/-- Expressions with commas between them, through the closing token. -/
def exprList (r : Rules) (close : Token.Kind) : Parse (List Expr) :=
  withNoIn false do
    let items ← separated close (spreadOrAssign r)
    let _ ← expect close
    return items

/-- One more access to a member, or one more call if calls are allowed. -/
def memberStep (r : Rules) (allowCall : Bool) (e : Expr) : Parse (Option Expr) := do
  if ← eat (.punct .dot) then
    let name ← expectPropertyName
    return some (.member (e.span.join name.span) e name)
  if ← eat (.punct .lbracket) then
    let prop ← withNoIn false r.expr
    let closing ← expect (.punct .rbracket)
    return some (.index (e.span.join closing.span) e prop)
  if allowCall then
    if ← eat (.punct .lparen) then
      let args ← exprList r (.punct .rparen)
      return some (.call (e.span.join (← prevSpan)) e args)
  return none

/-- The accesses to members, and the calls if allowed, that follow an expression. -/
def memberTail (r : Rules) (allowCall : Bool) (e : Expr) : Parse Expr :=
  extend (memberStep r allowCall) e

/-! ### Literals -/

def arrayLiteral (r : Rules) : Parse Expr := do
  let opening ← expect (.punct .lbracket)
  let items ← withNoIn false (elements (.punct .rbracket) (spreadOrAssign r))
  let closing ← expect (.punct .rbracket)
  return .array (opening.span.join closing.span) items

def property (r : Rules) : Parse Property := do
  if ← eat (.punct .ellipsis) then return .spread (← r.assign)
  let start ← here
  let key ← propKey r
  if ← eat (.punct .colon) then return .keyValue key (← r.assign)
  if ← isAt (.punct .lparen) then return .method key (← r.function start none false)
  match key with
  | .name name => return .shorthand name
  | _ => failHere .expectedKeyColon

def objectLiteral (r : Rules) : Parse Expr := do
  let opening ← expect (.punct .lbrace)
  let props ← withNoIn false (separated (.punct .rbrace) (property r))
  let closing ← expect (.punct .rbrace)
  return .object (opening.span.join closing.span) props

/-- An arrow function or an expression in parentheses. -/
def parenthesized (g : Grammar) (r : Rules) : Parse Expr := do
  if ← look (fun c => arrowFollows 0 c.rest) then
    let fn ← function g r (← here) none true
    return .function fn.span fn
  let _ ← advance
  let inner ← withNoIn false r.expr
  let _ ← expect (.punct .rparen)
  return inner

def functionExpr (g : Grammar) (r : Rules) : Parse Expr := do
  let tok ← advance
  let name ← if ← look Cursor.isAtIdent then some <$> expectIdent else pure none
  let fn ← function g r tok.span name false
  return .function fn.span fn

/-- The expression that a single token stands for. -/
def literal? (tok : Token) : Option Expr :=
  match tok.kind with
  | .reserved .kwThis => some (.this tok.span)
  | .reserved .kwNull => some (.null tok.span)
  | .reserved .kwTrue => some (.bool tok.span true)
  | .reserved .kwFalse => some (.bool tok.span false)
  | .number text => some (.number tok.span text)
  | .string value => some (.string tok.span value)
  | .regex pattern flags => some (.regex tok.span pattern flags)
  | _ => none

/-- An atom of the base language. -/
def baseAtom (g : Grammar) (r : Rules) : Parse Expr := do
  match ← look Cursor.peek? with
  | none => failHere .unexpectedEnd
  | some tok =>
    if let some name := tok.kind.identText? then
      if ← look fun c => c.rest[1]?.any fun t => t.kind == .punct .arrow && !t.newlineBefore then
        return ← nameArrow g r
      let _ ← advance
      return .ident tok.span name
    if let some e := literal? tok then
      let _ ← advance
      return e
    match tok.kind with
    | .punct .lparen => parenthesized g r
    | .punct .lbracket => arrayLiteral r
    | .punct .lbrace => objectLiteral r
    | .reserved .kwFunction => functionExpr g r
    | kind => failAt (.unexpected kind) tok.span

def atom (g : Grammar) (r : Rules) : Parse Expr :=
  g.foldr (fun layer inner => layer.atom r inner) (baseAtom g r)

/-! ### Operators -/

/-- An expression that starts with `new`. -/
def new (g : Grammar) (r : Rules) : Parse Expr := do
  let word ← expect (.reserved .kwNew)
  let callee ← if ← isAt (.reserved .kwNew) then r.new else atom g r
  let callee ← memberTail r false callee
  let args ← if ← eat (.punct .lparen) then exprList r (.punct .rparen) else pure []
  return .new (word.span.join (← prevSpan)) callee args

/-- Accesses and calls. -/
def leftHandSide (g : Grammar) (r : Rules) : Parse Expr := do
  let e ← if ← isAt (.reserved .kwNew) then new g r else atom g r
  memberTail r true e

/-- Fails unless the operand of an increment or decrement can be assigned to. -/
def checkUpdateTarget (e : Expr) : Parse Unit :=
  if e.isTarget then pure () else failAt .invalidUpdateTarget e.span

/-- An increment or decrement after its operand, on the same line. -/
def baseTrailing (e : Expr) : Parse Expr := do
  match (← kind?).bind UpdateOp.ofToken? with
  | none => return e
  | some op =>
    if ← look Cursor.newlineBefore then return e
    checkUpdateTarget e
    let tok ← advance
    return .update (e.span.join tok.span) op false e

def trailing (g : Grammar) (r : Rules) : Expr → Parse Expr :=
  g.foldr (fun layer inner => layer.trailing r inner) baseTrailing

def unary (g : Grammar) (r : Rules) : Parse Expr := do
  let kind ← kind?
  if let some op := kind.bind UnaryOp.ofToken? then
    let tok ← advance
    let operand ← r.unary
    return .unary (tok.span.join operand.span) op operand
  if let some op := kind.bind UpdateOp.ofToken? then
    let tok ← advance
    let operand ← r.unary
    checkUpdateTarget operand
    return .update (tok.span.join operand.span) op true operand
  let e ← leftHandSide g r
  trailing g r e

/-- The binary operator at the cursor. -/
def binaryOp? (c : Cursor) : Option BinaryOp :=
  match c.kind?.bind BinaryOp.ofToken? with
  | some op => if op = .in ∧ c.noIn then none else some op
  | none => none

/-- One more operator that binds at least as tightly as `least`. -/
def binaryStep (r : Rules) (least : Prec) (left : Expr) : Parse (Option Expr) := do
  match ← look binaryOp? with
  | none => return none
  | some op =>
    if op.prec < least then return none
    let _ ← advance
    let right ← r.binary op.rightPrec
    return some (.binary (left.span.join right.span) op left right)

def binary (g : Grammar) (r : Rules) (least : Prec) : Parse Expr := do
  extend (binaryStep r least) (← unary g r)

def conditional (g : Grammar) (r : Rules) : Parse Expr := do
  let test ← binary g r .sequence
  if ← eat (.punct .question) then
    let consequent ← withNoIn false r.assign
    let _ ← expect (.punct .colon)
    let alternate ← r.assign
    return .conditional (test.span.join alternate.span) test consequent alternate
  return test

def assign (g : Grammar) (r : Rules) : Parse Expr := do
  let target ← conditional g r
  match (← kind?).bind AssignOp.ofToken? with
  | none => return target
  | some op =>
    if !target.isTarget then failAt .invalidAssignTarget target.span
    let _ ← advance
    let value ← r.assign
    return .assign (target.span.join value.span) op target value

/-- Expressions of all kinds; several with commas between them are a sequence. -/
def expr (g : Grammar) (r : Rules) : Parse Expr := do
  let first ← assign g r
  if ← eat (.punct .comma) then
    let items ← commaList r.assign
    return .sequence (first.span.join ((items.getLast?.map (·.span)).getD first.span))
      (first :: items)
  return first

end LabelWeaver.Grammar
