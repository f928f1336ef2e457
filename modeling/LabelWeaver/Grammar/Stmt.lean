import LabelWeaver.Grammar.Expr

/-! Statements of the base language. -/

namespace LabelWeaver.Grammar

open Parse

/-- Fails if a pattern outside a parameter list holds the place of a receiver. -/
def rejectReceiver (p : Pattern) : Parse Unit :=
  match p.findThis? with
  | some span => failAt .receiverOutsideParams span
  | none => pure ()

/-! ### Declarations -/

def declarator (r : Rules) : Parse Declarator := do
  let target ← r.binding
  rejectReceiver target
  if ← eat (.punct .eq) then
    let init ← r.assign
    return ⟨target.span.join init.span, target, some init⟩
  return ⟨target.span, target, none⟩

/-- A declaration without what ends it; the cursor is on its first word. -/
def declaration (r : Rules) : Parse Decl := do
  let word ← advance
  let kind := match word.kind with
    | .reserved .kwLet => VarKind.let
    | .reserved .kwConst => .const
    | _ => .var
  let decls ← commaList (declarator r)
  return ⟨word.span.join (← prevSpan), kind, decls⟩

/-- The cursor is on the first word of a declaration. -/
def isAtDeclaration (c : Cursor) : Bool :=
  c.isAt (.reserved .kwVar) || c.isAt (.reserved .kwLet) || c.isAt (.reserved .kwConst)

/-! ### Branches and loops -/

def parenExpr (r : Rules) : Parse Expr := do
  let _ ← expect (.punct .lparen)
  let e ← r.expr
  let _ ← expect (.punct .rparen)
  return e

def ifStmt (r : Rules) : Parse Stmt := do
  let word ← expect (.reserved .kwIf)
  let test ← parenExpr r
  let consequent ← r.statement
  if ← eat (.reserved .kwElse) then
    let alternate ← r.statement
    return .ifElse (word.span.join alternate.span) test consequent (some alternate)
  return .ifElse (word.span.join consequent.span) test consequent none

/-- The cursor is on `in` or on the name `of`. -/
def isAtEach (c : Cursor) : Bool :=
  c.isAt (.reserved .kwIn) || c.kind? == some (.ident "of")

/-- The rest of a loop over keys or values, from `in` or `of` on. -/
def forEachRest (r : Rules) (start : Span) (target : ForTarget) : Parse Stmt := do
  let values := !(← isAt (.reserved .kwIn))
  let _ ← advance
  let object ← if values then r.assign else r.expr
  let _ ← expect (.punct .rparen)
  let body ← r.statement
  return .forEach (start.join body.span) target values object body

/-- The rest of a counting loop, from the first semicolon on. -/
def forLoopRest (r : Rules) (start : Span) (init : ForInit) : Parse Stmt := do
  let _ ← expect (.punct .semi)
  let test ← if ← isAt (.punct .semi) then pure none else some <$> r.expr
  let _ ← expect (.punct .semi)
  let update ← if ← isAt (.punct .rparen) then pure none else some <$> r.expr
  let _ ← expect (.punct .rparen)
  let body ← r.statement
  return .forLoop (start.join body.span) init test update body

def forStmt (r : Rules) : Parse Stmt := do
  let word ← expect (.reserved .kwFor)
  let _ ← expect (.punct .lparen)
  if ← isAt (.punct .semi) then return ← forLoopRest r word.span .none
  if ← look isAtDeclaration then
    let decl ← withNoIn true (declaration r)
    if ← look isAtEach then
      if let [⟨_, target, none⟩] := decl.decls then
        return ← forEachRest r word.span (.var decl.kind target)
    return ← forLoopRest r word.span (.var decl)
  let e ← withNoIn true r.expr
  if ← look isAtEach then
    if !e.isTarget then failAt .invalidLoopTarget e.span
    return ← forEachRest r word.span (.expr e)
  forLoopRest r word.span (.expr e)

def whileStmt (r : Rules) : Parse Stmt := do
  let word ← expect (.reserved .kwWhile)
  let test ← parenExpr r
  let body ← r.statement
  return .while (word.span.join body.span) test body

def doWhileStmt (r : Rules) : Parse Stmt := do
  let word ← expect (.reserved .kwDo)
  let body ← r.statement
  let _ ← expect (.reserved .kwWhile)
  let test ← parenExpr r
  let _ ← eat (.punct .semi)
  return .doWhile (word.span.join (← prevSpan)) body test

/-! ### Switch -/

/-- The cursor is where the statements of a case end. -/
def isAtCaseEnd (c : Cursor) : Bool :=
  c.isAt (.reserved .kwCase) || c.isAt (.reserved .kwDefault) || c.isAt (.punct .rbrace) ||
    c.isAt .eof

/-- The head of a case up to the colon: its test, which the default case has not. -/
def caseTest (r : Rules) (seenDefault : Bool) : Parse (Option Expr) := do
  if ← eat (.reserved .kwCase) then return some (← r.expr)
  if ← isAt (.reserved .kwDefault) then
    let tok ← advance
    if seenDefault then failAt .secondDefault tok.span
    return none
  failHere .expectedCase

def casesFrom (r : Rules) : (size : Nat) → (seenDefault : Bool) → Parse (List Case)
  | 0, _ => failHere .unexpectedEnd
  | size + 1, seenDefault => do
    if ← isAt (.punct .rbrace) then return []
    let start ← here
    let test ← caseTest r seenDefault
    let _ ← expect (.punct .colon)
    let body ← many isAtCaseEnd r.statement
    let case : Case := ⟨start.join (← prevSpan), test, body⟩
    return case :: (← casesFrom r size (seenDefault || test.isNone))

def switchStmt (r : Rules) : Parse Stmt := do
  let word ← expect (.reserved .kwSwitch)
  let subject ← parenExpr r
  let _ ← expect (.punct .lbrace)
  let cases ← sized (casesFrom r · false)
  let closing ← expect (.punct .rbrace)
  return .switch (word.span.join closing.span) subject cases

/-! ### Exceptions -/

def handler (r : Rules) : Parse Handler := do
  let word ← expect (.reserved .kwCatch)
  let param ← if ← eat (.punct .lparen) then do
      let param ← r.binding
      rejectReceiver param
      let _ ← expect (.punct .rparen)
      pure (some param)
    else pure none
  let body ← block r
  return ⟨word.span.join body.span, param, body⟩

def tryStmt (r : Rules) : Parse Stmt := do
  let word ← expect (.reserved .kwTry)
  let body ← block r
  let handler ← if ← isAt (.reserved .kwCatch) then some <$> handler r else pure none
  let finalizer ← if ← eat (.reserved .kwFinally) then some <$> block r else pure none
  if handler.isNone && finalizer.isNone then failHere .missingHandler
  return .tryCatch (word.span.join (← prevSpan)) body handler finalizer

def throwStmt (r : Rules) : Parse Stmt := do
  let word ← expect (.reserved .kwThrow)
  if ← look Cursor.newlineBefore then failHere .lineBreakAfterThrow
  let argument ← r.expr
  consumeSemicolon
  return .throw (word.span.join (← prevSpan)) argument

/-! ### All statements -/

/-- A return statement gets its number after those inside its argument. -/
def returnStmt (r : Rules) : Parse Stmt := do
  let word ← expect (.reserved .kwReturn)
  let argument ← if ← look Cursor.isAtStatementEnd then pure none else some <$> r.expr
  consumeSemicolon
  return .ret (word.span.join (← prevSpan)) argument (← freshSite)

def functionStmt (g : Grammar) (r : Rules) : Parse Stmt := do
  let word ← expect (.reserved .kwFunction)
  let name ← expectIdent
  return .function (← function g r word.span (some name) false)

def varStmt (r : Rules) : Parse Stmt := do
  let decl ← declaration r
  consumeSemicolon
  return .var { decl with span := decl.span.join (← prevSpan) }

/-- `break` or `continue`. -/
def jumpStmt (make : Span → Stmt) : Parse Stmt := do
  let word ← advance
  consumeSemicolon
  return make (word.span.join (← prevSpan))

def exprStmt (g : Grammar) (r : Rules) : Parse Stmt := do
  let e ← expr g r
  consumeSemicolon
  return .expr (e.span.join (← prevSpan)) e

/-- A statement of the base language. -/
def baseStatement (g : Grammar) (r : Rules) : Parse Stmt := do
  match ← kind? with
  | none => failHere .unexpectedEnd
  | some (.punct .lbrace) => return .block (← block r)
  | some (.punct .semi) => return .empty (← advance).span
  | some (.reserved word) =>
    match word with
    | .kwVar | .kwLet | .kwConst => varStmt r
    | .kwFunction => functionStmt g r
    | .kwReturn => returnStmt r
    | .kwIf => ifStmt r
    | .kwFor => forStmt r
    | .kwWhile => whileStmt r
    | .kwDo => doWhileStmt r
    | .kwSwitch => switchStmt r
    | .kwTry => tryStmt r
    | .kwThrow => throwStmt r
    | .kwBreak => jumpStmt .break
    | .kwContinue => jumpStmt .continue
    | _ => exprStmt g r
  | some _ => exprStmt g r

def statement (g : Grammar) (r : Rules) : Parse Stmt :=
  g.foldr (fun layer inner => layer.statement r inner) (baseStatement g r)

/-- Statements up to the end of input. -/
def program (r : Rules) : Parse (List Stmt) := many (·.isAt .eof) r.statement

end LabelWeaver.Grammar
