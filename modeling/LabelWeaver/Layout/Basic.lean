import LabelWeaver.Layout.Precedence

/-! The canonical layout of trees: one statement a line, four blanks for each level, parentheses only
    where they are needed. A statement is laid out from its first token to its last one; what
    contains it adds the line break behind it. -/

namespace LabelWeaver

namespace Layout

/-- The start of the line of a statement. -/
def lead (depth : Nat) (s : Stmt) : List Piece := [.comments s.span.offset depth, .indent depth]

def comma : List Piece := sign .comma ++ space

/-- Items with a comma and a blank between them. -/
def commaSep : List (List Piece) → List Piece
  | [] => []
  | [item] => item
  | item :: items => item ++ comma ++ commaSep items

/-- Elements of an array; a hole at the end needs a comma of its own. -/
def brackets (items : List (List Piece)) (endsInHole : Bool) : List Piece :=
  sign .lbracket ++ commaSep items ++ (if endsInHole then sign .comma else []) ++
    sign .rbracket

/-- Whether the last element is left out. -/
def endsInHole {α : Type} (items : List (Option α)) : Bool :=
  match items.getLast? with
  | some none => true
  | _ => false

/-- Lines between braces. -/
def braces (depth : Nat) (lines : List Piece) : List Piece :=
  sign .lbrace ++ newline ++ lines ++ indent depth ++ sign .rbrace

def isBlock : Stmt → Bool
  | .block _ => true
  | _ => false

def isIf : Stmt → Bool
  | .ifElse _ _ _ _ => true
  | _ => false

/-- The depth of a part of a statement that may stand on a line of its own. -/
def clauseDepth (sameLine : Bool) (depth : Nat) : Nat := if sameLine then depth else depth + 1

/-- A part of a statement, on the same line or on a line of its own. -/
def clause (sameLine : Bool) (depth : Nat) (s : Stmt) (ps : List Piece) : List Piece :=
  if sameLine then space ++ ps else newline ++ lead (depth + 1) s ++ ps

/-- What stands between a part of a statement and the word that goes on. -/
def clauseGap (sameLine : Bool) (depth : Nat) : List Piece :=
  if sameLine then space else newline ++ indent depth

/-- A property or a parameter that is the place of a receiver is not printed. -/
def isThis : Pattern → Bool
  | .this _ _ => true
  | _ => false

end Layout

open Layout

mutual

/-- The layout of an expression, without parentheses around it. -/
def Expr.layout (depth : Nat) : Expr → List Piece
  | .ident _ name => Layout.name name
  | .this _ => keyword .kwThis
  | .null _ => keyword .kwNull
  | .bool _ value => keyword (if value then .kwTrue else .kwFalse)
  | .number _ text => token (.number text)
  | .string _ value => token (.string value)
  | .regex _ pattern flags => token (.regex pattern flags)
  | .array _ elements => brackets (Layout.elements depth elements) (endsInHole elements)
  | .object _ [] => sign .lbrace ++ sign .rbrace
  | .object _ properties => braces depth (Layout.properties (depth + 1) properties)
  | .function _ fn => fn.layout depth
  | .unary _ op operand =>
    token op.token ++ (match op with
      | .typeof | .void | .delete => space
      | _ => []) ++
      if operand.signsClash op then paren (operand.layout depth)
      else fit .unary operand (operand.layout depth)
  | .update _ op leading operand =>
    if leading then sign op.sign ++ fit .unary operand (operand.layout depth)
    else fit .update operand (operand.layout depth) ++ sign op.sign
  | .binary _ op left right =>
    -- a unary operand on the left of a power needs parentheses
    fit (if op = .pow then .update else op.prec) left (left.layout depth) ++
      spaced op.token ++ fit op.rightPrec right (right.layout depth)
  | .assign _ op target value =>
    fit .call target (target.layout depth) ++ spaced (.punct op.sign) ++
      fit .assign value (value.layout depth)
  | .conditional _ test consequent alternate =>
    fit .or test (test.layout depth) ++ spaced (.punct .question) ++
      fit .assign consequent (consequent.layout depth) ++ spaced (.punct .colon) ++
      fit .assign alternate (alternate.layout depth)
  | .call _ callee args =>
    fit .call callee (callee.layout depth) ++ paren (commaSep (Layout.args depth args))
  | .new _ callee args =>
    keyword .kwNew ++ space ++
      (if callee.containsCall then paren (callee.layout depth)
        else fit .call callee (callee.layout depth)) ++
      paren (commaSep (Layout.args depth args))
  | .member _ obj property =>
    (if obj.isBareInteger then paren (obj.layout depth) else fit .call obj (obj.layout depth)) ++
      sign .dot ++ Layout.name property.text
  | .index _ obj property =>
    (if obj.isBareInteger then paren (obj.layout depth) else fit .call obj (obj.layout depth)) ++
      sign .lbracket ++ property.layout depth ++ sign .rbracket
  | .sequence _ items => commaSep (Layout.args depth items)
  | .spread _ operand => sign .ellipsis ++ fit .assign operand (operand.layout depth)

/-- The elements of an array, each by itself. -/
def Layout.elements (depth : Nat) : List (Option Expr) → List (List Piece)
  | [] => []
  | none :: rest => [] :: Layout.elements depth rest
  | some e :: rest => fit .assign e (e.layout depth) :: Layout.elements depth rest

/-- Expressions of a list, each by itself. -/
def Layout.args (depth : Nat) : List Expr → List (List Piece)
  | [] => []
  | e :: rest => fit .assign e (e.layout depth) :: Layout.args depth rest

/-- Properties of an object literal, each on a line of its own. -/
def Layout.properties (depth : Nat) : List Property → List Piece
  | [] => []
  | [p] => indent depth ++ p.layout depth ++ newline
  | p :: rest =>
    indent depth ++ p.layout depth ++ sign .comma ++ newline ++ Layout.properties depth rest

def Property.layout (depth : Nat) : Property → List Piece
  | .keyValue key value =>
    key.layout depth ++ sign .colon ++ space ++ fit .assign value (value.layout depth)
  | .shorthand name => Layout.name name.text
  | .method key ⟨_, _, params, body, _, _, _, _, _, _⟩ =>
    key.layout depth ++ paren (commaSep (Layout.params depth params)) ++ space ++
      body.layout depth
  | .spread operand => sign .ellipsis ++ fit .assign operand (operand.layout depth)

def PropKey.layout (depth : Nat) : PropKey → List Piece
  | .name name => Layout.name name.text
  | .string value => token (.string value)
  | .number text => token (.number text)
  | .computed key =>
    sign .lbracket ++ fit .assign key (key.layout depth) ++ sign .rbracket

def Function.layout (depth : Nat) : Function → List Piece
  | ⟨_, _, params, .concise value, true, _, _, _, _, _⟩ =>
    paren (commaSep (Layout.params depth params)) ++ spaced (.punct .arrow) ++
      if value.startsLikeStatement then paren (value.layout depth)
      else fit .assign value (value.layout depth)
  | ⟨_, _, params, .block body, true, _, _, _, _, _⟩ =>
    paren (commaSep (Layout.params depth params)) ++ spaced (.punct .arrow) ++
      body.layout depth
  | ⟨_, name, params, body, false, _, _, _, _, _⟩ =>
    keyword .kwFunction ++ space ++
      (match name with
        | some name => Layout.name name.text
        | none => []) ++
      paren (commaSep (Layout.params depth params)) ++ space ++ body.layout depth

/-- The body of a function that is no arrow: always a block. -/
def FunctionBody.layout (depth : Nat) : FunctionBody → List Piece
  | .block body => body.layout depth
  | .concise value =>
    braces depth (indent (depth + 1) ++ keyword .kwReturn ++ space ++ value.layout (depth + 1) ++
      sign .semi ++ newline)

def Block.layout (depth : Nat) : Block → List Piece
  | ⟨span, []⟩ => [.emptyBlock span.stop depth]
  | ⟨span, stmts⟩ =>
    braces depth (Layout.stmts (depth + 1) stmts ++ [.comments span.stop (depth + 1)])

/-- Statements, each on lines of its own. -/
def Layout.stmts (depth : Nat) : List Stmt → List Piece
  | [] => []
  | s :: rest => lead depth s ++ s.layout depth ++ newline ++ Layout.stmts depth rest

/-- The layout of a statement from its first token to its last one. -/
def Stmt.layout (depth : Nat) : Stmt → List Piece
  | .expr _ value => parenIf value.startsLikeStatement (value.layout depth) ++ sign .semi
  | .var decl => decl.layout depth ++ sign .semi
  | .function fn => fn.layout depth
  | .ret _ none _ => keyword .kwReturn ++ sign .semi
  | .ret _ (some value) _ =>
    keyword .kwReturn ++ space ++ value.layout depth ++ sign .semi
  | .ifElse _ test consequent alternate =>
    keyword .kwIf ++ space ++ paren (test.layout depth) ++
      clause (isBlock consequent) depth consequent
        (consequent.layout (clauseDepth (isBlock consequent) depth)) ++
      (match alternate with
        | none => []
        | some s =>
          clauseGap (isBlock consequent) depth ++ keyword .kwElse ++
            clause (isBlock s || isIf s) depth s
              (s.layout (clauseDepth (isBlock s || isIf s) depth)))
  | .forLoop _ init test update body =>
    keyword .kwFor ++ space ++
      paren (init.layout depth ++ sign .semi ++
        (match test with
          | none => []
          | some e => space ++ e.layout depth) ++
        sign .semi ++
        (match update with
          | none => []
          | some e => space ++ e.layout depth)) ++
      clause (isBlock body) depth body (body.layout (clauseDepth (isBlock body) depth))
  | .forEach _ target values obj body =>
    keyword .kwFor ++ space ++
      paren (target.layout depth ++
        spaced (if values then .ident "of" else .reserved .kwIn) ++
        fit .assign obj (obj.layout depth)) ++
      clause (isBlock body) depth body (body.layout (clauseDepth (isBlock body) depth))
  | .while _ test body =>
    keyword .kwWhile ++ space ++ paren (test.layout depth) ++
      clause (isBlock body) depth body (body.layout (clauseDepth (isBlock body) depth))
  | .doWhile _ body test =>
    keyword .kwDo ++
      clause (isBlock body) depth body (body.layout (clauseDepth (isBlock body) depth)) ++
      clauseGap (isBlock body) depth ++ keyword .kwWhile ++ space ++
      paren (test.layout depth) ++ sign .semi
  | .switch span subject cases =>
    keyword .kwSwitch ++ space ++ paren (subject.layout depth) ++ space ++
      braces depth (Layout.cases (depth + 1) cases ++ [.comments span.stop (depth + 1)])
  | .tryCatch _ body handler finalizer =>
    keyword .kwTry ++ space ++ body.layout depth ++
      (match handler with
        | none => []
        | some h => space ++ h.layout depth) ++
      (match finalizer with
        | none => []
        | some b => space ++ keyword .kwFinally ++ space ++ b.layout depth)
  | .throw _ argument => keyword .kwThrow ++ space ++ argument.layout depth ++ sign .semi
  | .break _ => keyword .kwBreak ++ sign .semi
  | .continue _ => keyword .kwContinue ++ sign .semi
  | .block body => body.layout depth
  | .empty _ => sign .semi

/-- The cases of a switch, each with its statements one level deeper. -/
def Layout.cases (depth : Nat) : List Case → List Piece
  | [] => []
  | c :: rest => c.layout depth ++ Layout.cases depth rest

def Case.layout (depth : Nat) : Case → List Piece
  | ⟨span, test, body⟩ =>
    [.comments span.offset depth, .indent depth] ++
      (match test with
        | some e => keyword .kwCase ++ space ++ e.layout depth
        | none => keyword .kwDefault) ++
      sign .colon ++ newline ++ Layout.stmts (depth + 1) body

def Handler.layout (depth : Nat) : Handler → List Piece
  | ⟨_, some param, body⟩ =>
    keyword .kwCatch ++ space ++ paren (param.layout depth) ++ space ++ body.layout depth
  | ⟨_, none, body⟩ => keyword .kwCatch ++ space ++ body.layout depth

def Decl.layout (depth : Nat) : Decl → List Piece
  | ⟨_, kind, decls⟩ => keyword kind.word ++ space ++ commaSep (Layout.declarators depth decls)

def Layout.declarators (depth : Nat) : List Declarator → List (List Piece)
  | [] => []
  | d :: rest => d.layout depth :: Layout.declarators depth rest

def Declarator.layout (depth : Nat) : Declarator → List Piece
  | ⟨_, target, none⟩ => target.layout depth
  | ⟨_, target, some init⟩ =>
    target.layout depth ++ spaced (.punct .eq) ++ fit .assign init (init.layout depth)

def ForInit.layout (depth : Nat) : ForInit → List Piece
  | .none => []
  | .var decl => decl.layout depth
  | .expr value => value.layout depth

def ForTarget.layout (depth : Nat) : ForTarget → List Piece
  | .var kind target => keyword kind.word ++ space ++ target.layout depth
  | .expr target => fit .call target (target.layout depth)

/-- Parameters, each by itself. -/
def Layout.params (depth : Nat) : List Pattern → List (List Piece)
  | [] => []
  | p :: rest => if isThis p then Layout.params depth rest else p.layout depth :: Layout.params depth rest

def Pattern.layout (depth : Nat) : Pattern → List Piece
  | .name ⟨_, name, _⟩ => Layout.name name.text
  | .this _ _ => keyword .kwThis
  | .array _ elements => brackets (Layout.patternElements depth elements) (endsInHole elements)
  | .object _ [] => sign .lbrace ++ sign .rbrace
  | .object _ properties =>
    sign .lbrace ++ space ++ commaSep (Layout.patternProps depth properties) ++
      space ++ sign .rbrace
  | .withDefault _ target value =>
    target.layout depth ++ spaced (.punct .eq) ++ fit .assign value (value.layout depth)
  | .rest _ target => sign .ellipsis ++ target.layout depth

def Layout.patternElements (depth : Nat) : List (Option Pattern) → List (List Piece)
  | [] => []
  | none :: rest => [] :: Layout.patternElements depth rest
  | some p :: rest => p.layout depth :: Layout.patternElements depth rest

def Layout.patternProps (depth : Nat) : List PatternProp → List (List Piece)
  | [] => []
  | p :: rest => p.layout depth :: Layout.patternProps depth rest

def PatternProp.layout (depth : Nat) : PatternProp → List Piece
  | .keyValue key value => key.layout depth ++ sign .colon ++ space ++ value.layout depth
  | .shorthand ⟨_, name, _⟩ none => Layout.name name.text
  | .shorthand ⟨_, name, _⟩ (some value) =>
    Layout.name name.text ++ space ++ sign .eq ++ space ++ fit .assign value (value.layout depth)
  | .rest target => target.layout depth

end

/-! ### Functions have one layout -/

theorem Expr.layout_function (span : Span) (fn : Function) (depth : Nat) :
    (Expr.function span fn).layout depth = fn.layout depth := by
  rw [Expr.layout]

theorem Stmt.layout_function (fn : Function) (depth : Nat) : (Stmt.function fn).layout depth = fn.layout depth := by
  rw [Stmt.layout]

end LabelWeaver
