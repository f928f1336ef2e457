import LabelWeaver.Tree.Operator

/-! Syntax trees of the scripting language, with the annotations that its functions and bindings
    carry. Every node knows its span; a node that was made by the compiler has an empty span at the
    place where it belongs. -/

namespace LabelWeaver

mutual

/-- Expressions. Numbers keep their spelling, strings hold their decoded value. -/
inductive Expr where
  | ident (span : Span) (name : String)
  | this (span : Span)
  | null (span : Span)
  | bool (span : Span) (value : Bool)
  | number (span : Span) (text : String)
  | string (span : Span) (value : String)
  | regex (span : Span) (pattern flags : String)
  /-- An array literal; an absent element is a hole. -/
  | array (span : Span) (elements : List (Option Expr))
  | object (span : Span) (properties : List Property)
  | function (span : Span) (fn : Function)
  | unary (span : Span) (op : UnaryOp) (operand : Expr)
  /-- An increment or decrement, written before the operand if `leading`. -/
  | update (span : Span) (op : UpdateOp) (leading : Bool) (operand : Expr)
  | binary (span : Span) (op : BinaryOp) (left right : Expr)
  | assign (span : Span) (op : AssignOp) (target value : Expr)
  | conditional (span : Span) (test consequent alternate : Expr)
  | call (span : Span) (callee : Expr) (args : List Expr)
  | new (span : Span) (callee : Expr) (args : List Expr)
  | member (span : Span) (object : Expr) (property : Name)
  | index (span : Span) (object property : Expr)
  | sequence (span : Span) (items : List Expr)
  | spread (span : Span) (operand : Expr)

/-- Keys of object literals and object patterns. -/
inductive PropKey where
  | name (name : Name)
  | string (value : String)
  | number (text : String)
  | computed (key : Expr)

/-- Properties of object literals. -/
inductive Property where
  | keyValue (key : PropKey) (value : Expr)
  | shorthand (name : Name)
  | method (key : PropKey) (fn : Function)
  | spread (operand : Expr)

/-- Functions of all forms: declarations, expressions, methods and arrows. -/
structure Function where
  span : Span
  name : Option Name
  params : List Pattern
  body : FunctionBody
  isArrow : Bool
  /-- What is demanded of the receiver. -/
  receiver : Option Demand
  /-- What is demanded of every returned value. -/
  returns : Option Contract
  /-- A condition on the arguments as a whole. -/
  condition : Option Expr
  /-- The return sites that carry their checks, in ascending order. -/
  checkedSites : List Nat
  /-- The checks are in place. -/
  instrumented : Bool

inductive FunctionBody where
  | block (body : Block)
  /-- The body of an arrow that is a single expression. -/
  | concise (value : Expr)

/-- Statements between braces. -/
structure Block where
  span : Span
  stmts : List Stmt

/-- Statements. A return statement carries the number that identifies it in its source. -/
inductive Stmt where
  | expr (span : Span) (value : Expr)
  | var (decl : Decl)
  | function (fn : Function)
  | ret (span : Span) (argument : Option Expr) (site : Nat)
  | ifElse (span : Span) (test : Expr) (consequent : Stmt) (alternate : Option Stmt)
  | forLoop (span : Span) (init : ForInit) (test update : Option Expr) (body : Stmt)
  /-- A loop over the values of `object` if `values`, over its keys otherwise. -/
  | forEach (span : Span) (target : ForTarget) (values : Bool) (object : Expr) (body : Stmt)
  | while (span : Span) (test : Expr) (body : Stmt)
  | doWhile (span : Span) (body : Stmt) (test : Expr)
  | switch (span : Span) (subject : Expr) (cases : List Case)
  | tryCatch (span : Span) (body : Block) (handler : Option Handler) (finalizer : Option Block)
  | throw (span : Span) (argument : Expr)
  | break (span : Span)
  | continue (span : Span)
  | block (body : Block)
  | empty (span : Span)

/-- A declaration of variables. -/
structure Decl where
  span : Span
  kind : VarKind
  decls : List Declarator

structure Declarator where
  span : Span
  target : Pattern
  init : Option Expr

/-- The first part of a loop head. -/
inductive ForInit where
  | none
  | var (decl : Decl)
  | expr (value : Expr)

/-- What a loop over keys or values assigns to. -/
inductive ForTarget where
  | var (kind : VarKind) (target : Pattern)
  | expr (target : Expr)

/-- A case of a switch; the default case has no test. -/
structure Case where
  span : Span
  test : Option Expr
  body : List Stmt

/-- The catch clause of a try statement. -/
structure Handler where
  span : Span
  param : Option Pattern
  body : Block

/-- Binding patterns. -/
inductive Pattern where
  | name (binding : Binding)
  /-- The place of the receiver in a parameter list, with what is demanded of it. -/
  | this (span : Span) (demand : Demand)
  | array (span : Span) (elements : List (Option Pattern))
  | object (span : Span) (properties : List PatternProp)
  | withDefault (span : Span) (target : Pattern) (default : Expr)
  | rest (span : Span) (target : Pattern)

inductive PatternProp where
  | keyValue (key : PropKey) (value : Pattern)
  | shorthand (binding : Binding) (default : Option Expr)
  | rest (target : Pattern)

/-- A bound name with what is demanded of its value. -/
structure Binding where
  span : Span
  name : Name
  demand : Demand

/-- What the suffixes of a binding demand of its value. -/
structure Demand where
  expected : Option Contract
  shapes : List Shape

/-- A constraint on the own properties of an object. -/
inductive Shape where
  /-- Every property satisfies the contract. -/
  | every (contract : Contract)
  /-- The named property exists and satisfies the contract. -/
  | named (prop : Expr) (contract : Contract)
  /-- At least so many properties satisfy the contract. -/
  | atLeast (count : Expr) (contract : Contract)

/-- What a value has to satisfy: a base type, labels, a condition. -/
structure Contract where
  span : Span
  base : Option Expr
  labels : List Label
  condition : Option Expr

/-- Security labels. -/
inductive Label where
  /-- A label by its name, with label parameters and dependent values. -/
  | named (span : Span) (name : Expr) (parameters : List Label) (dependants : List Expr)
  /-- The label that an expression evaluates to. -/
  | ref (span : Span) (target : Expr)

end

/-- A program with the comments of its source. -/
structure Program where
  body : List Stmt
  comments : List Comment

/-! ### Spans -/

def Expr.span : Expr → Span
  | ident s _ | this s | null s | bool s _ | number s _ | string s _ | regex s _ _ | array s _
  | object s _ | function s _ | unary s _ _ | update s _ _ _ | binary s _ _ _ | assign s _ _ _
  | conditional s _ _ _ | call s _ _ | new s _ _ | member s _ _ | index s _ _ | sequence s _
  | spread s _ => s

/-- The same expression with another span. -/
def Expr.moveTo (s : Span) : Expr → Expr
  | ident _ name => ident s name
  | this _ => this s
  | null _ => null s
  | bool _ value => bool s value
  | number _ text => number s text
  | string _ value => string s value
  | regex _ pattern flags => regex s pattern flags
  | array _ elements => array s elements
  | object _ properties => object s properties
  | function _ fn => function s fn
  | unary _ op operand => unary s op operand
  | update _ op leading operand => update s op leading operand
  | binary _ op left right => binary s op left right
  | assign _ op target value => assign s op target value
  | conditional _ test consequent alternate => conditional s test consequent alternate
  | call _ callee args => call s callee args
  | new _ callee args => new s callee args
  | member _ obj property => member s obj property
  | index _ obj property => index s obj property
  | sequence _ items => sequence s items
  | spread _ operand => spread s operand

@[simp] theorem Expr.span_moveTo (s : Span) (e : Expr) : (e.moveTo s).span = s := by
  cases e <;> rfl

def Stmt.span : Stmt → Span
  | expr s _ | ret s _ _ | ifElse s _ _ _ | forLoop s _ _ _ _ | forEach s _ _ _ _ | .while s _ _
  | doWhile s _ _ | switch s _ _ | tryCatch s _ _ _ | throw s _ | .break s | .continue s
  | empty s => s
  | var decl => decl.span
  | function fn => fn.span
  | block body => body.span

def Pattern.span : Pattern → Span
  | name binding => binding.span
  | this s _ | array s _ | object s _ | withDefault s _ _ | rest s _ => s

/-! ### Functions -/

/-- A function without parameters and with an empty body. -/
def Function.blank (span : Span) (name : Option Name) (isArrow : Bool) : Function where
  span := span
  name := name
  params := []
  body := .block ⟨span, []⟩
  isArrow := isArrow
  receiver := none
  returns := none
  condition := none
  checkedSites := []
  instrumented := false

/-- The name by which diagnostics call a function. -/
def Function.displayName (fn : Function) : String :=
  match fn.name with
  | some name => name.text
  | none => "anonymous"

/-- Whether an expression can stand on the left of an assignment. -/
def Expr.isTarget : Expr → Bool
  | ident _ _ | member _ _ _ | index _ _ _ => true
  | _ => false

end LabelWeaver
