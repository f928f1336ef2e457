import LabelWeaver.Tree.Pattern
import LabelWeaver.Cursor.Loop
import LabelWeaver.Token.Stream

/-! The productions of the language and how they are extended. The productions call each other, and
    only after at least one token is read; `Rules` holds those that are called in this way. A layer
    changes some productions: it is given the productions of the layers below it. A grammar is a
    list of layers, the outermost first, over the base language. -/

namespace LabelWeaver

/-- The productions as other productions call them. -/
structure Rules where
  statement : Parse Stmt
  /-- Expressions, sequences included. -/
  expr : Parse Expr
  assign : Parse Expr
  conditional : Parse Expr
  /-- Expressions whose operators bind at least as tightly as given. -/
  binary : Prec → Parse Expr
  unary : Parse Expr
  /-- Expressions that start with `new`. -/
  new : Parse Expr
  binding : Parse Pattern
  /-- A function from its parameter list on: where it starts, its name, whether it is an arrow. -/
  function : Span → Option Name → Bool → Parse Function

/-- The productions where no token is left to read. -/
def Rules.exhausted : Rules where
  statement := Parse.failHere .unexpectedEnd
  expr := Parse.failHere .unexpectedEnd
  assign := Parse.failHere .unexpectedEnd
  conditional := Parse.failHere .unexpectedEnd
  binary _ := Parse.failHere .unexpectedEnd
  unary := Parse.failHere .unexpectedEnd
  new := Parse.failHere .unexpectedEnd
  binding := Parse.failHere .unexpectedEnd
  function _ _ _ := Parse.failHere .unexpectedEnd

/-- An extension of the language. Each production is made from the one below; by default nothing is
    changed. -/
structure Layer where
  /-- Reads the tokens that the layer adds. -/
  scan : Scanner := fun _ => none
  statement : Rules → Parse Stmt → Parse Stmt := fun _ inner => inner
  /-- A binding target: a name or a pattern. -/
  binding : Rules → Parse Pattern → Parse Pattern := fun _ inner => inner
  /-- An expression that is no operator applied to others. -/
  atom : Rules → Parse Expr → Parse Expr := fun _ inner => inner
  /-- The operators after an operand. -/
  trailing : Rules → (Expr → Parse Expr) → Expr → Parse Expr := fun _ inner => inner
  /-- The parameter list and what stands between it and the body. -/
  params : Rules → (Function → Parse Function) → Function → Parse Function := fun _ inner => inner
  body : Rules → (Function → Parse Function) → Function → Parse Function := fun _ inner => inner

/-- The layer that changes nothing. -/
def Layer.plain : Layer := {}

/-- Layers over the base language, the outermost first. -/
abbrev Grammar := List Layer

/-- The tokens that the layers add; the outermost layer is asked first. -/
def Grammar.scan (g : Grammar) : Scanner := fun cs => g.findSome? (·.scan cs)

end LabelWeaver
