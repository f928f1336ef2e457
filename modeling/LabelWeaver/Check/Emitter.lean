import LabelWeaver.Layout.Render
import LabelWeaver.Tree.Demand

/-! Construction of the code that checks labels at run time. Every node that is made here has an
    empty span at the anchor, so that no comment of the source moves into generated code. -/

namespace LabelWeaver

/-- The names of the run-time objects that generated code uses. -/
structure RuntimeNames where
  /-- The object with the label operations. -/
  runtime : String := "SecurityAnnotation"
  /-- The object that takes trait rules. -/
  traits : String := "Trait"
  /-- The function that makes symbolic values. -/
  symbol : String := "S$"
  deriving DecidableEq, Repr

/-- How annotations are compiled: read only, or turned into checks. -/
structure Settings where
  enabled : Bool := true
  names : RuntimeNames := {}
  deriving DecidableEq, Repr

/-- What a label is called: its name, or the expression that it refers to. -/
def Label.text : Label → String
  | named _ name _ _ => name.print
  | ref _ target => target.print

/-- Labels as the run-time library reads them. -/
def Label.listText (labels : List Label) : String := " * ".intercalate (labels.map Label.text)

/-- A builder of code: the names it uses and the place where its nodes stand. -/
structure Emitter where
  names : RuntimeNames
  anchor : Span

namespace Emitter

/-- The builder for code at the start of a span. -/
def startingAt (names : RuntimeNames) (span : Span) : Emitter := ⟨names, span.anchor⟩

/-- The same builder at another place. -/
def moveTo (e : Emitter) (span : Span) : Emitter := startingAt e.names span

/-! ### Expressions and statements -/

def reference (e : Emitter) (name : String) : Expr := .ident e.anchor name

def undefined (e : Emitter) : Expr := e.reference "undefined"

def string (e : Emitter) (value : String) : Expr := .string e.anchor value

def number (e : Emitter) (text : String) : Expr := .number e.anchor text

def member (e : Emitter) (object : Expr) (name : String) : Expr :=
  .member e.anchor object ⟨e.anchor, name⟩

def index (e : Emitter) (object property : Expr) : Expr := .index e.anchor object property

def call (e : Emitter) (callee : Expr) (args : List Expr) : Expr := .call e.anchor callee args

def binary (e : Emitter) (left : Expr) (op : BinaryOp) (right : Expr) : Expr :=
  .binary e.anchor op left right

def increment (e : Emitter) (name : String) : Expr :=
  .update e.anchor .incr false (e.reference name)

/-- An expression as a statement; the expression moves to the anchor. -/
def stmt (e : Emitter) (value : Expr) : Stmt := .expr e.anchor (value.moveTo e.anchor)

def block (e : Emitter) (stmts : List Stmt) : Block := ⟨e.anchor, stmts⟩

def binding (e : Emitter) (name : String) : Pattern :=
  .name ⟨e.anchor, ⟨e.anchor, name⟩, .none⟩

/-- The declaration of one variable. -/
def decl (e : Emitter) (name : String) (init : Expr) : Decl :=
  ⟨e.anchor, .var, [⟨e.anchor, e.binding name, some init⟩]⟩

def var (e : Emitter) (name : String) (init : Expr) : Stmt := .var (e.decl name init)

/-! ### Calls of the run-time library -/

def runtime (e : Emitter) (method : String) : Expr := e.member (e.reference e.names.runtime) method

def runtimeCall (e : Emitter) (method : String) (args : List Expr) : Expr :=
  e.call (e.runtime method) args

/-- Declares labels. -/
def declare (e : Emitter) (labels : List Label) : Expr :=
  e.runtimeCall "declare" [e.string (Label.listText labels)]

/-- Declares labels below others. -/
def declareBelow (e : Emitter) (labels parents : List Label) : Expr :=
  e.runtimeCall "extends" [e.string (Label.listText labels), e.string (Label.listText parents)]

def assert (e : Emitter) (value label : Expr) : Expr := e.runtimeCall "assert" [value, label]

/-- A label as an argument: a string with its name, or the expression that it refers to. -/
def labelArg (e : Emitter) : Label → Expr
  | .named _ name _ _ => e.string name.print
  | .ref _ target => target

/-- The value with a label added. -/
def assume (e : Emitter) (value : Expr) (label : Label) : Expr :=
  e.runtimeCall "as" [value, e.labelArg label]

/-- The value with a label removed. -/
def drop (e : Emitter) (value : Expr) (label : Label) : Expr :=
  e.runtimeCall "drop" [value, e.labelArg label]

/-- The function that copies labels from one value to another. -/
def copyLabels (e : Emitter) : Expr := e.runtime "cpAnn"

/-- Gives an object a rule for one of its operations. -/
def traitRule (e : Emitter) (target : Expr) (name : String) (fn : Function) : Expr :=
  e.call (e.member (e.reference e.names.traits) "extend")
    [target, e.string name, .function fn.span fn]

def symbol (e : Emitter) (name : String) (value : Expr) : Expr :=
  e.call (e.reference e.names.symbol) [e.string name, value]

/-- Asserts a condition; the message says what it is for and quotes it. -/
def assertCondition (e : Emitter) (condition : Expr) (what : String) : Expr :=
  e.assert condition (e.string (what ++ ": " ++ condition.print))

end Emitter

end LabelWeaver
