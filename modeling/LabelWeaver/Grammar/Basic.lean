import LabelWeaver.Grammar.Stmt

/-! The productions tied together, and the readers of whole sources. A production calls another one
    through `Rules` only after it has read a token, so with `n` tokens left, `n + 1` levels of rules
    are more than any run can use. -/

namespace LabelWeaver.Grammar

open Parse

/-- The productions with `depth` levels of calls below them. -/
def rules (g : Grammar) : (depth : Nat) → Rules
  | 0 => .exhausted
  | depth + 1 => {
      statement := fun c => statement g (rules g depth) c
      expr := fun c => expr g (rules g depth) c
      assign := fun c => assign g (rules g depth) c
      conditional := fun c => conditional g (rules g depth) c
      binary := fun least c => binary g (rules g depth) least c
      unary := fun c => unary g (rules g depth) c
      new := fun c => new g (rules g depth) c
      binding := fun c => binding g (rules g depth) c
      function := fun start name isArrow c => function g (rules g depth) start name isArrow c }

variable {α : Type}

/-- Runs a production with as many levels of rules as the tokens left can use. -/
def run (g : Grammar) (p : Rules → Parse α) : Parse α := fun c =>
  p (g.rules (c.rest.length + 1)) c

/-- An expression with nothing behind it. -/
def wholeExpr (r : Rules) : Parse Expr := do
  let e ← r.expr
  if ← isAt .eof then return e
  failHere .trailingInput

end LabelWeaver.Grammar

namespace LabelWeaver

/-- What can be wrong with a source. -/
inductive SourceError where
  | lex (error : LexError)
  | syntactic (error : SyntaxError)

namespace SourceError

def message : SourceError → String
  | lex e => e.message
  | syntactic e => e.message

def span : SourceError → Span
  | lex e => e.span
  | syntactic e => e.span

end SourceError

namespace Grammar

variable {α : Type}

/-- The tokens and comments of a source under a grammar. -/
def read (g : Grammar) (source : String) : Except SourceError Lexed :=
  (Lexed.read g.scan source).mapError .lex

/-- Runs a production at the start of some tokens. -/
def parse (g : Grammar) (p : Rules → Parse α) (tokens : List Token) : Except SourceError α :=
  match g.run p (.start tokens) with
  | .ok a _ => .ok a
  | .error e _ => .error (.syntactic e)

/-- Reads a program with its comments. -/
def parseProgram (g : Grammar) (source : String) : Except SourceError Program := do
  let lexed ← g.read source
  return ⟨← g.parse program lexed.tokens, lexed.comments⟩

/-- Reads a source that is one expression. -/
def parseExpr (g : Grammar) (source : String) : Except SourceError Expr := do
  g.parse wholeExpr (← g.read source).tokens

end Grammar

end LabelWeaver
