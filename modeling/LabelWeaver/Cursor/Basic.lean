import LabelWeaver.Cursor.Error

/-! Reading tokens one by one. A cursor holds the tokens that are left, the span of the token read
    last, whether `in` ends an expression (inside the head of a loop it does), and the number of the
    next return statement. A `Parse` reads from a cursor and moves it, whether it succeeds or
    fails. -/

namespace LabelWeaver

structure Cursor where
  /-- The tokens that are not read yet. -/
  rest : List Token
  /-- The span of the token read last. -/
  prev : Span
  /-- Inside the head of a loop, where `in` ends an expression. -/
  noIn : Bool
  /-- The number of the next return statement. -/
  nextSite : Nat

namespace Cursor

/-- The cursor before the first token. -/
def start (tokens : List Token) : Cursor := ⟨tokens, .zero, false, 0⟩

def peek? (c : Cursor) : Option Token := c.rest.head?

def kind? (c : Cursor) : Option Token.Kind := c.peek?.map (·.kind)

/-- The kind of the token `n` places ahead. -/
def kindAhead? (c : Cursor) (n : Nat) : Option Token.Kind := c.rest[n]?.map (·.kind)

/-- The span of the current token; after the last one, that of the token read last. -/
def here (c : Cursor) : Span := (c.peek?.map (·.span)).getD c.prev

/-- The current token is of this kind; what names and literals contain does not matter. -/
def isAt (c : Cursor) (k : Token.Kind) : Bool := c.kind?.any (·.sameSort k)

/-- A line break stands before the current token. -/
def newlineBefore (c : Cursor) : Bool := c.peek?.any (·.newlineBefore)

/-- The current token can be used as a name. -/
def isAtIdent (c : Cursor) : Bool := c.kind?.any (·.identText?.isSome)

/-- A statement may end here without a semicolon of its own. -/
def isAtStatementEnd (c : Cursor) : Bool :=
  c.isAt (.punct .semi) || c.isAt (.punct .rbrace) || c.isAt .eof || c.newlineBefore

end Cursor

/-- A reader of tokens. -/
abbrev Parse := EStateM SyntaxError Cursor

namespace Parse

variable {α : Type}

/-- Looks at the cursor without moving it. -/
def look (f : Cursor → α) : Parse α := fun c => .ok (f c) c

def failAt (fault : SyntaxFault) (span : Span) : Parse α := fun c => .error ⟨fault, span⟩ c

/-- Fails at the current token. -/
def failHere (fault : SyntaxFault) : Parse α := fun c => .error ⟨fault, c.here⟩ c

def here : Parse Span := look Cursor.here
def prevSpan : Parse Span := look Cursor.prev
def kind? : Parse (Option Token.Kind) := look Cursor.kind?
def isAt (k : Token.Kind) : Parse Bool := look (·.isAt k)

/-- Reads a token other than the end of input. -/
def advance : Parse Token := fun c =>
  match c.rest with
  | [] => .error ⟨.unexpectedEnd, c.prev⟩ c
  | tok :: rest =>
    if tok.kind = .eof then .error ⟨.unexpectedEnd, tok.span⟩ c
    else .ok tok { c with rest := rest, prev := tok.span }

/-- Reads the current token if it is of this kind, the end of input included. -/
def eat (k : Token.Kind) : Parse Bool := fun c =>
  match c.rest with
  | tok :: rest =>
    if tok.kind.sameSort k then .ok true { c with rest := rest, prev := tok.span } else .ok false c
  | [] => .ok false c

/-- Reads a token of this kind. -/
def expect (k : Token.Kind) : Parse Token := do
  let tok ← advance
  if tok.kind.sameSort k then return tok
  failAt (.expected k tok.kind) tok.span

/-- Reads a name; the annotation words are names here. -/
def expectIdent : Parse Name := do
  let tok ← advance
  match tok.kind.identText? with
  | some text => return ⟨tok.span, text⟩
  | none => failAt (.expectedIdentifier tok.kind) tok.span

/-- Reads the name of a property; reserved words are names here. -/
def expectPropertyName : Parse Name := do
  let tok ← advance
  match tok.kind.propertyText? with
  | some text => return ⟨tok.span, text⟩
  | none => failAt (.expectedPropertyName tok.kind) tok.span

/-- Ends a statement: by a semicolon, or where none is needed. -/
def consumeSemicolon : Parse Unit := do
  if ← eat (.punct .semi) then return
  if ← look Cursor.isAtStatementEnd then return
  failHere .expectedSemicolon

/-- The number of a return statement; no other statement gets the same. -/
def freshSite : Parse Nat := fun c => .ok c.nextSite { c with nextSite := c.nextSite + 1 }

/-- Runs a reader with another rule for `in`, and puts the old rule back whatever happens. -/
def withNoIn (noIn : Bool) (p : Parse α) : Parse α := fun c =>
  match p { c with noIn := noIn } with
  | .ok a c' => .ok a { c' with noIn := c.noIn }
  | .error e c' => .error e { c' with noIn := c.noIn }

end Parse

end LabelWeaver
