import LabelWeaver.Span
import LabelWeaver.Token.Word
import LabelWeaver.Token.Punct

/-! Tokens and comments. A token knows its kind, its span and whether a line break stands before
    it. `Token.regexAllowed` is the rule that tells a regular expression from a division: it looks
    at the two tokens before the slash. -/

namespace LabelWeaver

/-- The signs of the annotation language. -/
inductive Marker where
  /-- Opens a label list. -/
  | labelOpen
  /-- Closes a label list. -/
  | labelClose
  /-- Announces a constraint on a named property. -/
  | shapeNamed
  /-- Announces a constraint on every property. -/
  | shapeEvery
  /-- Announces a constraint on the number of properties. -/
  | shapeCount
  /-- Announces the annotation of the receiver. -/
  | receiver
  deriving DecidableEq, Repr

def Marker.spelling : Marker → String
  | labelOpen => "<!"
  | labelClose => "!>"
  | shapeNamed => ":S"
  | shapeEvery => ":A"
  | shapeCount => ":E"
  | receiver => ":this"

namespace Token

/-- The kinds of tokens. A number keeps its spelling, a string holds its decoded value. -/
inductive Kind where
  | reserved (word : Reserved)
  | contextual (word : Contextual)
  | marker (mark : Marker)
  | punct (sign : Punct)
  | ident (name : String)
  | number (text : String)
  | string (value : String)
  | regex (pattern flags : String)
  | eof
  deriving DecidableEq, Repr

instance : Coe Reserved Kind := ⟨.reserved⟩
instance : Coe Contextual Kind := ⟨.contextual⟩
instance : Coe Marker Kind := ⟨.marker⟩
instance : Coe Punct Kind := ⟨.punct⟩

namespace Kind

/-- Equality of kinds that ignores what names and literals contain. -/
def sameSort : Kind → Kind → Bool
  | ident _, ident _ => true
  | number _, number _ => true
  | string _, string _ => true
  | regex _ _, regex _ _ => true
  | a, b => a == b

/-- The name that the token stands for in a binding or an expression. -/
def identText? : Kind → Option String
  | ident name => some name
  | contextual word => some word.text
  | _ => none

/-- The name that the token stands for after a dot or as a property key, where reserved words are
    names too. -/
def propertyText? : Kind → Option String
  | reserved word => some word.text
  | k => k.identText?

/-- Whether the token can end an operand, so that a slash after it divides. -/
def endsOperand : Kind → Bool
  | ident _ | number _ | string _ | regex _ _ | contextual _ => true
  | reserved .kwThis | reserved .kwNull | reserved .kwTrue | reserved .kwFalse => true
  | punct .rparen | punct .rbracket | punct .plusPlus | punct .minusMinus => true
  | _ => false

/-- Punctuators that diagnostics quote; the others they call by name. -/
def quotedSign : Punct → Bool
  | .lparen | .rparen | .lbrace | .rbrace | .lbracket | .rbracket | .semi | .comma | .dot
  | .ellipsis | .question | .colon | .arrow | .eq | .star => true
  | _ => false

/-- What diagnostics call the token. -/
def describe : Kind → String
  | reserved word => "'" ++ word.text ++ "'"
  | contextual word => "'" ++ word.text ++ "'"
  | marker mark => "'" ++ mark.spelling ++ "'"
  | punct sign =>
    if quotedSign sign then "'" ++ sign.spelling ++ "'" else "operator " ++ sign.name
  | ident name => "identifier '" ++ name ++ "'"
  | number text => "number '" ++ text ++ "'"
  | string _ => "string literal"
  | regex _ _ => "regular expression"
  | eof => "end of input"

@[simp] theorem sameSort_self (k : Kind) : k.sameSort k = true := by
  cases k <;> simp [sameSort]

@[simp] theorem sameSort_punct (k : Kind) (p : Punct) : k.sameSort (punct p) = (k == punct p) := by
  cases k <;> rfl

@[simp] theorem sameSort_reserved (k : Kind) (w : Reserved) :
    k.sameSort (reserved w) = (k == reserved w) := by
  cases k <;> rfl

@[simp] theorem sameSort_contextual (k : Kind) (w : Contextual) :
    k.sameSort (contextual w) = (k == contextual w) := by
  cases k <;> rfl

@[simp] theorem sameSort_marker (k : Kind) (m : Marker) :
    k.sameSort (marker m) = (k == marker m) := by
  cases k <;> rfl

@[simp] theorem sameSort_eof (k : Kind) : k.sameSort eof = (k == eof) := by
  cases k <;> rfl

end Kind

/-- Whether a slash after `last` starts a regular expression. The annotation words expect an operand
    only in their roles: `is` and `where` follow an operand, `assert` starts a statement. -/
def regexAllowed (before last : Option Kind) : Bool :=
  match last with
  | none => true
  | some (.contextual .kwIs) | some (.contextual .kwWhere) => before.any Kind.endsOperand
  | some (.contextual .kwAssert) =>
    before.all fun k => k == .punct .semi || k == .punct .lbrace || k == .punct .rbrace
  | some k => !k.endsOperand

end Token

/-- A token of the source. -/
structure Token where
  kind : Token.Kind
  span : Span
  /-- A line break separates the token from the one before it. -/
  newlineBefore : Bool
  deriving DecidableEq, Repr

/-- A name and where it is written. -/
structure Name where
  span : Span
  text : String
  deriving DecidableEq, Repr

/-- The two forms of comments. -/
inductive CommentKind where
  | line
  | block
  deriving DecidableEq, Repr

/-- A comment of the source; `text` leaves out the delimiters. -/
structure Comment where
  span : Span
  kind : CommentKind
  text : String
  deriving DecidableEq, Repr

end LabelWeaver
