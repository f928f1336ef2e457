import LabelWeaver.Token.Basic
import LabelWeaver.Text.Literal

/-! What a printed text is made of: tokens, blanks between them, and the places where comments may
    stand. Comments stand on lines of their own, before a statement, before a case or at the end of
    a block; a place takes those comments of the source that start before it and are not printed
    yet. -/

namespace LabelWeaver

/-- How a token is written. -/
def Token.Kind.spelling : Token.Kind → String
  | reserved word => word.text
  | contextual word => word.text
  | marker mark => mark.spelling
  | punct sign => sign.spelling
  | ident name => name
  | number text => text
  | string value => Literal.quote value
  | regex pattern flags => "/" ++ pattern ++ "/" ++ flags
  | eof => ""

/-- A part of a printed text. -/
inductive Piece where
  | token (kind : Token.Kind)
  | space
  | newline
  /-- The blanks at the start of a line. -/
  | indent (depth : Nat)
  /-- The comments that start before byte `before` of the source. -/
  | comments (before depth : Nat)
  /-- A block without statements, which is one line if no comment starts before byte `stop`. -/
  | emptyBlock (stop depth : Nat)
  deriving DecidableEq, Repr

namespace Piece

/-- The tokens that a piece is written with. -/
def tokens : Piece → List Token.Kind
  | token kind => [kind]
  | emptyBlock _ _ => [.punct .lbrace, .punct .rbrace]
  | space | newline | indent _ | comments _ _ => []

end Piece

/-! ### Layouts of a single piece -/

namespace Layout

abbrev token (kind : Token.Kind) : List Piece := [.token kind]
abbrev sign (sign : Punct) : List Piece := [.token (.punct sign)]
abbrev keyword (word : Reserved) : List Piece := [.token (.reserved word)]

/-- A name, which may be a reserved word after a dot or as a key. -/
abbrev name (text : String) : List Piece := [.token (.ident text)]

abbrev space : List Piece := [.space]
abbrev newline : List Piece := [.newline]
abbrev indent (depth : Nat) : List Piece := [.indent depth]

/-- A sign with a blank on each side. -/
abbrev spaced (kind : Token.Kind) : List Piece := [.space, .token kind, .space]

end Layout

end LabelWeaver
