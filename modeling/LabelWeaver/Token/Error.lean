import LabelWeaver.Span

/-! What can be wrong with the text of a source before it is read as tokens. -/

namespace LabelWeaver

/-- The reasons why a text is no sequence of tokens. -/
inductive LexFault where
  | unterminatedComment
  | unterminatedString
  | unterminatedRegex
  | unterminatedEscape
  | invalidHexEscape
  | templateLiteral
  | unexpectedCharacter (c : Char)
  deriving DecidableEq, Repr

def LexFault.message : LexFault → String
  | unterminatedComment => "unterminated block comment"
  | unterminatedString => "unterminated string literal"
  | unterminatedRegex => "unterminated regular expression literal"
  | unterminatedEscape => "unterminated unicode escape"
  | invalidHexEscape => "invalid hex escape in string literal"
  | templateLiteral => "template literals are not supported"
  | unexpectedCharacter c => "unexpected character '" ++ String.singleton c ++ "'"

/-- A fault and where it lies. -/
structure LexError where
  fault : LexFault
  span : Span
  deriving DecidableEq, Repr

def LexError.message (e : LexError) : String := "lex error: " ++ e.fault.message

end LabelWeaver
