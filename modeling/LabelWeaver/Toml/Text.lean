import LabelWeaver.Toml.Reader
import LabelWeaver.Text.Literal

/-! Strings and keys of TOML documents. -/

namespace LabelWeaver.Toml.Reader

/-- The character with a code of so many hexadecimal digits. -/
def codeChar (digits : Nat) : Reader Char := fun cs =>
  if (cs.take digits).length = digits then
    match Literal.hexNumber? (cs.take digits) with
    | some n => if n.isValidChar then some (Char.ofNat n, cs.drop digits) else none
    | none => none
  else none

/-- What an escape stands for; the backslash is already read. -/
def escape : Reader Char := do
  match ← satisfy fun _ => true with
  | 'b' => return '\x08'
  | 't' => return '\t'
  | 'n' => return '\n'
  | 'f' => return '\x0c'
  | 'r' => return '\r'
  | '"' => return '"'
  | '\\' => return '\\'
  | 'u' => codeChar 4
  | 'U' => codeChar 8
  | _ => failure

/-- Characters that stand for themselves between double quotes. -/
def isPlain (c : Char) : Bool := isCommentChar c && c != '"' && c != '\\'

/-- Characters between single quotes. -/
def isVerbatim (c : Char) : Bool := isCommentChar c && c != '\''

def basicString : Reader String := do
  char '"'
  let cs ← many (satisfy isPlain <|> do char '\\'; escape)
  char '"'
  return String.ofList cs

def literalString : Reader String := do
  char '\''
  let cs ← takeWhile isVerbatim
  char '\''
  return String.ofList cs

/-! ### Strings of several lines -/

/-- One or two quotes that close nothing, since no further quote follows. -/
def innerQuotes (q : Char) : Reader (List Char) := fun
  | a :: b :: c :: cs =>
    if a == q && b == q && c != q then some ([q, q], c :: cs)
    else if a == q && b != q then some ([q], b :: c :: cs)
    else none
  | [a, b] => if a == q && b != q then some ([q], [b]) else none
  | _ => none

/-- The three closing quotes; up to two quotes in front of them belong to the text. -/
def closingQuotes (q : Char) : Reader (List Char) :=
  (do text [q, q, q, q, q]; return [q, q]) <|> (do text [q, q, q, q]; return [q]) <|>
    (do text [q, q, q]; return [])

/-- A line break that is left out, with the blanks and line breaks behind it. -/
def lineContinuation : Reader Unit := do
  blanks
  newline
  let blankChar : Reader Unit := do
    let _ ← satisfy fun c => c == ' ' || c == '\t'
  let _ ← many (blankChar <|> newline)

/-- Text between three quotes; a line break right behind the first three is left out. -/
def multiline (q : Char) (part : Reader (List Char)) : Reader String := do
  text [q, q, q]
  let _ ← optional newline
  let parts ← many (part <|> (do newline; return ['\n']) <|> innerQuotes q)
  let last ← closingQuotes q
  return String.ofList (parts.flatten ++ last)

def multilineBasic : Reader String := multiline '"'
  ((do return [← satisfy isPlain]) <|>
    (do char '\\'; lineContinuation; return []) <|> (do char '\\'; return [← escape]))

def multilineLiteral : Reader String := multiline '\'' (do return [← satisfy isVerbatim])

def string : Reader String := multilineBasic <|> basicString <|> multilineLiteral <|> literalString

/-! ### Keys -/

def isKeyChar (c : Char) : Bool := c.isAlphanum || c == '_' || c == '-'

def bareKey : Reader String := do
  let first ← satisfy isKeyChar
  return String.ofList (first :: (← takeWhile isKeyChar))

/-- One part of a key, with blanks around it. -/
def keyPart : Reader String := do
  blanks
  let part ← basicString <|> literalString <|> bareKey
  blanks
  return part

/-- Arrays, tables between braces and dotted keys nest less deeply than this. -/
def nestingLimit : Nat := 80

/-- A key as the path to it and its last part. -/
def key : Reader (List String × String) := do
  let first ← keyPart
  let rest ← many (do char '.'; keyPart)
  if nestingLimit ≤ rest.length + 1 then failure
  match rest.getLast? with
  | none => return ([], first)
  | some last => return (first :: rest.dropLast, last)

end LabelWeaver.Toml.Reader
