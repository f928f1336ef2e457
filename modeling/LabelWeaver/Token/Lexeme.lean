import LabelWeaver.Token.Basic
import LabelWeaver.Text.Literal

/-! One token at the start of a text. Each recogniser says how many characters belong to its token;
    words, numbers, strings and regular expressions are read as far as they go, so the base token is
    the longest one. Names, numbers and flags are ASCII by definition of the language. -/

namespace LabelWeaver.Lexeme

/-! ### Words and numbers -/

def isIdentStart (c : Char) : Bool := c.isAlpha || c == '_' || c == '$'

def isIdentPart (c : Char) : Bool := c.isAlphanum || c == '_' || c == '$'

/-- The token of a word. -/
def word (text : String) : Token.Kind :=
  match Reserved.ofText? text with
  | some w => .reserved w
  | none => .ident text

def isHexDigit (c : Char) : Bool := (Literal.hexValue? c).isSome

/-- The number of characters at the start of the text that satisfy a test. -/
def runLength (p : Char → Bool) (cs : List Char) : Nat := (cs.takeWhile p).length

/-- The length of an exponent, zero if there is none. -/
def exponentLength : List Char → Nat
  | e :: cs =>
    if e == 'e' || e == 'E' then
      match cs with
      | '+' :: ds | '-' :: ds =>
        if runLength Char.isDigit ds = 0 then 0 else 2 + runLength Char.isDigit ds
      | ds => if runLength Char.isDigit ds = 0 then 0 else 1 + runLength Char.isDigit ds
    else 0
  | [] => 0

/-- The length of a number that starts with a digit: an integer, a fraction, an exponent. -/
def decimalLength (cs : List Char) : Nat :=
  let whole := runLength Char.isDigit cs
  match cs.drop whole with
  | '.' :: ds =>
    let mantissa := whole + 1 + runLength Char.isDigit ds
    mantissa + exponentLength (cs.drop mantissa)
  | rest => whole + exponentLength rest

/-- The length of the number at the start of the text, zero if there is none. -/
def numberLength (cs : List Char) : Nat :=
  match cs with
  | '0' :: x :: ds =>
    if (x == 'x' || x == 'X') && runLength isHexDigit ds != 0 then 2 + runLength isHexDigit ds
    else decimalLength cs
  | '.' :: ds =>
    let digits := runLength Char.isDigit ds
    if digits = 0 then 0 else 1 + digits + exponentLength (ds.drop digits)
  | d :: _ => if d.isDigit then decimalLength cs else 0
  | [] => 0

/-! ### Strings and regular expressions -/

/-- The length of a string body, the closing quote not counted. A backslash takes the character
    after it along, and a line break only with one. -/
def stringBody? (quote : Char) : List Char → Option Nat
  | '\\' :: '\r' :: '\n' :: cs => (stringBody? quote cs).map (· + 3)
  | '\\' :: _ :: cs => (stringBody? quote cs).map (· + 2)
  | c :: cs =>
    if c = quote then some 0
    else if c = '\n' ∨ c = '\r' ∨ c = '\\' then none
    else (stringBody? quote cs).map (· + 1)
  | [] => none

/-- The length of a regular expression up to its closing slash. Inside a class a slash is an
    ordinary character; a line break ends the attempt. -/
def regexBody? (inClass escaped : Bool) : List Char → Option Nat
  | [] => none
  | c :: cs =>
    if c = '\n' ∨ c = '\r' then none
    else if escaped then (regexBody? inClass false cs).map (· + 1)
    else if c = '\\' then (regexBody? inClass true cs).map (· + 1)
    else if c = '[' then (regexBody? true false cs).map (· + 1)
    else if c = ']' then (regexBody? false false cs).map (· + 1)
    else if c = '/' ∧ !inClass then some 0
    else (regexBody? inClass false cs).map (· + 1)

/-- The regular expression whose opening slash is at `pos`; `cs` is what follows the slash. -/
def regex (pos : Nat) (cs : List Char) : Except LexError (Token.Kind × Nat) :=
  match regexBody? false false cs with
  | none => .error ⟨.unterminatedRegex, ⟨pos, 1⟩⟩
  | some n =>
    let flags := (cs.drop (n + 1)).takeWhile isIdentPart
    .ok (.regex (String.ofList (cs.take n)) (String.ofList flags), n + 2 + flags.length)

/-! ### The base token -/

/-- The fault of a text that starts with no token. -/
def faultOf (c : Char) : LexFault :=
  if c = '"' ∨ c = '\'' then .unterminatedString
  else if c = '\x60' then .templateLiteral
  else .unexpectedCharacter c

/-- The base token at the start of a text that begins at byte `pos`, and its number of
    characters. -/
def base (pos : Nat) : List Char → Except LexError (Token.Kind × Nat)
  | [] => .ok (.eof, 0)
  | c :: cs =>
    if isIdentStart c then
      let text := (c :: cs).takeWhile isIdentPart
      .ok (word (String.ofList text), text.length)
    else if numberLength (c :: cs) ≠ 0 then
      let n := numberLength (c :: cs)
      .ok (.number (String.ofList ((c :: cs).take n)), n)
    else if c = '"' ∨ c = '\'' then
      match stringBody? c cs with
      | none => .error ⟨.unterminatedString, ⟨pos, c.utf8Size⟩⟩
      | some n => (Literal.unescape (pos + 1) (cs.take n)).map fun value => (.string value, n + 2)
    else match Punct.scan (c :: cs) with
      | some p => .ok (.punct p, p.spelling.length)
      | none => .error ⟨faultOf c, ⟨pos, c.utf8Size⟩⟩

end LabelWeaver.Lexeme
