import LabelWeaver.Text.Bytes
import LabelWeaver.Token.Error

/-! String literals. `quote` writes a text between double quotes with the fewest escapes that the
    language needs; `unescape` reads the body of a literal. Writing and reading are inverse to each
    other: every escape that is written is one that is read. -/

namespace LabelWeaver.Literal

/-! ### Writing -/

/-- The digits of hexadecimal numbers. -/
def hexDigit (n : Nat) : Char := Char.ofNat (if n < 10 then 48 + n else 87 + n)

/-- How one character is written; `next` is the one after it. A NUL is written short unless a digit
    follows, which would be read as part of an octal escape elsewhere. -/
def escapeChar (c : Char) (next : Option Char) : List Char :=
  match c with
  | '"' => ['\\', '"']
  | '\\' => ['\\', '\\']
  | '\n' => ['\\', 'n']
  | '\r' => ['\\', 'r']
  | '\t' => ['\\', 't']
  | '\x08' => ['\\', 'b']
  | '\x0b' => ['\\', 'v']
  | '\x0c' => ['\\', 'f']
  | '\u2028' => ['\\', 'u', '2', '0', '2', '8']
  | '\u2029' => ['\\', 'u', '2', '0', '2', '9']
  | c =>
    if c == '\x00' && !next.any Char.isDigit then ['\\', '0']
    else if c.toNat < 0x20 || c == '\x7f' then
      ['\\', 'x', hexDigit (c.toNat / 16), hexDigit (c.toNat % 16)]
    else [c]

/-- The body of the literal that stands for a text. -/
def escape : List Char → List Char
  | [] => []
  | c :: cs => escapeChar c cs.head? ++ escape cs

/-- The literal that stands for a text. -/
def quote (value : String) : String := String.ofList ('"' :: escape value.toList ++ ['"'])

/-! ### Reading -/

/-- The value of a hexadecimal digit. -/
def hexValue? (c : Char) : Option Nat :=
  if c.isDigit then some (c.toNat - 48)
  else if 'a' ≤ c ∧ c ≤ 'f' then some (c.toNat - 87)
  else if 'A' ≤ c ∧ c ≤ 'F' then some (c.toNat - 55)
  else none

/-- The value of a run of hexadecimal digits, most significant first. -/
def hexNumber? (digits : List Char) : Option Nat :=
  digits.foldlM (fun n c => (hexValue? c).map (16 * n + ·)) 0

/-- The character with a code; codes that are no characters stand for U+FFFD. -/
def charOfCode (code : Nat) : Char := if code.isValidChar then Char.ofNat code else '\ufffd'

/-- The character of a hexadecimal escape: at least one digit and at most 32 bits. -/
def hexChar? (digits : List Char) : Option Char :=
  match digits with
  | [] => none
  | _ => (hexNumber? digits).bind fun n => if n < Nat.pow 2 32 then some (charOfCode n) else none

/-- What one escape stands for: a character or nothing, and how many characters it is long. The
    backslash is already read. A failure carries the number of bytes it covers. -/
def readEscape (cs : List Char) : Except (LexFault × Nat) (Option Char × Nat) :=
  match cs with
  | [] => .ok (none, 0)
  | 'n' :: _ => .ok (some '\n', 1)
  | 't' :: _ => .ok (some '\t', 1)
  | 'r' :: _ => .ok (some '\r', 1)
  | 'b' :: _ => .ok (some '\x08', 1)
  | 'f' :: _ => .ok (some '\x0c', 1)
  | 'v' :: _ => .ok (some '\x0b', 1)
  | '0' :: _ => .ok (some '\x00', 1)
  | '\r' :: '\n' :: _ => .ok (none, 2)
  | '\r' :: _ => .ok (none, 1)
  | '\n' :: _ => .ok (none, 1)
  | 'x' :: rest =>
    let digits := rest.take 2
    match hexChar? digits with
    | some c => .ok (some c, 1 + digits.length)
    | none => .error (.invalidHexEscape, 4)
  | 'u' :: '\x7b' :: rest =>
    let digits := rest.takeWhile (· != '\x7d')
    if digits.length = rest.length then .error (.unterminatedEscape, 2)
    else match hexChar? digits with
      | some c => .ok (some c, 3 + digits.length)
      | none => .error (.invalidHexEscape, byteLength digits + 2)
  | 'u' :: rest =>
    let digits := rest.take 4
    match hexChar? digits with
    | some c => .ok (some c, 1 + digits.length)
    | none => .error (.invalidHexEscape, byteLength digits + 2)
  | c :: _ => .ok (some c, 1)

/-- Reads a body whose first byte lies at `offset`. A body of at most `size` characters is read to
    its end. -/
def unescapeFrom : (size : Nat) → (offset : Nat) → List Char → Except LexError (List Char)
  | 0, _, _ => .ok []
  | _, _, [] => .ok []
  | size + 1, offset, '\\' :: cs =>
    match readEscape cs with
    | .error (fault, width) => .error ⟨fault, ⟨offset, width⟩⟩
    | .ok (c, n) =>
      (unescapeFrom size (offset + 1 + byteLength (cs.take n)) (cs.drop n)).map (c.toList ++ ·)
  | size + 1, offset, c :: cs => (unescapeFrom size (offset + c.utf8Size) cs).map (c :: ·)

/-- The text that the body of a literal stands for; its first byte lies at `offset`. -/
def unescape (offset : Nat) (body : List Char) : Except LexError String :=
  (unescapeFrom body.length offset body).map String.ofList

end LabelWeaver.Literal
