import LabelWeaver.Toml.Reader
import LabelWeaver.Text.Literal

/-! Numbers, dates and times of TOML documents. They are only recognized: an integer has to fit into
    64 bits, a float must not be too large, and the fields of a date have to be in range. -/

namespace LabelWeaver.Toml.Reader

/-- Digits of a class, single underscores between them left out. -/
def digits (p : Char → Bool) : Reader (List Char) := do
  let first ← satisfy p
  return first :: (← many (satisfy p <|> do char '_'; satisfy p))

/-- The value of digits in a base. -/
def ofDigits (base : Nat) (ds : List Char) : Nat :=
  ds.foldl (fun n c => base * n + (Literal.hexValue? c).getD 0) 0

/-- A sign; says whether it is negative. -/
def sign : Reader Bool := (do char '-'; return true) <|> (do char '+'; return false)

/-- A whole number without leading zeros: whether it is negative, and its digits. -/
def decimal : Reader (Bool × List Char) := do
  let negative := (← optional sign).getD false
  let ds ← (do
      match ← peek? with
      | some '0' => failure
      | _ => digits Char.isDigit) <|> do return [← satisfy Char.isDigit]
  return (negative, ds)

/-- A number in another base. -/
def radix (letter : Char) (base : Nat) (p : Char → Bool) : Reader Unit := do
  text ['0', letter]
  if Nat.pow 2 63 ≤ ofDigits base (← digits p) then failure

def isHexDigit (c : Char) : Bool := (Literal.hexValue? c).isSome

def integer : Reader Unit :=
  radix 'x' 16 isHexDigit <|> radix 'o' 8 (fun c => '0' ≤ c && c ≤ '7') <|>
    radix 'b' 2 (fun c => c == '0' || c == '1') <|> do
      let (negative, ds) ← decimal
      if (if negative then Nat.pow 2 63 else Nat.pow 2 63 - 1) < ofDigits 10 ds then failure

/-! ### Floats -/

/-- The least number that is nearer to 2¹⁰²⁴ than to the largest double. -/
def floatLimit : Nat := Nat.pow 2 1024 - Nat.pow 2 970

/-- Whether `m · 10ᵉ` is too large for a double; `m` has `size` digits. -/
def tooLarge (m size : Nat) (e : Int) : Bool :=
  if m = 0 then false
  else if 320 < size + e then true
  else if size + e < 300 then false
  else if 0 ≤ e then floatLimit ≤ m * Nat.pow 10 e.toNat
  else floatLimit * Nat.pow 10 (-e).toNat ≤ m

def exponent : Reader Int := do
  let _ ← satisfy fun c => c == 'e' || c == 'E'
  let negative := (← optional sign).getD false
  let n := ofDigits 10 (← digits Char.isDigit)
  return if negative then -n else n

def fraction : Reader (List Char) := do
  char '.'
  digits Char.isDigit

def special : Reader Unit := do
  let _ ← optional sign
  text ['i', 'n', 'f'] <|> text ['n', 'a', 'n']

def float : Reader Unit := (do
    let (negative, whole) ← decimal
    let (part, e) ← (do return ([], ← exponent)) <|> do
      let part ← fraction
      return (part, (← optional exponent).getD 0)
    let ds := (whole ++ part).dropWhile (· == '0')
    if !negative && tooLarge (ofDigits 10 ds) ds.length (e - part.length) then failure) <|> special

/-! ### Dates and times -/

/-- So many digits, with a value in a range. -/
def field (width low high : Nat) : Reader Nat := fun cs =>
  let ds := cs.take width
  let n := ofDigits 10 ds
  if ds.length = width ∧ ds.all Char.isDigit ∧ low ≤ n ∧ n ≤ high then some (n, cs.drop width)
  else none

def isLeapYear (y : Nat) : Bool := y % 4 = 0 && (y % 100 ≠ 0 || y % 400 = 0)

def daysIn (year month : Nat) : Nat :=
  if month = 2 then (if isLeapYear year then 29 else 28)
  else if month = 4 ∨ month = 6 ∨ month = 9 ∨ month = 11 then 30
  else 31

def date : Reader Unit := do
  let year ← field 4 0 9999
  char '-'
  let month ← field 2 1 12
  char '-'
  let _ ← field 2 1 (daysIn year month)

def time : Reader Unit := do
  let _ ← field 2 0 23
  char ':'
  let _ ← field 2 0 59
  char ':'
  let _ ← field 2 0 60
  let _ ← optional do
    char '.'
    let _ ← satisfy Char.isDigit
    takeWhile Char.isDigit

def offset : Reader Unit :=
  char 'Z' <|> char 'z' <|> do
    let _ ← sign
    let _ ← field 2 0 23
    char ':'
    let _ ← field 2 0 59

def dateTime : Reader Unit := (do
    date
    let _ ← optional do
      char 'T' <|> char 't' <|> char ' '
      time
      let _ ← optional offset) <|> time

end LabelWeaver.Toml.Reader
