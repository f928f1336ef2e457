/-! Readers of text: each takes what it can from the front of a list of characters, or refuses. A
    refusal takes nothing, so another reader can be tried. -/

namespace LabelWeaver.Toml

/-- A reader of values of type `α`. -/
abbrev Reader := StateT (List Char) Option

namespace Reader

variable {α : Type}

/-- One character of a class. -/
def satisfy (p : Char → Bool) : Reader Char := fun
  | c :: cs => if p c then some (c, cs) else none
  | [] => none

def char (c : Char) : Reader Unit := do
  let _ ← satisfy (· == c)

def text : List Char → Reader Unit
  | [] => pure ()
  | c :: cs => do
    char c
    text cs

/-- All characters of a class that stand at the front. -/
def takeWhile (p : Char → Bool) : Reader (List Char) := fun cs =>
  some (cs.takeWhile p, cs.dropWhile p)

def peek? : Reader (Option Char) := fun cs => some (cs.head?, cs)

def atEnd : Reader Unit := fun
  | [] => some ((), [])
  | _ :: _ => none

def optional (r : Reader α) : Reader (Option α) := (some <$> r) <|> pure none

def manyFrom (r : Reader α) : (size : Nat) → Reader (List α)
  | 0 => pure []
  | size + 1 => (do
      let a ← r
      return a :: (← manyFrom r size)) <|> pure []

/-- As many items as there are; an item takes at least one character. -/
def many (r : Reader α) : Reader (List α) := fun cs => manyFrom r cs.length cs

/-- Items with a separator between them; none is possible. -/
def separated (sep : Reader Unit) (r : Reader α) : Reader (List α) := (do
    let first ← r
    let rest ← many (do sep; r)
    return first :: rest) <|> pure []

/-! ### Blanks and lines -/

def blanks : Reader Unit := do
  let _ ← takeWhile fun c => c == ' ' || c == '\t'

def newline : Reader Unit := char '\n' <|> text ['\r', '\n']

/-- A character of a comment: no control character but the tabulator. -/
def isCommentChar (c : Char) : Bool := c == '\t' || (0x20 ≤ c.toNat && c != '\x7f')

def comment : Reader Unit := do
  char '#'
  let _ ← takeWhile isCommentChar

/-- The end of a line or of the text. -/
def lineEnd : Reader Unit := newline <|> atEnd

/-- What may stand behind an entry on its line. -/
def lineRest : Reader Unit := do
  blanks
  let _ ← optional comment
  lineEnd

/-- Blanks, comments and line breaks. -/
def filler : Reader Unit := do
  let blankChar : Reader Unit := do
    let _ ← satisfy fun c => c == ' ' || c == '\t'
  let _ ← many (blankChar <|> newline <|> do comment; newline)

end Reader

end LabelWeaver.Toml
