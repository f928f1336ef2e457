import LabelWeaver.Token.Basic
import LabelWeaver.Token.Error
import LabelWeaver.Text.Bytes

/-! The text between two tokens: blanks, line breaks and comments. -/

namespace LabelWeaver

/-- What lies before a token: the comments, whether a line break was crossed, and where the rest of
    the text begins. -/
structure Gap where
  comments : List Comment
  newline : Bool
  pos : Nat
  rest : List Char

namespace Gap

def isBlank (c : Char) : Bool :=
  c == ' ' || c == '\t' || c == '\r' || c == '\x0b' || c == '\x0c' || c == '\ufeff' ||
    c == '\u00a0'

def isLineBreak (c : Char) : Bool := c == '\n' || c == '\u2028' || c == '\u2029'

/-- The number of characters before the end of a block comment. -/
def blockBody? : List Char → Option Nat
  | '*' :: '/' :: _ => some 0
  | _ :: cs => (blockBody? cs).map (· + 1)
  | [] => none

/-- The line comment whose text, up to the line break, is `body`; carriage returns at its end are
    left out. -/
def lineComment (pos : Nat) (body : List Char) : Comment where
  span := ⟨pos, 2 + byteLength body⟩
  kind := .line
  text := String.ofList (body.reverse.dropWhile (· == '\r')).reverse

def blockComment (pos : Nat) (body : List Char) : Comment where
  span := ⟨pos, 4 + byteLength body⟩
  kind := .block
  text := String.ofList body

/-- Puts a comment, and a line break if `newline`, in front of what was skipped after it. -/
def after (found : List Comment) (newline : Bool) (gap : Gap) : Gap :=
  { gap with comments := found ++ gap.comments, newline := newline || gap.newline }

/-- Skips blanks and comments from byte `pos` on. A text of at most `size` characters is searched to
    its end. -/
def skipFrom : (size : Nat) → (pos : Nat) → List Char → Except LexError Gap
  | 0, pos, cs => .ok ⟨[], false, pos, cs⟩
  | size + 1, pos, '/' :: '/' :: cs =>
    let body := cs.takeWhile (· != '\n')
    (skipFrom size (pos + 2 + byteLength body) (cs.drop body.length)).map
      (after [lineComment pos body] false)
  | size + 1, pos, '/' :: '*' :: cs =>
    match blockBody? cs with
    | none => .error ⟨.unterminatedComment, ⟨pos, 2⟩⟩
    | some n =>
      let body := cs.take n
      (skipFrom size (pos + 4 + byteLength body) (cs.drop (n + 2))).map
        (after [blockComment pos body] (body.contains '\n'))
  | size + 1, pos, c :: cs =>
    if isLineBreak c then (skipFrom size (pos + c.utf8Size) cs).map (after [] true)
    else if isBlank c then skipFrom size (pos + c.utf8Size) cs
    else .ok ⟨[], false, pos, c :: cs⟩
  | _, pos, [] => .ok ⟨[], false, pos, []⟩

/-- Skips blanks and comments from byte `pos` on. -/
def skip (pos : Nat) (cs : List Char) : Except LexError Gap := skipFrom cs.length pos cs

end Gap

end LabelWeaver
