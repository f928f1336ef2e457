import LabelWeaver.Token.Gap
import LabelWeaver.Token.Lexeme

/-! The tokens and comments of a source. At each token start an extension of the language is asked
    first; then a slash opens a regular expression where the tokens before it allow one; then the
    base rules apply. -/

namespace LabelWeaver

/-- Reads a token of a language extension at the start of a text: its kind and its number of
    characters. -/
abbrev Scanner := List Char → Option (Token.Kind × Nat)

/-- The tokens of a source, the last of which is the end of input, and its comments. -/
structure Lexed where
  tokens : List Token
  comments : List Comment

namespace Lexed

/-- The token at byte `pos`, after tokens of the kinds `before` and `last`. -/
def next (scan : Scanner) (pos : Nat) (before last : Option Token.Kind) (cs : List Char) :
    Except LexError (Token.Kind × Nat) :=
  match scan cs with
  | some hit => .ok hit
  | none =>
    match cs with
    | '/' :: rest =>
      if Token.regexAllowed before last then Lexeme.regex pos rest else Lexeme.base pos cs
    | _ => Lexeme.base pos cs

/-- Reads on from byte `pos`, after tokens of the kinds `before` and `last`. A text of at most `size`
    characters is read to its end. -/
def readFrom (scan : Scanner) :
    (size : Nat) → (pos : Nat) → (before last : Option Token.Kind) → List Char →
      Except LexError Lexed
  | 0, pos, _, _, _ => .ok ⟨[⟨.eof, ⟨pos, 0⟩, false⟩], []⟩
  | size + 1, pos, before, last, cs => do
    let gap ← Gap.skip pos cs
    if gap.rest.isEmpty then
      return ⟨[⟨.eof, ⟨gap.pos, 0⟩, gap.newline⟩], gap.comments⟩
    let (kind, n) ← next scan gap.pos before last gap.rest
    let width := byteLength (gap.rest.take n)
    let more ← readFrom scan size (gap.pos + width) last (some kind) (gap.rest.drop n)
    return { tokens := ⟨kind, ⟨gap.pos, width⟩, gap.newline⟩ :: more.tokens
             comments := gap.comments ++ more.comments }

/-- The tokens and comments of a source. -/
def read (scan : Scanner) (source : String) : Except LexError Lexed :=
  readFrom scan source.length 0 none none source.toList

end Lexed

end LabelWeaver
