/-! Punctuation and operators. `Punct.scan` reads the longest one at the start of a text. -/

namespace LabelWeaver

inductive Punct where
  | lparen | rparen | lbrace | rbrace | lbracket | rbracket | semi | comma | dot | ellipsis
  | question | colon | arrow
  | eq | plusEq | minusEq | starEq | slashEq | percentEq | shlEq | shrEq | ushrEq | ampEq | pipeEq
  | caretEq
  | eqEq | neq | eqEqEq | neqEq | lt | gt | le | ge
  | plus | minus | star | starStar | slash | percent | plusPlus | minusMinus
  | shl | shr | ushr | amp | pipe | caret | bang | tilde | andAnd | orOr
  deriving DecidableEq, Repr

namespace Punct

def spelling : Punct → String
  | lparen => "("
  | rparen => ")"
  | lbrace => "\x7b"
  | rbrace => "\x7d"
  | lbracket => "["
  | rbracket => "]"
  | semi => ";"
  | comma => ","
  | dot => "."
  | ellipsis => "..."
  | question => "?"
  | colon => ":"
  | arrow => "=>"
  | eq => "="
  | plusEq => "+="
  | minusEq => "-="
  | starEq => "*="
  | slashEq => "/="
  | percentEq => "%="
  | shlEq => "<<="
  | shrEq => ">>="
  | ushrEq => ">>>="
  | ampEq => "&="
  | pipeEq => "|="
  | caretEq => "^="
  | eqEq => "=="
  | neq => "!="
  | eqEqEq => "==="
  | neqEq => "!=="
  | lt => "<"
  | gt => ">"
  | le => "<="
  | ge => ">="
  | plus => "+"
  | minus => "-"
  | star => "*"
  | starStar => "**"
  | slash => "/"
  | percent => "%"
  | plusPlus => "++"
  | minusMinus => "--"
  | shl => "<<"
  | shr => ">>"
  | ushr => ">>>"
  | amp => "&"
  | pipe => "|"
  | caret => "^"
  | bang => "!"
  | tilde => "~"
  | andAnd => "&&"
  | orOr => "||"

/-- The name by which diagnostics call an operator. -/
def name : Punct → String
  | lparen => "LParen"
  | rparen => "RParen"
  | lbrace => "LBrace"
  | rbrace => "RBrace"
  | lbracket => "LBracket"
  | rbracket => "RBracket"
  | semi => "Semi"
  | comma => "Comma"
  | dot => "Dot"
  | ellipsis => "Ellipsis"
  | question => "Question"
  | colon => "Colon"
  | arrow => "Arrow"
  | eq => "Eq"
  | plusEq => "PlusEq"
  | minusEq => "MinusEq"
  | starEq => "StarEq"
  | slashEq => "SlashEq"
  | percentEq => "PercentEq"
  | shlEq => "ShlEq"
  | shrEq => "ShrEq"
  | ushrEq => "UShrEq"
  | ampEq => "AmpEq"
  | pipeEq => "PipeEq"
  | caretEq => "CaretEq"
  | eqEq => "EqEq"
  | neq => "Neq"
  | eqEqEq => "EqEqEq"
  | neqEq => "NeqEq"
  | lt => "Lt"
  | gt => "Gt"
  | le => "Le"
  | ge => "Ge"
  | plus => "Plus"
  | minus => "Minus"
  | star => "Star"
  | starStar => "StarStar"
  | slash => "Slash"
  | percent => "Percent"
  | plusPlus => "PlusPlus"
  | minusMinus => "MinusMinus"
  | shl => "Shl"
  | shr => "Shr"
  | ushr => "UShr"
  | amp => "Amp"
  | pipe => "Pipe"
  | caret => "Caret"
  | bang => "Bang"
  | tilde => "Tilde"
  | andAnd => "AndAnd"
  | orOr => "OrOr"

/-- Every punctuator, the longer ones first. -/
def all : List Punct :=
  [ushrEq,
   ellipsis, shlEq, shrEq, eqEqEq, neqEq, ushr,
   arrow, plusEq, minusEq, starEq, slashEq, percentEq, ampEq, pipeEq, caretEq, eqEq, neq, le, ge,
   starStar, plusPlus, minusMinus, shl, shr, andAnd, orOr,
   lparen, rparen, lbrace, rbrace, lbracket, rbracket, semi, comma, dot, question, colon,
   eq, lt, gt, plus, minus, star, slash, percent, amp, pipe, caret, bang, tilde]

/-- The longest punctuator at the start of a text. -/
def scan (cs : List Char) : Option Punct := all.find? fun p => p.spelling.toList.isPrefixOf cs

theorem mem_all (p : Punct) : p ∈ all := by cases p <;> decide

/-- Longer spellings come first, so the first match of `scan` is the longest. -/
theorem all_sorted : all.Pairwise fun p q => q.spelling.length ≤ p.spelling.length := by
  decide +kernel

end Punct

end LabelWeaver
