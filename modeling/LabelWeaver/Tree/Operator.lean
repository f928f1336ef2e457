import LabelWeaver.Token.Basic

/-! Operators, the tokens they are written with, and how tightly they bind. The reader and the
    writer of expressions use the same table of precedences. -/

namespace LabelWeaver

inductive VarKind where
  | var | let | const
  deriving DecidableEq, Repr

def VarKind.word : VarKind → Reserved
  | var => .kwVar
  | .let => .kwLet
  | const => .kwConst

inductive UnaryOp where
  | not | bitNot | neg | plus | typeof | void | delete
  deriving DecidableEq, Repr

inductive UpdateOp where
  | incr | decr
  deriving DecidableEq, Repr

inductive BinaryOp where
  | or | and | bitOr | bitXor | bitAnd | eq | ne | strictEq | strictNe | lt | gt | le | ge
  | in | instanceof | shl | shr | ushr | add | sub | mul | div | rem | pow
  deriving DecidableEq, Repr

inductive AssignOp where
  | assign | add | sub | mul | div | rem | shl | shr | ushr | bitAnd | bitOr | bitXor
  deriving DecidableEq, Repr

/-! ### Tokens -/

def UnaryOp.token : UnaryOp → Token.Kind
  | not => .punct .bang
  | bitNot => .punct .tilde
  | neg => .punct .minus
  | plus => .punct .plus
  | typeof => .reserved .kwTypeof
  | void => .reserved .kwVoid
  | delete => .reserved .kwDelete

def UnaryOp.ofToken? : Token.Kind → Option UnaryOp
  | .punct .bang => some not
  | .punct .tilde => some bitNot
  | .punct .minus => some neg
  | .punct .plus => some plus
  | .reserved .kwTypeof => some typeof
  | .reserved .kwVoid => some void
  | .reserved .kwDelete => some delete
  | _ => none

def UpdateOp.sign : UpdateOp → Punct
  | incr => .plusPlus
  | decr => .minusMinus

def UpdateOp.ofToken? : Token.Kind → Option UpdateOp
  | .punct .plusPlus => some incr
  | .punct .minusMinus => some decr
  | _ => none

def BinaryOp.token : BinaryOp → Token.Kind
  | or => .punct .orOr
  | and => .punct .andAnd
  | bitOr => .punct .pipe
  | bitXor => .punct .caret
  | bitAnd => .punct .amp
  | eq => .punct .eqEq
  | ne => .punct .neq
  | strictEq => .punct .eqEqEq
  | strictNe => .punct .neqEq
  | lt => .punct .lt
  | gt => .punct .gt
  | le => .punct .le
  | ge => .punct .ge
  | .in => .reserved .kwIn
  | instanceof => .reserved .kwInstanceof
  | shl => .punct .shl
  | shr => .punct .shr
  | ushr => .punct .ushr
  | add => .punct .plus
  | sub => .punct .minus
  | mul => .punct .star
  | div => .punct .slash
  | rem => .punct .percent
  | pow => .punct .starStar

def BinaryOp.ofToken? : Token.Kind → Option BinaryOp
  | .punct .orOr => some or
  | .punct .andAnd => some and
  | .punct .pipe => some bitOr
  | .punct .caret => some bitXor
  | .punct .amp => some bitAnd
  | .punct .eqEq => some eq
  | .punct .neq => some ne
  | .punct .eqEqEq => some strictEq
  | .punct .neqEq => some strictNe
  | .punct .lt => some lt
  | .punct .gt => some gt
  | .punct .le => some le
  | .punct .ge => some ge
  | .reserved .kwIn => some .in
  | .reserved .kwInstanceof => some instanceof
  | .punct .shl => some shl
  | .punct .shr => some shr
  | .punct .ushr => some ushr
  | .punct .plus => some add
  | .punct .minus => some sub
  | .punct .star => some mul
  | .punct .slash => some div
  | .punct .percent => some rem
  | .punct .starStar => some pow
  | _ => none

def AssignOp.sign : AssignOp → Punct
  | assign => .eq
  | add => .plusEq
  | sub => .minusEq
  | mul => .starEq
  | div => .slashEq
  | rem => .percentEq
  | shl => .shlEq
  | shr => .shrEq
  | ushr => .ushrEq
  | bitAnd => .ampEq
  | bitOr => .pipeEq
  | bitXor => .caretEq

def AssignOp.ofToken? : Token.Kind → Option AssignOp
  | .punct .eq => some assign
  | .punct .plusEq => some add
  | .punct .minusEq => some sub
  | .punct .starEq => some mul
  | .punct .slashEq => some div
  | .punct .percentEq => some rem
  | .punct .shlEq => some shl
  | .punct .shrEq => some shr
  | .punct .ushrEq => some ushr
  | .punct .ampEq => some bitAnd
  | .punct .pipeEq => some bitOr
  | .punct .caretEq => some bitXor
  | _ => none

@[simp] theorem UnaryOp.ofToken?_token (op : UnaryOp) : ofToken? op.token = some op := by
  cases op <;> rfl

@[simp] theorem UpdateOp.ofToken?_sign (op : UpdateOp) : ofToken? (.punct op.sign) = some op := by
  cases op <;> rfl

@[simp] theorem BinaryOp.ofToken?_token (op : BinaryOp) : ofToken? op.token = some op := by
  cases op <;> rfl

@[simp] theorem AssignOp.ofToken?_sign (op : AssignOp) : ofToken? (.punct op.sign) = some op := by
  cases op <;> rfl

/-! ### Precedence -/

/-- How tightly an expression holds together, the loosest first. -/
inductive Prec where
  | sequence | assign | conditional | or | and | bitOr | bitXor | bitAnd | equality | relational
  | shift | additive | multiplicative | exponent | unary | update | call | primary
  deriving DecidableEq, Repr

namespace Prec

def rank : Prec → Nat
  | sequence => 0
  | assign => 1
  | conditional => 2
  | or => 3
  | and => 4
  | bitOr => 5
  | bitXor => 6
  | bitAnd => 7
  | equality => 8
  | relational => 9
  | shift => 10
  | additive => 11
  | multiplicative => 12
  | exponent => 13
  | unary => 14
  | update => 15
  | call => 16
  | primary => 17

instance : LT Prec := ⟨fun a b => a.rank < b.rank⟩
instance : LE Prec := ⟨fun a b => a.rank ≤ b.rank⟩
instance (a b : Prec) : Decidable (a < b) := inferInstanceAs (Decidable (a.rank < b.rank))
instance (a b : Prec) : Decidable (a ≤ b) := inferInstanceAs (Decidable (a.rank ≤ b.rank))

/-- The next tighter precedence. -/
def tighter : Prec → Prec
  | sequence => assign
  | assign => conditional
  | conditional => or
  | or => and
  | and => bitOr
  | bitOr => bitXor
  | bitXor => bitAnd
  | bitAnd => equality
  | equality => relational
  | relational => shift
  | shift => additive
  | additive => multiplicative
  | multiplicative => exponent
  | exponent => unary
  | unary => update
  | update => call
  | call => primary
  | primary => primary

theorem lt_iff_rank (a b : Prec) : a < b ↔ a.rank < b.rank := Iff.rfl
theorem le_iff_rank (a b : Prec) : a ≤ b ↔ a.rank ≤ b.rank := Iff.rfl

end Prec

def BinaryOp.prec : BinaryOp → Prec
  | or => .or
  | and => .and
  | bitOr => .bitOr
  | bitXor => .bitXor
  | bitAnd => .bitAnd
  | eq | ne | strictEq | strictNe => .equality
  | lt | gt | le | ge | .in | instanceof => .relational
  | shl | shr | ushr => .shift
  | add | sub => .additive
  | mul | div | rem => .multiplicative
  | pow => .exponent

/-- The least precedence of a right operand. Powers group to the right, all else to the left. -/
def BinaryOp.rightPrec (op : BinaryOp) : Prec :=
  if op = pow then op.prec else op.prec.tighter

end LabelWeaver
