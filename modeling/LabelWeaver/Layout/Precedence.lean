import LabelWeaver.Layout.Piece
import LabelWeaver.Tree.Basic

/-! Where an expression needs parentheses. -/

namespace LabelWeaver.Expr

/-- How tightly an expression holds together. -/
def prec : Expr → Prec
  | sequence _ _ => .sequence
  | assign _ _ _ _ | spread _ _ => .assign
  | function _ fn => if fn.isArrow then .assign else .primary
  | conditional _ _ _ _ => .conditional
  | binary _ op _ _ => op.prec
  | unary _ _ _ => .unary
  | update _ _ leading _ => if leading then .unary else .update
  | call _ _ _ | new _ _ _ | member _ _ _ | index _ _ _ => .call
  | ident _ _ | this _ | null _ | bool _ _ | number _ _ | string _ _ | regex _ _ _ | array _ _
  | object _ _ => .primary

/-- The text starts with a brace or with `function`, so that it would not be read as an expression
    at the start of a statement. -/
def startsLikeStatement : Expr → Bool
  | object _ _ => true
  | function _ fn => !fn.isArrow
  | call _ first _ | member _ first _ | index _ first _ | binary _ _ first _
  | assign _ _ first _ | conditional _ first _ _ | update _ _ false first
  | sequence _ (first :: _) => first.startsLikeStatement
  | _ => false

/-- A call stands where the arguments of `new` would be taken for its own. -/
def containsCall : Expr → Bool
  | call _ _ _ => true
  | member _ obj _ | index _ obj _ => obj.containsCall
  | _ => false

/-- The sign of `op` and the first sign of its operand would be read as one. -/
def signsClash (op : UnaryOp) : Expr → Bool
  | unary _ inner _ => (op == .neg || op == .plus) && inner == op
  | update _ inner true _ => (op == .neg && inner == .decr) || (op == .plus && inner == .incr)
  | _ => false

/-- A number without a point, so that a dot after it would be read as part of it. -/
def isBareInteger : Expr → Bool
  | number _ text => text.toList.all Char.isDigit
  | _ => false

end LabelWeaver.Expr

namespace LabelWeaver.Layout

/-- Puts parentheses around a text. -/
def paren (ps : List Piece) : List Piece := sign .lparen ++ ps ++ sign .rparen

def parenIf (needed : Bool) (ps : List Piece) : List Piece := if needed then paren ps else ps

/-- The text `ps` of `e` in a place for expressions that hold together at least as tightly as
    `least`. -/
def fit (least : Prec) (e : Expr) (ps : List Piece) : List Piece := parenIf (e.prec < least) ps

end LabelWeaver.Layout
