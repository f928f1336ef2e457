import LabelWeaver.Layout.Basic

/-! Printing: the pieces of a layout are written one after the other, and the comments of the source
    are put in at their places. -/

namespace LabelWeaver

/-- How a comment is written. -/
def Comment.spelling (c : Comment) : String :=
  match c.kind with
  | .line => "//" ++ c.text
  | .block => "/*" ++ c.text ++ "*/"

namespace Layout

def indentation : (depth : Nat) → String
  | 0 => ""
  | depth + 1 => "    " ++ indentation depth

/-- Comments on lines of their own. -/
def commentLines (depth : Nat) : List Comment → List String
  | [] => []
  | c :: rest => indentation depth :: c.spelling :: "\n" :: commentLines depth rest

/-- The comments at the front that start before byte `before`. -/
def due (before : Nat) (pending : List Comment) : List Comment :=
  pending.takeWhile (·.span.offset < before)

/-- The comments that are left when those that start before byte `before` are printed. -/
def notDue (before : Nat) (pending : List Comment) : List Comment :=
  pending.dropWhile (·.span.offset < before)

/-- Writes the pieces; `pending` are the comments that are not printed yet. What is left of them
    comes behind the last piece. -/
def weave : (pending : List Comment) → List Piece → List String
  | pending, [] => commentLines 0 pending
  | pending, .token kind :: rest => kind.spelling :: weave pending rest
  | pending, .space :: rest => " " :: weave pending rest
  | pending, .newline :: rest => "\n" :: weave pending rest
  | pending, .indent depth :: rest => indentation depth :: weave pending rest
  | pending, .comments before depth :: rest =>
    commentLines depth (due before pending) ++ weave (notDue before pending) rest
  | pending, .emptyBlock stop depth :: rest =>
    if (due stop pending).isEmpty then "\x7b\x7d" :: weave pending rest
    else
      "\x7b\n" :: commentLines (depth + 1) (due stop pending) ++
        indentation depth :: "\x7d" :: weave (notDue stop pending) rest

/-- The text of a layout. -/
def render (comments : List Comment) (pieces : List Piece) : String :=
  String.join (weave comments pieces)

end Layout

/-- Prints a program with its comments. -/
def Program.print (p : Program) : String := Layout.render p.comments (Layout.stmts 0 p.body)

/-- Prints an expression. -/
def Expr.print (e : Expr) : String := Layout.render [] (e.layout 0)

end LabelWeaver
