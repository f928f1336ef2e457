import LabelWeaver.Token.Stream
import LabelWeaver.Text.Letter

/-! The tokens that the annotation language adds: its words, the delimiters of label lists, and the
    markers after a colon. A word counts only if no character that could continue a name follows it;
    a marker counts only in front of what it announces, so that the colons of conditionals and
    object literals keep their meaning. -/

namespace LabelWeaver.Label

/-- What follows the text `w` at the start of `cs`. -/
def stripStart? : (w cs : List Char) → Option (List Char)
  | [], cs => some cs
  | _ :: _, [] => none
  | a :: w, c :: cs => if a = c then stripStart? w cs else none

/-- The annotation word at the start of a text. -/
def scanWord (cs : List Char) : Option (Token.Kind × Nat) :=
  Contextual.all.findSome? fun w =>
    match stripStart? w.text.toList cs with
    | some rest => if rest.head?.any isWordPart then none else some (.contextual w, w.text.length)
    | none => none

/-- Whether the text after a marker is what the marker announces: brackets after the two markers
    with arguments, a label list or a name set off by blanks after the others. -/
def announces (m : Marker) (rest : List Char) : Bool :=
  let body := rest.dropWhile fun c => c == ' ' || c == '\t'
  match m with
  | .shapeNamed | .shapeCount => body.head? == some '['
  | _ =>
    (stripStart? ['<', '!'] body).isSome ||
      (body.length < rest.length && body.head?.any isWordStart)

/-- The marker at the start of a text. -/
def scanMarker (cs : List Char) : Option (Token.Kind × Nat) :=
  [Marker.receiver, .shapeNamed, .shapeCount, .shapeEvery].findSome? fun m =>
    match stripStart? m.spelling.toList cs with
    | some rest => if announces m rest then some (.marker m, m.spelling.length) else none
    | none => none

/-- The annotation token at the start of a text. -/
def scan : Scanner
  | '<' :: '!' :: _ => some (.marker .labelOpen, 2)
  | '!' :: '>' :: _ => some (.marker .labelClose, 2)
  | ':' :: cs => scanMarker (':' :: cs)
  | cs => scanWord cs

end LabelWeaver.Label
