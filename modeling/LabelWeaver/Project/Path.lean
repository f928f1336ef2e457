/-! Paths as they are written. Joining and taking the parent look at the text only: nothing is looked
    up and nothing is normalized. -/

namespace LabelWeaver.Path

def isAbsolute (p : String) : Bool := p.toList.head? == some '/'

/-- Joins two paths; an absolute second path replaces the first. -/
def join (base p : String) : String :=
  if isAbsolute p then p
  else if base.isEmpty || base.toList.getLast? == some '/' then base ++ p
  else base ++ "/" ++ p

/-- The parts of a list of characters between slashes. -/
def splitChars : List Char → List (List Char)
  | [] => [[]]
  | '/' :: cs => [] :: splitChars cs
  | c :: cs =>
    match splitChars cs with
    | part :: parts => (c :: part) :: parts
    | [] => [[c]]

/-- The parts of a path between slashes. The first part of an absolute path is empty. -/
def parts (p : String) : List String := (splitChars p.toList).map String.ofList

/-- The path with these parts. -/
def ofParts (parts : List String) : String := "/".intercalate parts

/-- Leaves out, from the last part on, parts that name nothing; the first part stays. The parts are
    given from the last to the first. -/
def dropEmpty : List String → List String
  | [] => []
  | [first] => [first]
  | part :: rest => if part = "" ∨ part = "." then dropEmpty rest else part :: rest

/-- The path without its last name. The root and the empty path have no parent; the parent of a
    single name is the empty path. -/
def parent? (p : String) : Option String :=
  match dropEmpty (parts p).reverse with
  | [] => none
  | [first] => if first = "" then none else some ""
  | _ :: rest =>
    match dropEmpty rest with
    | [""] => some "/"
    | kept => some (ofParts kept.reverse)

def ancestorsFrom : (size : Nat) → String → List String
  | 0, _ => []
  | size + 1, p =>
    p :: match parent? p with
      | some q => ancestorsFrom size q
      | none => []

/-- The path itself, its parent, the parent of that, and so on. -/
def ancestors (p : String) : List String := ancestorsFrom (p.length + 2) p

end LabelWeaver.Path
