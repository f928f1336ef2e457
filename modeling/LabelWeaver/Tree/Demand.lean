import LabelWeaver.Tree.Basic

/-! What annotations demand, collected suffix by suffix: of the contracts for the value itself the
    first one counts, of the contracts for every property too, and the constraints on single
    properties and on their number all count, in the order in which they are written. -/

namespace LabelWeaver

/-- The contract asks for nothing. -/
def Contract.isEmpty (c : Contract) : Bool :=
  c.base.isNone && c.labels.isEmpty && c.condition.isNone

/-- The contract that asks for nothing. -/
def Contract.blank (span : Span) : Contract := ⟨span, none, [], none⟩

namespace Demand

def none : Demand := ⟨.none, []⟩

def isEmpty (d : Demand) : Bool := d.expected.isNone && d.shapes.isEmpty

/-- Adds a contract for the value itself, unless there is one. -/
def expect (d : Demand) (c : Contract) : Demand :=
  { d with expected := d.expected.or (some c) }

/-- The contract for every property. -/
def every? (d : Demand) : Option Contract :=
  d.shapes.findSome? fun
    | .every c => some c
    | _ => Option.none

/-- The constraints on single properties. -/
def named (d : Demand) : List (Expr × Contract) :=
  d.shapes.filterMap fun
    | .named prop c => some (prop, c)
    | _ => Option.none

/-- The constraints on the number of properties. -/
def counted (d : Demand) : List (Expr × Contract) :=
  d.shapes.filterMap fun
    | .atLeast count c => some (count, c)
    | _ => Option.none

/-- Adds a constraint on the properties; a second one on all of them is left out. -/
def addShape (d : Demand) (shape : Shape) : Demand :=
  match shape, d.every? with
  | .every _, some _ => d
  | shape, _ => { d with shapes := d.shapes ++ [shape] }

end Demand

end LabelWeaver
