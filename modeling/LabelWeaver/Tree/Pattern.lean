import LabelWeaver.Tree.Demand

/-! What a pattern binds, and whether it holds the place of a receiver. -/

namespace LabelWeaver

/-- The single name that a pattern binds, seen through a default value. -/
def Pattern.binding? : Pattern → Option Binding
  | name binding => some binding
  | withDefault _ target _ => target.binding?
  | _ => none

mutual

/-- Every name that a pattern binds, in source order. -/
def Pattern.bindings : Pattern → List Binding
  | .name binding => [binding]
  | .this _ _ => []
  | .array _ elements => elementBindings elements
  | .object _ properties => propertyBindings properties
  | .withDefault _ target _ => target.bindings
  | .rest _ target => target.bindings

def elementBindings : List (Option Pattern) → List Binding
  | [] => []
  | none :: elements => elementBindings elements
  | some p :: elements => p.bindings ++ elementBindings elements

def propertyBindings : List PatternProp → List Binding
  | [] => []
  | .keyValue _ value :: properties => value.bindings ++ propertyBindings properties
  | .shorthand binding _ :: properties => binding :: propertyBindings properties
  | .rest target :: properties => target.bindings ++ propertyBindings properties

end

mutual

/-- The span of the first place of a receiver anywhere inside a pattern. -/
def Pattern.findThis? : Pattern → Option Span
  | .name _ => none
  | .this span _ => some span
  | .array _ elements => elementsFindThis? elements
  | .object _ properties => propertiesFindThis? properties
  | .withDefault _ target _ => target.findThis?
  | .rest _ target => target.findThis?

def elementsFindThis? : List (Option Pattern) → Option Span
  | [] => none
  | none :: elements => elementsFindThis? elements
  | some p :: elements => p.findThis?.or (elementsFindThis? elements)

def propertiesFindThis? : List PatternProp → Option Span
  | [] => none
  | .keyValue _ value :: properties => value.findThis?.or (propertiesFindThis? properties)
  | .shorthand _ _ :: properties => propertiesFindThis? properties
  | .rest target :: properties => target.findThis?.or (propertiesFindThis? properties)

end

end LabelWeaver
