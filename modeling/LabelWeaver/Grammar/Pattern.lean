import LabelWeaver.Grammar.Rules

/-! Binding patterns and property keys of the base language. -/

namespace LabelWeaver.Grammar

open Parse

/-- The key of a property: a name of any kind, a string, a number, or an expression in brackets. -/
def propKey (r : Rules) : Parse PropKey := do
  let tok ← advance
  match tok.kind with
  | .string value => return .string value
  | .number text => return .number text
  | .punct .lbracket =>
    let key ← r.assign
    let _ ← expect (.punct .rbracket)
    return .computed key
  | kind =>
    match kind.propertyText? with
    | some text => return .name ⟨tok.span, text⟩
    | none => failAt (.expectedPropertyKey kind) tok.span

/-- A binding target with an optional default value. -/
def bindingElement (binding : Parse Pattern) (r : Rules) : Parse Pattern := do
  let target ← binding
  if ← eat (.punct .eq) then
    let value ← r.assign
    return .withDefault (target.span.join value.span) target value
  return target

def restElement (r : Rules) : Parse Pattern := do
  let dots ← expect (.punct .ellipsis)
  let target ← r.binding
  return .rest (dots.span.join target.span) target

/-- An element of an array pattern or a parameter list. -/
def listElement (r : Rules) : Parse Pattern := do
  if ← isAt (.punct .ellipsis) then restElement r else bindingElement r.binding r

def arrayPattern (r : Rules) : Parse Pattern := do
  let opening ← expect (.punct .lbracket)
  let items ← elements (.punct .rbracket) (listElement r)
  let closing ← expect (.punct .rbracket)
  return .array (opening.span.join closing.span) items

def patternProp (r : Rules) : Parse PatternProp := do
  if ← isAt (.punct .ellipsis) then return .rest (← restElement r)
  let key ← propKey r
  if ← eat (.punct .colon) then return .keyValue key (← bindingElement r.binding r)
  match key with
  | .name name =>
    let value ← if ← eat (.punct .eq) then some <$> r.assign else pure none
    return .shorthand ⟨name.span, name, .none⟩ value
  | _ => failHere .expectedPatternColon

def objectPattern (r : Rules) : Parse Pattern := do
  let opening ← expect (.punct .lbrace)
  let props ← separated (.punct .rbrace) (patternProp r)
  let closing ← expect (.punct .rbrace)
  return .object (opening.span.join closing.span) props

/-- A binding target of the base language. -/
def baseBinding (r : Rules) : Parse Pattern := do
  match ← kind? with
  | some (.punct .lbracket) => arrayPattern r
  | some (.punct .lbrace) => objectPattern r
  | _ =>
    let name ← expectIdent
    return .name ⟨name.span, name, .none⟩

/-- A binding target. -/
def binding (g : Grammar) (r : Rules) : Parse Pattern :=
  g.foldr (fun layer inner => layer.binding r inner) (baseBinding r)

end LabelWeaver.Grammar
