import LabelWeaver.Grammar.Expr

/-! Contracts and label lists as they are written. -/

namespace LabelWeaver.Label

open Parse Grammar

/-- The name of a label: a name or the receiver, with members of it. -/
def labelName (r : Rules) : Parse Expr := do
  if ← isAt (.reserved .kwThis) then
    let tok ← advance
    memberTail r false (.this tok.span)
  else if ← look Cursor.isAtIdent then
    let name ← expectIdent
    memberTail r false (.ident name.span name.text)
  else failHere .unnamedLabel

/-- A label; `parameters` reads the rest of a list of labels. -/
def label (r : Rules) (parameters : Parse (List Label)) : Parse Label := do
  let start ← here
  if ← eat (.contextual .kwPtrait) then
    let target ← labelName r
    return .ref (start.join target.span) target
  let name ← labelName r
  let parameters ← if ← eat (.marker .labelOpen) then parameters else pure []
  let dependants ← if ← eat (.punct .lparen) then exprList r (.punct .rparen) else pure []
  return .named (start.join (← prevSpan)) name parameters dependants

def labelsFrom (r : Rules) : (size : Nat) → Parse (List Label)
  | 0 => failHere .unexpectedEnd
  | size + 1 => do
    let first ← label r (labelsFrom r size)
    if ← eat (.punct .star) then return first :: (← labelsFrom r size)
    if ← eat (.marker .labelClose) then return [first]
    failHere .unclosedLabels

/-- Labels with stars between them, through the closing sign. -/
def labels (r : Rules) : Parse (List Label) := sized (labelsFrom r)

/-- Labels as above, or only the closing sign. -/
def labelsOrNone (r : Rules) : Parse (List Label) := do
  if ← eat (.marker .labelClose) then return []
  labels r

/-- A base type, labels and a condition; one of the first two is needed. The base type is read up to
    a comma or an assignment sign. -/
def contract (allowCondition : Bool) (r : Rules) : Parse Contract := do
  let start ← here
  let base ← match ← kind? with
    | some (.ident _) => some <$> r.conditional
    | _ => pure none
  let labels ← if ← eat (.marker .labelOpen) then labels r
    else if base.isNone then failHere .expectedContract
    else pure []
  let condition ← if allowCondition then do
      if ← eat (.contextual .kwWhere) then some <$> r.conditional else pure none
    else pure none
  return ⟨start.join (← prevSpan), base, labels, condition⟩

/-- A contract of labels only. -/
def labelContract (r : Rules) : Parse Contract := do
  let opening ← expect (.marker .labelOpen)
  let labels ← labels r
  return ⟨opening.span.join (← prevSpan), none, labels, none⟩

end LabelWeaver.Label
