import LabelWeaver.Cursor.Basic

/-! Repetition. Each round of these loops reads at least one token, so the number of tokens left
    bounds the number of rounds. -/

namespace LabelWeaver.Parse

variable {α : Type}

/-! ### With a bound on the number of rounds -/

def manyFrom (stop : Cursor → Bool) (item : Parse α) : (size : Nat) → Parse (List α)
  | 0 => failHere .unexpectedEnd
  | size + 1 => do
    if ← look stop then return []
    let x ← item
    return x :: (← manyFrom stop item size)

def separatedFrom (close : Token.Kind) (item : Parse α) : (size : Nat) → Parse (List α)
  | 0 => failHere .unexpectedEnd
  | size + 1 => do
    if ← isAt close then return []
    let x ← item
    if ← eat (.punct .comma) then return x :: (← separatedFrom close item size)
    return [x]

def elementsFrom (close : Token.Kind) (item : Parse α) : (size : Nat) → Parse (List (Option α))
  | 0 => failHere .unexpectedEnd
  | size + 1 => do
    if ← isAt close then return []
    if ← eat (.punct .comma) then return none :: (← elementsFrom close item size)
    let x ← item
    if ← eat (.punct .comma) then return some x :: (← elementsFrom close item size)
    return [some x]

def commaListFrom (item : Parse α) : (size : Nat) → Parse (List α)
  | 0 => failHere .unexpectedEnd
  | size + 1 => do
    let x ← item
    if ← eat (.punct .comma) then return x :: (← commaListFrom item size)
    return [x]

def extendFrom (step : α → Parse (Option α)) : (size : Nat) → α → Parse α
  | 0, _ => failHere .unexpectedEnd
  | size + 1, a => do
    match ← step a with
    | some b => extendFrom step size b
    | none => return a

/-- Runs a loop with as many rounds as it can need. -/
def sized (p : Nat → Parse α) : Parse α := fun c => p (c.rest.length + 1) c

/-! ### Without -/

/-- Reads items until the cursor satisfies `stop`. -/
def many (stop : Cursor → Bool) (item : Parse α) : Parse (List α) := sized (manyFrom stop item)

/-- Reads items with commas between them, and perhaps one behind, up to a closing token. -/
def separated (close : Token.Kind) (item : Parse α) : Parse (List α) :=
  sized (separatedFrom close item)

/-- Reads items with commas between them up to a closing token, where items may be left out. -/
def elements (close : Token.Kind) (item : Parse α) : Parse (List (Option α)) :=
  sized (elementsFrom close item)

/-- Reads one item or more with commas between them. -/
def commaList (item : Parse α) : Parse (List α) := sized (commaListFrom item)

/-- Extends a value as long as the step finds something to extend it with. -/
def extend (step : α → Parse (Option α)) (a : α) : Parse α := sized (extendFrom step · a)

end LabelWeaver.Parse
