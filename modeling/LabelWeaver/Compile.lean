import LabelWeaver.Label.Layer

/-! Compilation of annotated sources into plain ones. -/

namespace LabelWeaver

/-- A named source. -/
structure CompileUnit where
  name : String := "<input>"
  source : String
  deriving DecidableEq, Repr

/-- What is wrong with a unit. -/
structure CompileError where
  unit : String
  error : SourceError

/-- Compiles one unit by itself. -/
def CompileUnit.compile (settings : Settings) (u : CompileUnit) : Except CompileError String :=
  match (Grammar.labels settings).parseProgram u.source with
  | .ok program => .ok program.print
  | .error e => .error ⟨u.name, e⟩

/-- Compiles a unit, with a prelude in front that is compiled with the same settings. -/
def compile (settings : Settings) (front : Option CompileUnit) (u : CompileUnit) :
    Except CompileError String := do
  let before ← match front with
    | some front => front.compile settings
    | none => pure ""
  return before ++ (← u.compile settings)

end LabelWeaver
