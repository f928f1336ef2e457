import LabelWeaver.Toml.Document
import LabelWeaver.Text.Blank
import LabelWeaver.Check.Emitter
import LabelWeaver.Project.Disk

/-! The manifest of a project: how its sources are compiled. The manifest nearest to a source counts;
    it is looked for in the directory of the source and then in the directories above, as far as the
    path names them. -/

namespace LabelWeaver

/-- The name of manifest files. -/
def manifestName : String := "labelflow.toml"

/-- What a manifest sets. -/
structure Manifest where
  /-- The manifest file, if there is one. -/
  path : Option String := none
  /-- The directory that relative paths of the manifest start from. -/
  root : String
  enabled : Option Bool := none
  runtime : Option String := none
  traits : Option String := none
  symbol : Option String := none
  /-- A source that is compiled in front of every other. -/
  front : Option String := none
  deriving DecidableEq, Repr

/-- The names that a manifest may set. -/
inductive NameKey where
  | runtime
  | traits
  | symbol
  deriving DecidableEq, Repr

def NameKey.text : NameKey → String
  | runtime => "instrument.runtime"
  | traits => "instrument.traits"
  | symbol => "instrument.symbol"

/-- What can be wrong with the text of a manifest. -/
inductive ManifestFault where
  | malformed
  | emptyName (key : NameKey)
  deriving DecidableEq, Repr

def ManifestFault.message : ManifestFault → String
  | malformed => "failed to parse"
  | emptyName key => "`" ++ key.text ++ "` must not be empty"

/-- Why no manifest could be loaded. -/
inductive ManifestError where
  | unreadable (path : String)
  /-- A fault in a manifest file, or in a text without a path. -/
  | faulty (path : Option String) (fault : ManifestFault)
  deriving DecidableEq, Repr

def ManifestError.message : ManifestError → String
  | unreadable path => "manifest error: failed to read " ++ path
  | faulty none fault => "manifest error: " ++ fault.message
  | faulty (some path) fault => "manifest error: " ++ path ++ ": " ++ fault.message

namespace Manifest

/-- The settings of a manifest; what it leaves open has its usual value. -/
def settings (m : Manifest) : Settings :=
  let usual : RuntimeNames := {}
  { enabled := m.enabled.getD true
    names := ⟨m.runtime.getD usual.runtime, m.traits.getD usual.traits, m.symbol.getD usual.symbol⟩ }

/-! ### Reading -/

open Toml

/-- The values of a record with these fields: a table gives them by name, a list by position. A date
    is a record without any of them. -/
def fields (names : List String) : Value → Option (List (Option Value))
  | .table _ entries | .inlineTable entries => some (names.map (Entries.get? entries))
  | .array items | .tables items => some ((List.range names.length).map (items[·]?))
  | .dateTime => some (names.map fun _ => none)
  | _ => none

/-- An optional field of one type. -/
def field {α : Type} (read : Value → Option α) : Option Value → Option (Option α)
  | none => some none
  | some v => (read v).map some

def bool? : Value → Option Bool
  | .bool b => some b
  | _ => none

def string? : Value → Option String
  | .string s => some s
  | _ => none

/-- What the manifest says about instrumentation. -/
structure Instrumentation where
  enabled : Option Bool := none
  runtime : Option String := none
  traits : Option String := none
  symbol : Option String := none

def instrumentation? (v : Value) : Option Instrumentation := do
  match ← fields ["enabled", "runtime", "traits", "symbol"] v with
  | [enabled, runtime, traits, symbol] =>
    return ⟨← field bool? enabled, ← field string? runtime, ← field string? traits,
      ← field string? symbol⟩
  | _ => none

/-- The path of the source in front of all others. -/
def front? (v : Value) : Option (Option String) := do
  match ← fields ["prelude"] v with
  | [front] => field string? front
  | _ => none

/-- A name that is set must hold something other than blanks. -/
def checkName (key : NameKey) : Option String → Except ManifestFault Unit
  | some name => if name.toList.all isBlank then .error (.emptyName key) else .ok ()
  | none => .ok ()

/-- Reads the text of a manifest in the directory `root`. -/
def parse (source root : String) : Except ManifestFault Manifest := do
  let some entries := Toml.parse source | .error .malformed
  let some instrument := field instrumentation? (entries.get? "instrument") | .error .malformed
  let some front := field front? (entries.get? "compile") | .error .malformed
  let instrument := instrument.getD {}
  checkName .runtime instrument.runtime
  checkName .traits instrument.traits
  checkName .symbol instrument.symbol
  return {
    root := root
    enabled := instrument.enabled
    runtime := instrument.runtime
    traits := instrument.traits
    symbol := instrument.symbol
    front := (front.getD none).map (Path.join root) }

/-! ### Finding -/

variable {m : Type → Type} [Monad m]

/-- The first of the directories that contains a manifest; gives the path of the manifest. -/
def findIn (files : Lookup m) : List String → m (Option String)
  | [] => return none
  | dir :: dirs => do
    let candidate := Path.join dir manifestName
    if ← files.pathExists candidate then return some candidate
    findIn files dirs

/-- The manifest that counts for a file or a directory. -/
def find (files : Lookup m) (start : String) : m (Option String) := do
  if ← files.isFile start then
    match Path.parent? start with
    | some dir => findIn files (Path.ancestors dir)
    | none => return none
  else findIn files (Path.ancestors start)

/-- Loads the manifest that counts for a file or a directory; without one nothing is set. -/
def load (files : Lookup m) (start : String) : m (Except ManifestError Manifest) := do
  let root := if ← files.isFile start then (Path.parent? start).getD "." else start
  match ← find files root with
  | none => return .ok { root := root }
  | some path =>
    match ← files.read path with
    | none => return .error (.unreadable path)
    | some source =>
      match parse source ((Path.parent? path).getD "") with
      | .error fault => return .error (.faulty (some path) fault)
      | .ok manifest => return .ok { manifest with path := some path }

end Manifest

end LabelWeaver
