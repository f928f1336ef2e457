import LabelWeaver.Compile
import LabelWeaver.Project.Manifest
import LabelWeaver.Command.Help

/-! Running a request: every file is compiled by itself with the manifest that counts for it. If one
    file fails, nothing is printed or written. -/

namespace LabelWeaver.Command

/-- Why a request failed. -/
inductive Failure where
  | manifest (error : ManifestError)
  | unreadable (path : String)
  | compile (error : CompileError)
  | unwritable (path : String)

def Failure.message : Failure → String
  | manifest e => e.message
  | unreadable path => "cannot read " ++ path
  | compile e => e.unit ++ ": " ++ e.error.message
  | unwritable path => "cannot write " ++ path

/-- What is to be done with the result of a request. -/
inductive Output where
  | print (text : String)
  | write (path text : String)
  deriving DecidableEq, Repr

/-- A path as diagnostics show it. -/
def displayPath (path : String) : String :=
  String.ofList (path.toList.map fun c => if c == '\\' then '/' else c)

/-- The settings for a file: those of its manifest, unless the command line says otherwise. -/
def settingsFor (r : Request) (manifest : Manifest) : Settings :=
  let s := manifest.settings
  { enabled := s.enabled && !r.noInstrument
    names := { s.names with runtime := r.runtime.getD s.names.runtime } }

variable {m : Type → Type} [Monad m]

/-- Reads a source. -/
def readUnit (files : Lookup m) (path : String) : ExceptT Failure m CompileUnit := do
  match ← files.read path with
  | some source => return ⟨displayPath path, source⟩
  | none => throw (.unreadable path)

/-- Compiles one file. -/
def compileFile (files : Lookup m) (r : Request) (path : String) : ExceptT Failure m String := do
  let manifest ← match ← (Manifest.load files path : m (Except ManifestError Manifest)) with
    | .ok manifest => pure manifest
    | .error e => throw (.manifest e)
  let front ← manifest.front.mapM (readUnit files)
  let u ← readUnit files path
  match LabelWeaver.compile (settingsFor r manifest) front u with
  | .ok text => return text
  | .error e => throw (.compile e)

/-- Runs a request up to its output. -/
def run (files : Lookup m) (r : Request) : ExceptT Failure m Output := do
  let texts ← r.paths.mapM (compileFile files r)
  match r.subcommand, r.out with
  | .check, _ => return .print ""
  | .compile, none => return .print (String.join texts)
  | .compile, some path => return .write path (String.join texts)

/-- What a finished command leaves behind. -/
structure Result where
  code : Nat
  stdout : String
  disk : Disk

/-- The command line on a disk. -/
def runOnDisk (d : Disk) (args : List String) : Result :=
  match parse args with
  | .error (.help topic) => ⟨0, topic.text, d⟩
  | .error .version => ⟨0, versionLine, d⟩
  | .error .usage => ⟨2, "", d⟩
  | .ok r =>
    match (run d.lookup r).run with
    | .error _ => ⟨1, "", d⟩
    | .ok (.print text) => ⟨0, text, d⟩
    | .ok (.write path text) =>
      match d.write path text with
      | some d => ⟨0, "", d⟩
      | none => ⟨1, "", d⟩

end LabelWeaver.Command
