import LabelWeaver.Command.Run

/-! The command line on real files. -/

namespace LabelWeaver.Command

/-- Runs an action; says whether it succeeded. -/
def succeeds (action : IO Unit) : IO Bool := do
  match ← action.toBaseIO with
  | .ok () => return true
  | .error _ => return false

/-- Opens a file for reading, which a directory permits too. -/
def openOnly (path : String) : IO Unit := do
  let _ ← IO.FS.Handle.mk path .read

/-- Reads the first byte, which a directory does not permit. -/
def readByte (path : String) : IO Unit := do
  let h ← IO.FS.Handle.mk path .read
  let _ ← h.read 1

def realFiles : Lookup IO where
  isFile path := succeeds (readByte path)
  pathExists path := succeeds (openOnly path)
  read path := do
    match ← (IO.FS.readFile path).toBaseIO with
    | .ok text => return some text
    | .error _ => return none

def report (f : Failure) : IO UInt32 := do
  IO.eprintln f.message
  return 1

def runOnFiles (args : List String) : IO UInt32 := do
  match parse args with
  | .error (.help topic) =>
    IO.print topic.text
    return 0
  | .error .version =>
    IO.print versionLine
    return 0
  | .error .usage =>
    IO.eprint Topic.overview.text
    return 2
  | .ok r =>
    match ← (run realFiles r).run with
    | .error f => report f
    | .ok (.print text) =>
      IO.print text
      return 0
    | .ok (.write path text) =>
      if ← succeeds (IO.FS.writeFile path text) then return 0
      report (.unwritable path)

end LabelWeaver.Command

def main (args : List String) : IO UInt32 := LabelWeaver.Command.runOnFiles args
