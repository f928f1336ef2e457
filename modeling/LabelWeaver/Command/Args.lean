/-! The command line: a subcommand with paths, and options that may stand before or behind it. -/

namespace LabelWeaver.Command

inductive Subcommand where
  /-- Compiles files and prints the results one after the other. -/
  | compile
  /-- Compiles files and prints nothing. -/
  | check
  deriving DecidableEq, Repr

/-- What help is asked for. -/
inductive Topic where
  | overview
  | subcommand (sub : Subcommand)
  /-- The help command itself. -/
  | help
  deriving DecidableEq, Repr

/-- Help asked for by an option, before the subcommand or behind it. -/
def Topic.around : Option Subcommand → Topic
  | none => overview
  | some sub => subcommand sub

/-- Why the arguments ask for no run. -/
inductive Stop where
  | help (topic : Topic)
  | version
  | usage
  deriving DecidableEq, Repr

/-- What is given before the subcommand, or behind it. An option is given at most once in each of
    the two places. -/
structure Given where
  noInstrument : Bool := false
  runtime : Option String := none
  out : Option String := none
  paths : List String := []
  deriving DecidableEq, Repr

/-- What is asked for. -/
structure Request where
  subcommand : Subcommand
  paths : List String
  out : Option String
  noInstrument : Bool
  runtime : Option String
  deriving DecidableEq, Repr

namespace Given

def setNoInstrument (g : Given) : Except Stop Given :=
  if g.noInstrument then .error .usage else .ok { g with noInstrument := true }

def setRuntime (g : Given) (name : String) : Except Stop Given :=
  if g.runtime.isSome then .error .usage else .ok { g with runtime := some name }

def setOut (g : Given) (path : String) : Except Stop Given :=
  if g.out.isSome || path.isEmpty then .error .usage else .ok { g with out := some path }

def addPath (g : Given) (path : String) : Except Stop Given :=
  if path.isEmpty then .error .usage else .ok { g with paths := g.paths ++ [path] }

end Given

/-- An argument that can be a value: it does not look like an option. -/
def isValue (arg : String) : Bool := arg == "-" || arg.toList.head? != some '-'

/-- The value behind an option and an equals sign. -/
def attached? (option arg : String) : Option String :=
  let front := option.toList ++ ['=']
  if front.isPrefixOf arg.toList then some (String.ofList (arg.toList.drop front.length)) else none

/-- Letters behind a single dash. -/
def letters? (arg : String) : Option (List Char) :=
  match arg.toList with
  | '-' :: c :: cs => if c == '-' then none else some (c :: cs)
  | _ => none

/-- Options of one letter; `-V` is known only before the subcommand. -/
def readLetters (sub : Option Subcommand) : List Char → Except Stop Unit
  | [] => .ok ()
  | 'v' :: cs => readLetters sub cs
  | 'h' :: _ => .error (.help (.around sub))
  | 'V' :: _ => .error (if sub.isNone then .version else .usage)
  | _ => .error .usage

/-- An option that needs no further argument; gives nothing if the argument is no option. -/
def readOption (sub : Option Subcommand) (g : Given) (arg : String) :
    Except Stop (Option Given) := do
  if arg == "--no-instrument" then return some (← g.setNoInstrument)
  if arg == "--verbose" then return some g
  if arg == "--help" then .error (.help (.around sub))
  if arg == "--version" && sub.isNone then .error .version
  if let some name := attached? "--runtime" arg then return some (← g.setRuntime name)
  if sub == some .compile then
    if let some path := attached? "--out" arg then return some (← g.setOut path)
  if let some cs := letters? arg then
    readLetters sub cs
    return some g
  if isValue arg then return none
  .error .usage

/-- What stands behind the subcommand. -/
def readRest (sub : Subcommand) : Given → List String → Except Stop Given
  | g, [] => .ok g
  | g, "--" :: paths => paths.foldlM Given.addPath g
  | _, ["--runtime"] => .error .usage
  | g, "--runtime" :: name :: args =>
    if isValue name then do readRest sub (← g.setRuntime name) args else .error .usage
  | _, ["--out"] => .error .usage
  | g, "--out" :: path :: args =>
    if sub == .compile && isValue path then do readRest sub (← g.setOut path) args
    else .error .usage
  | g, arg :: args => do
    match ← readOption (some sub) g arg with
    | some g => readRest sub g args
    | none => readRest sub (← g.addPath arg) args

/-- The topic that the words behind `help` name. Every word counts, one that looks like an option
    too. -/
def readTopic : List String → Except Stop Topic
  | [] => .ok .overview
  | ["compile"] => .ok (.subcommand .compile)
  | ["check"] => .ok (.subcommand .check)
  | ["help"] => .ok .help
  | _ => .error .usage

/-- A subcommand, or the help command, with what stands behind it. -/
def readSubcommand (word : String) (args : List String) :
    Except Stop (Subcommand × Given) := do
  match word with
  | "compile" => return (.compile, ← readRest .compile {} args)
  | "check" => return (.check, ← readRest .check {} args)
  | "help" => .error (.help (← readTopic args))
  | _ => .error .usage

/-- Takes up a runtime name that waits. -/
def Given.settle (g : Given) : Option String → Except Stop Given
  | none => .ok g
  | some name => g.setRuntime name

/-- What stands before the subcommand, then the subcommand with what stands behind it. A runtime
    name that is an argument of its own waits until the next option or until the subcommand is
    read: help asked for by the subcommand comes before the complaint that it was given twice. -/
def readTop : Given → Option String → List String → Except Stop Request
  | _, _, [] => .error .usage
  | _, _, ["--runtime"] => .error .usage
  | g, waiting, "--runtime" :: name :: args =>
    if isValue name then do readTop (← g.settle waiting) (some name) args else .error .usage
  | g, waiting, arg :: args => do
    if isValue arg then
      let (sub, rest) ← readSubcommand arg args
      if rest.paths.isEmpty then .error .usage
      let g ← g.settle waiting
      return {
        subcommand := sub
        paths := rest.paths
        out := rest.out
        noInstrument := g.noInstrument || rest.noInstrument
        runtime := rest.runtime.or g.runtime }
    match ← readOption none (← g.settle waiting) arg with
    | some g => readTop g none args
    | none => .error .usage

/-- Reads the arguments. Where an option is given on both sides, the one behind the subcommand
    counts. -/
def parse (args : List String) : Except Stop Request := readTop {} none args

end LabelWeaver.Command
