import LabelWeaver.Command.Args

/-! The help texts: a page for each topic. A page says what its topic is about and how it is used,
    and lists words with their meaning in columns. -/

namespace LabelWeaver.Command

/-- A word of the command line and its meaning. -/
structure Entry where
  word : String
  meaning : String := ""
  deriving DecidableEq, Repr

/-- Entries under a title. -/
structure Listing where
  title : String
  entries : List Entry
  deriving DecidableEq, Repr

structure Page where
  about : String
  usage : String
  listings : List Listing
  deriving DecidableEq, Repr

namespace Listing

/-- The width of the column of words. -/
def width (l : Listing) : Nat :=
  l.entries.foldl (fun w e => max w e.word.length) 0

/-- A line for an entry. The meanings start in one column; the column of words is filled up even
    where there is no meaning. -/
def line (width : Nat) (e : Entry) : String :=
  let blanks := String.ofList (List.replicate (width - e.word.length) ' ')
  "  " ++ e.word ++ blanks ++ "  " ++ e.meaning ++ "\n"

def render (l : Listing) : String :=
  "\n" ++ l.title ++ ":\n" ++ String.join (l.entries.map (line l.width))

end Listing

def Page.render (p : Page) : String :=
  p.about ++ "\n\nUsage: " ++ p.usage ++ "\n" ++ String.join (p.listings.map Listing.render)

/-! ### Entries -/

def compileEntry : Entry :=
  ⟨"compile", "Compile source files; outputs are concatenated in argument order"⟩

def checkEntry : Entry :=
  ⟨"check", "Parse and instrument source files, reporting diagnostics only"⟩

def helpEntry : Entry :=
  ⟨"help", "Print this message or the help of the given subcommand(s)"⟩

def noInstrumentEntry : Entry :=
  ⟨"    --no-instrument",
    "Parse annotations but emit the plain program. Overrides `labelflow.toml`"⟩

def outEntry : Entry :=
  ⟨"    --out <OUT>", "Write to this file instead of stdout"⟩

def runtimeEntry : Entry :=
  ⟨"    --runtime <RUNTIME>", "Name of the label runtime object. Overrides `labelflow.toml`"⟩

def verboseEntry : Entry :=
  ⟨"-v, --verbose...", "More log output (repeatable). `RUST_LOG` takes precedence"⟩

def helpOptionEntry : Entry := ⟨"-h, --help", "Print help"⟩

def versionEntry : Entry := ⟨"-V, --version", "Print version"⟩

/-! ### Pages -/

/-- The paths that both subcommands take. -/
def pathsListing : Listing := ⟨"Arguments", [⟨"<PATHS>...", ""⟩]⟩

/-- The page of a topic. -/
def Topic.page : Topic → Page
  | overview => {
      about := "Security-label annotation compiler"
      usage := "labelflow [OPTIONS] <COMMAND>"
      listings := [
        ⟨"Commands", [compileEntry, checkEntry, helpEntry]⟩,
        ⟨"Options",
          [noInstrumentEntry, runtimeEntry, verboseEntry, helpOptionEntry, versionEntry]⟩] }
  | subcommand .compile => {
      about := compileEntry.meaning
      usage := "labelflow compile [OPTIONS] <PATHS>..."
      listings := [
        pathsListing,
        ⟨"Options",
          [noInstrumentEntry, outEntry, runtimeEntry, verboseEntry, helpOptionEntry]⟩] }
  | subcommand .check => {
      about := checkEntry.meaning
      usage := "labelflow check [OPTIONS] <PATHS>..."
      listings := [
        pathsListing,
        ⟨"Options", [noInstrumentEntry, runtimeEntry, verboseEntry, helpOptionEntry]⟩] }
  | help => {
      about := helpEntry.meaning
      usage := "labelflow help [COMMAND]..."
      listings := [⟨"Arguments", [⟨"[COMMAND]...", "Print help for the subcommand(s)"⟩]⟩] }

/-- The help text of a topic. -/
def Topic.text (t : Topic) : String := t.page.render

/-- The name and version of the program. -/
def versionLine : String := "labelflow 0.1.0\n"

end LabelWeaver.Command
