import LabelWeaver.Project.Path

/-! Files and directories, and what a path leads to among them. -/

namespace LabelWeaver

/-- What a program may ask about files, in any monad. -/
structure Lookup (m : Type → Type) where
  /-- The path leads to a file. -/
  isFile : String → m Bool
  /-- The path leads to a file or a directory. -/
  pathExists : String → m Bool
  /-- The text of the file, if it can be read. -/
  read : String → m (Option String)

/-- Files and directories by their names from the root down, and the current directory. The
    directories on the way to an entry need no entry of their own. -/
structure Disk where
  files : List (List String × String)
  dirs : List (List String)
  cwd : List String

namespace Disk

def file? (d : Disk) (loc : List String) : Option String := d.files.lookup loc

def isDir (d : Disk) (loc : List String) : Bool :=
  loc.isEmpty || loc.isPrefixOf d.cwd || d.dirs.any loc.isPrefixOf ||
    d.files.any fun (names, _) => loc.isPrefixOf names && loc != names

/-- Goes on from `loc` part by part. Only directories have parts; the parent of the root is the
    root. -/
def walk (d : Disk) : (loc : List String) → (parts : List String) → Option (List String)
  | loc, [] => some loc
  | loc, part :: parts =>
    if !d.isDir loc then none
    else if part = "" ∨ part = "." then d.walk loc parts
    else if part = ".." then d.walk loc.dropLast parts
    else d.walk (loc ++ [part]) parts

/-- Where a path leads; there need not be anything yet. -/
def resolve (d : Disk) (p : String) : Option (List String) :=
  if p.isEmpty then none
  else d.walk (if Path.isAbsolute p then [] else d.cwd) (Path.parts p)

def isFile (d : Disk) (p : String) : Bool := (d.resolve p).any fun loc => (d.file? loc).isSome

def pathExists (d : Disk) (p : String) : Bool :=
  (d.resolve p).any fun loc => (d.file? loc).isSome || d.isDir loc

def read (d : Disk) (p : String) : Option String := (d.resolve p).bind d.file?

def lookup (d : Disk) : Lookup Id where
  isFile := d.isFile
  pathExists := d.pathExists
  read := d.read

/-- Writes a file whose directory exists. -/
def write (d : Disk) (p text : String) : Option Disk := do
  let loc ← d.resolve p
  if d.isDir loc then none
  else return { d with files := (loc, text) :: d.files.filter (·.1 != loc) }

end Disk

end LabelWeaver
