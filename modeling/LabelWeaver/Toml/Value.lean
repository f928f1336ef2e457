/-! Values of TOML documents and the rules on how tables may be built up. A table is opened by a
    header, implied by the header of a table inside it, made by a dotted key, or written in one
    piece; what made it decides who may add to it. -/

namespace LabelWeaver.Toml

/-- What a table comes from. -/
inductive TableKind where
  /-- Named on the way to another table by a header. -/
  | implied
  /-- Named on the way to a value by a dotted key. -/
  | dotted
  /-- Opened by its own header; the document itself is of this kind. -/
  | opened
  deriving DecidableEq, Repr

/-- Values. What a number or a date is does not matter here. -/
inductive Value where
  | string (text : String)
  | bool (value : Bool)
  | number
  | dateTime
  | array (items : List Value)
  /-- A table between braces. -/
  | inlineTable (entries : List (String × Value))
  | table (kind : TableKind) (entries : List (String × Value))
  /-- Tables with the same double header. -/
  | tables (items : List Value)

/-- Keys with their values, in the order of the document. -/
abbrev Entries := List (String × Value)

namespace Entries

def get? (entries : Entries) (key : String) : Option Value := entries.lookup key

/-- Adds a key that is not there yet. -/
def add (entries : Entries) (key : String) (v : Value) : Entries := entries ++ [(key, v)]

/-- Gives a key that is there another value. -/
def replace (entries : Entries) (key : String) (v : Value) : Entries :=
  entries.map fun (k, old) => if k == key then (k, v) else (k, old)

/-- Changes the table at the end of a path; tables that are missing on the way become tables of the
    kind `made`. A dotted key does not pass through a table with a header of its own, and nothing
    passes through a value. -/
def update (made : TableKind) (change : TableKind → Entries → Option Entries) :
    (path : List String) → TableKind → Entries → Option Entries
  | [], kind, entries => change kind entries
  | key :: path, _, entries =>
    match entries.get? key with
    | none => do
      let inner ← update made change path made []
      return entries.add key (.table made inner)
    | some (.table kind inner) =>
      if made = .dotted ∧ kind = .opened then none
      else do
        let inner ← update made change path kind inner
        return entries.replace key (.table kind inner)
    | some (.tables items) =>
      match items.getLast? with
      | some (.table kind inner) => do
        let inner ← update made change path kind inner
        return entries.replace key (.tables (items.dropLast ++ [.table kind inner]))
      | _ => none
    | some _ => none

/-- Sets a key, which must be new. A dotted key adds only to tables made by dotted keys. -/
def set (path : List String) (key : String) (v : Value) (kind : TableKind) (entries : Entries) :
    Option Entries :=
  let change (kind : TableKind) (entries : Entries) : Option Entries :=
    if (kind == .dotted) == path.isEmpty then none
    else if (entries.get? key).isSome then none
    else some (entries.add key v)
  update .dotted change path kind entries

/-- Opens a table by its header; only an implied table may be there. -/
def openTable (path : List String) (key : String) (entries : Entries) : Option Entries :=
  let change (_ : TableKind) (entries : Entries) : Option Entries :=
    match entries.get? key with
    | none => some (entries.add key (.table .opened []))
    | some (.table .implied inner) => some (entries.replace key (.table .opened inner))
    | some _ => none
  update .implied change path .opened entries

/-- Opens one more table of those with the same double header. -/
def openItem (path : List String) (key : String) (entries : Entries) : Option Entries :=
  let change (_ : TableKind) (entries : Entries) : Option Entries :=
    match entries.get? key with
    | none => some (entries.add key (.tables [.table .opened []]))
    | some (.tables items) => some (entries.replace key (.tables (items ++ [.table .opened []])))
    | some _ => none
  update .implied change path .opened entries

end Entries

end LabelWeaver.Toml
