import LabelWeaver.Toml.Value
import LabelWeaver.Toml.Text
import LabelWeaver.Toml.Number

/-! Whole documents. -/

namespace LabelWeaver.Toml

namespace Reader

/-- Takes nothing; refuses if there is no value. -/
def ofOption {α : Type} : Option α → Reader α
  | some a => pure a
  | none => failure

/-- The table of the entries between braces. -/
def tableOf (pairs : List ((List String × String) × Value)) : Option Entries :=
  pairs.foldlM (fun entries ((path, key), v) => entries.set path key v .opened) []

/-- A value that contains no others. -/
def scalar : Reader Value :=
  (do return .string (← string)) <|>
  (do text "true".toList; return .bool true) <|>
  (do text "false".toList; return .bool false) <|>
  (do dateTime; return .dateTime) <|>
  (do float; return .number) <|>
  (do integer; return .number)

/-- A value with at most `depth` arrays and tables inside each other. -/
def value : (depth : Nat) → Reader Value
  | 0 => scalar
  | depth + 1 => do
    match ← peek? with
    | some '[' =>
      char '['
      let items ← separated (char ',') do
        filler
        let v ← value depth
        filler
        return v
      if !items.isEmpty then
        let _ ← optional (char ',')
      filler
      char ']'
      return .array items
    | some '\x7b' =>
      char '\x7b'
      let pairs ← separated (char ',') do
        let k ← key
        char '='
        blanks
        let v ← value depth
        blanks
        return (k, v)
      blanks
      char '\x7d'
      return .inlineTable (← ofOption (tableOf pairs))
    | _ => scalar

end Reader

open Reader

/-- A document that is read up to some point, and the path of the table that is open there. -/
structure Document where
  entries : Entries
  here : List String

namespace Document

/-- Sets a key in the open table. -/
def set (d : Document) (path : List String) (key : String) (v : Value) : Option Document := do
  let entries ← Entries.update .implied (Entries.set path key v) d.here .opened d.entries
  return { d with entries := entries }

/-- A header: single brackets open a table, double brackets one more table of a list. -/
def header (d : Document) : Reader Document := (do
    text ['[', '[']
    let (path, last) ← key
    text [']', ']']
    lineRest
    return ⟨← ofOption (d.entries.openItem path last), path ++ [last]⟩) <|> do
    char '['
    let (path, last) ← key
    char ']'
    lineRest
    return ⟨← ofOption (d.entries.openTable path last), path ++ [last]⟩

/-- A key and its value. -/
def entry (d : Document) : Reader Document := do
  let (path, last) ← key
  char '='
  blanks
  let v ← value (nestingLimit - 1)
  lineRest
  ofOption (d.set path last v)

/-- Reads on to the end of the text; `size` is at least the number of its lines. -/
def readFrom : (size : Nat) → Document → Reader Document
  | 0, _ => failure
  | size + 1, d => do
    blanks
    match ← peek? with
    | none => return d
    | some '#' =>
      comment
      lineEnd
      readFrom size d
    | some '[' => readFrom size (← d.header)
    | some '\n' | some '\r' =>
      newline
      readFrom size d
    | some _ => readFrom size (← d.entry)

end Document

/-- The entries of a document. A byte order mark in front is left out. -/
def parse (source : String) : Option Entries :=
  let cs := match source.toList with
    | '\ufeff' :: cs => cs
    | cs => cs
  match Document.readFrom (cs.length + 1) ⟨[], []⟩ cs with
  | some (d, _) => some d.entries
  | none => none

end LabelWeaver.Toml
