/-! The words of the language. Reserved words are never names; the contextual words belong to the
    annotation language and are ordinary names wherever it gives them no meaning. -/

namespace LabelWeaver

/-- The reserved words. -/
inductive Reserved where
  | kwVar | kwLet | kwConst | kwFunction | kwReturn | kwIf | kwElse | kwFor | kwWhile | kwDo
  | kwBreak | kwContinue | kwNew | kwDelete | kwTypeof | kwVoid | kwInstanceof | kwIn | kwThis
  | kwNull | kwTrue | kwFalse | kwThrow | kwTry | kwCatch | kwFinally | kwSwitch | kwCase
  | kwDefault
  deriving DecidableEq, Repr

namespace Reserved

def all : List Reserved :=
  [kwVar, kwLet, kwConst, kwFunction, kwReturn, kwIf, kwElse, kwFor, kwWhile, kwDo,
   kwBreak, kwContinue, kwNew, kwDelete, kwTypeof, kwVoid, kwInstanceof, kwIn, kwThis,
   kwNull, kwTrue, kwFalse, kwThrow, kwTry, kwCatch, kwFinally, kwSwitch, kwCase,
   kwDefault]

def text : Reserved → String
  | kwVar => "var"
  | kwLet => "let"
  | kwConst => "const"
  | kwFunction => "function"
  | kwReturn => "return"
  | kwIf => "if"
  | kwElse => "else"
  | kwFor => "for"
  | kwWhile => "while"
  | kwDo => "do"
  | kwBreak => "break"
  | kwContinue => "continue"
  | kwNew => "new"
  | kwDelete => "delete"
  | kwTypeof => "typeof"
  | kwVoid => "void"
  | kwInstanceof => "instanceof"
  | kwIn => "in"
  | kwThis => "this"
  | kwNull => "null"
  | kwTrue => "true"
  | kwFalse => "false"
  | kwThrow => "throw"
  | kwTry => "try"
  | kwCatch => "catch"
  | kwFinally => "finally"
  | kwSwitch => "switch"
  | kwCase => "case"
  | kwDefault => "default"

/-- The reserved word with this spelling. -/
def ofText? (word : String) : Option Reserved := all.find? (·.text == word)

theorem mem_all (w : Reserved) : w ∈ all := by cases w <;> decide

theorem ofText?_text (w : Reserved) : ofText? w.text = some w := by cases w <;> decide +kernel

theorem text_of_ofText? {word : String} {w : Reserved} (h : ofText? word = some w) :
    w.text = word := by
  have := List.find?_some h
  simpa using this

end Reserved

/-- The words of the annotation language. -/
inductive Contextual where
  | kwAssert | kwWhere | kwIs | kwAs | kwDrop | kwSecAnn | kwExtends | kwTraitRule | kwPtrait
  | kwSymbolic
  deriving DecidableEq, Repr

namespace Contextual

def all : List Contextual :=
  [kwAssert, kwWhere, kwIs, kwAs, kwDrop, kwSecAnn, kwExtends, kwTraitRule, kwPtrait, kwSymbolic]

def text : Contextual → String
  | kwAssert => "assert"
  | kwWhere => "where"
  | kwIs => "is"
  | kwAs => "as"
  | kwDrop => "drop"
  | kwSecAnn => "SecAnn"
  | kwExtends => "Extends"
  | kwTraitRule => "traitrule"
  | kwPtrait => "ptrait"
  | kwSymbolic => "symbolic"

theorem mem_all (w : Contextual) : w ∈ all := by cases w <;> decide

end Contextual

end LabelWeaver
