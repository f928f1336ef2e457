import LabelWeaver.Grammar.Basic
import LabelWeaver.Label.Scan
import LabelWeaver.Label.Signature
import LabelWeaver.Label.Statement

/-! The annotation language as a layer over a grammar. -/

namespace LabelWeaver

/-- Annotations of security labels, compiled as the settings say. -/
def Layer.labels (settings : Settings) : Layer where
  scan := Label.scan
  statement := Label.statement settings
  binding := Label.binding
  atom := Label.atom settings
  trailing := Label.trailing settings
  params := Label.params
  body _ := Label.body settings

/-- The base language with one layer of annotations. -/
def Grammar.labels (settings : Settings) : Grammar := [.labels settings]

end LabelWeaver
