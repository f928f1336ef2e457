import LabelWeaver.Token.Basic

/-! What can be wrong with the order of tokens. -/

namespace LabelWeaver

/-- The reasons why a sequence of tokens is no program. -/
inductive SyntaxFault where
  | unexpectedEnd
  | unclosedBlock
  | trailingInput
  | unexpected (found : Token.Kind)
  | expected (wanted found : Token.Kind)
  | expectedIdentifier (found : Token.Kind)
  | expectedPropertyName (found : Token.Kind)
  | expectedPropertyKey (found : Token.Kind)
  | expectedSemicolon
  | expectedKeyColon
  | expectedPatternColon
  | expectedCase
  | secondDefault
  | lineBreakAfterThrow
  | lineBreakBeforeArrow
  | missingHandler
  | invalidLoopTarget
  | invalidAssignTarget
  | invalidUpdateTarget
  | receiverOutsideParams
  | receiverTwice
  | receiverWithDefault
  | receiverInsidePattern
  | receiverAlreadyMarked
  | expectedContract
  | unclosedLabels
  | unnamedLabel
  | copyArguments (count : Nat)
  /-- A message chosen by the caller. -/
  | note (text : String)
  deriving DecidableEq, Repr

def SyntaxFault.message : SyntaxFault → String
  | unexpectedEnd => "unexpected end of input"
  | unclosedBlock => "unexpected end of input; expected '\x7d'"
  | trailingInput => "unexpected trailing input"
  | unexpected found => "unexpected " ++ found.describe
  | expected wanted found => "expected " ++ wanted.describe ++ ", found " ++ found.describe
  | expectedIdentifier found => "expected identifier, found " ++ found.describe
  | expectedPropertyName found => "expected property name, found " ++ found.describe
  | expectedPropertyKey found => "expected property key, found " ++ found.describe
  | expectedSemicolon => "expected ';'"
  | expectedKeyColon => "expected ':' after property key"
  | expectedPatternColon => "expected ':' after property key in pattern"
  | expectedCase => "expected 'case' or 'default'"
  | secondDefault => "more than one 'default' clause in switch"
  | lineBreakAfterThrow => "illegal line break after 'throw'"
  | lineBreakBeforeArrow => "line break before '=>'"
  | missingHandler => "missing 'catch' or 'finally' after 'try' block"
  | invalidLoopTarget => "invalid left-hand side in for-in loop"
  | invalidAssignTarget => "invalid assignment target"
  | invalidUpdateTarget => "invalid increment/decrement operand"
  | receiverOutsideParams => "a 'this' annotation is only allowed in a parameter list"
  | receiverTwice => "only one 'this' annotation is allowed per function"
  | receiverWithDefault => "a 'this' annotation cannot have a default value"
  | receiverInsidePattern => "a 'this' annotation must be a parameter of its own"
  | receiverAlreadyMarked => "'this' is already annotated in the parameter list"
  | expectedContract => "expected a type or a label list '<!'"
  | unclosedLabels => "expected '!>' to close the label list"
  | unnamedLabel => "a label must start with a name"
  | copyArguments count => "cpAnn takes 2 arguments, found " ++ toString count
  | note text => text

/-- A fault and where it lies. -/
structure SyntaxError where
  fault : SyntaxFault
  span : Span
  deriving DecidableEq, Repr

def SyntaxError.message (e : SyntaxError) : String := "parse error: " ++ e.fault.message

end LabelWeaver
