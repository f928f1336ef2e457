import LabelWeaver.Main
import LabelWeaver.Proofs.Instrument.Checks
import LabelWeaver.Proofs.Instrument.Exact
import LabelWeaver.Proofs.Instrument.Reruns
import LabelWeaver.Proofs.Grammar.Lockstep
import LabelWeaver.Proofs.Grammar.Patterns
import LabelWeaver.Proofs.Grammar.Expressions
import LabelWeaver.Proofs.Grammar.Statements
import LabelWeaver.Proofs.Label.Signatures
import LabelWeaver.Proofs.Label.Productions
import LabelWeaver.Proofs.Grammar.Sites
import LabelWeaver.Proofs.Tree.Each
import LabelWeaver.Proofs.Instrument.Covered
import LabelWeaver.Proofs.Label.Coverage
import LabelWeaver.Proofs.Label.Additions
import LabelWeaver.Proofs.Token.ReadAs
import LabelWeaver.Proofs.Grammar.Reads
import LabelWeaver.Proofs.Label.Annotated
import LabelWeaver.Proofs.Label.ReadAnnotations
import LabelWeaver.Proofs.Label.Transparent
import LabelWeaver.Proofs.Tree.Proper
import LabelWeaver.Proofs.Grammar.Yields.Basic
import LabelWeaver.Proofs.Grammar.Yields.Functions
import LabelWeaver.Proofs.Grammar.Yields.Expressions
import LabelWeaver.Proofs.Grammar.Yields.Statements
import LabelWeaver.Proofs.Token.Legal
import LabelWeaver.Proofs.Label.Conservative
import LabelWeaver.Proofs.Label.Yields
import LabelWeaver.Proofs.Label.WellFormed
import LabelWeaver.Proofs.Grammar.Recovers.Atoms
import LabelWeaver.Proofs.Grammar.Recovers.Control
import LabelWeaver.Proofs.Layout.Exposed
import LabelWeaver.Proofs.Token.Partition
import LabelWeaver.Proofs.Token.Faults
import LabelWeaver.Proofs.Grammar.Spans.Basic
import LabelWeaver.Proofs.Grammar.Spans.Productions
import LabelWeaver.Proofs.Label.Diagnostics
import LabelWeaver.Proofs.Label.Stacked
import LabelWeaver.Proofs.Layout.Readable.Statements
import LabelWeaver.Proofs.Layout.RoundTrip
import LabelWeaver.Proofs.Layout.Concat
import LabelWeaver.Proofs.Layout.Comments
import LabelWeaver.Proofs.Text.Escapes
import LabelWeaver.Proofs.Instrument.Predicted
import LabelWeaver.Proofs.Label.Suffixes
import LabelWeaver.Proofs.Token.Words
import LabelWeaver.Proofs.Grammar.Consumes
import LabelWeaver.Proofs.Label.Trees
import LabelWeaver.Proofs.Label.Ordered
import LabelWeaver.Proofs.Label.Extracted
import LabelWeaver.Proofs.Layout.Formulas
import LabelWeaver.Proofs.Check.Running
import LabelWeaver.Proofs.Check.Shapes
