import QuestScript.Action.Reading
import QuestScript.Decimal.Binary64
import QuestScript.Decimal.Reading
import QuestScript.Decimal.Writing
import QuestScript.Diagnostic
import QuestScript.Expr
import QuestScript.Expr.Reading
import QuestScript.Fault
import QuestScript.LinkSpan
import QuestScript.Options
import QuestScript.Outcome
import QuestScript.Parser
import QuestScript.Position
import QuestScript.Print.Reading
import QuestScript.Print.Writing
import QuestScript.Program
import QuestScript.Program.Equality
import QuestScript.Program.Reading
import QuestScript.Proofs.Action.Correspondence
import QuestScript.Proofs.Action.Embedding
import QuestScript.Proofs.Action.Jump
import QuestScript.Proofs.Action.Limit
import QuestScript.Proofs.Action.Parallel
import QuestScript.Proofs.Action.Shorter
import QuestScript.Proofs.Correspondence
import QuestScript.Proofs.Expr.Condition
import QuestScript.Proofs.Expr.Extent
import QuestScript.Proofs.Expr.Grammar
import QuestScript.Proofs.Expr.Locality
import QuestScript.Proofs.Expr.Number
import QuestScript.Proofs.Expr.Parallel
import QuestScript.Proofs.Expr.RoundTrip
import QuestScript.Proofs.Expr.Spelling
import QuestScript.Proofs.Expr.Text
import QuestScript.Proofs.Expr.Typing
import QuestScript.Proofs.Expr.Value
import QuestScript.Proofs.LinkSpan
import QuestScript.Proofs.Outcome
import QuestScript.Proofs.Parallel
import QuestScript.Proofs.Parallel.Embedding
import QuestScript.Proofs.Parallel.Line
import QuestScript.Proofs.Parser.Boundary
import QuestScript.Proofs.Parser.Composition
import QuestScript.Proofs.Parser.Correspondence
import QuestScript.Proofs.Parser.Everywhere
import QuestScript.Proofs.Parser.Grammar
import QuestScript.Proofs.Parser.Guarded
import QuestScript.Proofs.Parser.Labels
import QuestScript.Proofs.Parser.Letters
import QuestScript.Proofs.Parser.Limit
import QuestScript.Proofs.Parser.Named
import QuestScript.Proofs.Parser.Nesting
import QuestScript.Proofs.Parser.Pointing
import QuestScript.Proofs.Parser.Policy
import QuestScript.Proofs.Parser.Progress
import QuestScript.Proofs.Parser.Quantity
import QuestScript.Proofs.Parser.Returns
import QuestScript.Proofs.Parser.Segment
import QuestScript.Proofs.Position
import QuestScript.Proofs.Print.Agreement
import QuestScript.Proofs.Print.Decoding
import QuestScript.Proofs.Print.Factoring
import QuestScript.Proofs.Print.Meaning
import QuestScript.Proofs.Print.RoundTrip
import QuestScript.Proofs.Program.Block
import QuestScript.Proofs.Program.Composition
import QuestScript.Proofs.Program.Correspondence
import QuestScript.Proofs.Program.Depth
import QuestScript.Proofs.Program.Grammar
import QuestScript.Proofs.Program.Guarded
import QuestScript.Proofs.Program.Keeps
import QuestScript.Proofs.Program.Labels
import QuestScript.Proofs.Program.Lenient
import QuestScript.Proofs.Program.Line
import QuestScript.Proofs.Program.LineEnd
import QuestScript.Proofs.Program.Named
import QuestScript.Proofs.Program.Origin
import QuestScript.Proofs.Program.Parallel
import QuestScript.Proofs.Program.Progress
import QuestScript.Proofs.Program.Renumbering
import QuestScript.Proofs.Program.RoundTrip
import QuestScript.Proofs.Program.Segment
import QuestScript.Proofs.Program.Typing
import QuestScript.Proofs.Program.WellFormed
import QuestScript.Proofs.Report
import QuestScript.Proofs.Statement.Correspondence
import QuestScript.Proofs.Statement.Extent
import QuestScript.Proofs.Statement.Fields
import QuestScript.Proofs.Statement.Parallel
import QuestScript.Proofs.Statement.Quantity
import QuestScript.Proofs.Statement.Slices
import QuestScript.Proofs.Suggestion.Distance
import QuestScript.Proofs.Suggestion.Nearest
import QuestScript.Proofs.Text.Trim
import QuestScript.Proofs.Token.Account
import QuestScript.Proofs.Token.Clean
import QuestScript.Proofs.Token.Layout
import QuestScript.Proofs.Token.Locality
import QuestScript.Proofs.Token.Numeral
import QuestScript.Proofs.Token.Opening
import QuestScript.Proofs.Token.Passing
import QuestScript.Proofs.Token.Payload
import QuestScript.Proofs.Token.Piecewise
import QuestScript.Proofs.Token.Returns
import QuestScript.Proofs.Token.Shape
import QuestScript.Proofs.Token.Standing
import QuestScript.Proofs.Token.Stop
import QuestScript.Proofs.Token.Trailing
import QuestScript.Proofs.Token.Uncovered
import QuestScript.Statement.Fields
import QuestScript.Statement.Reading
import QuestScript.Suggestion
import QuestScript.Text.Basic
import QuestScript.Text.Lowercase
import QuestScript.Text.Word
import QuestScript.Token
import QuestScript.Token.Extent
import QuestScript.Token.Payload
import QuestScript.Token.Scan
