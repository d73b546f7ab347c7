import XhrKeywords.CommandLine.Argument
import XhrKeywords.CommandLine.Directory
import XhrKeywords.CommandLine.Log
import XhrKeywords.CommandLine.Path
import XhrKeywords.CommandLine.Report
import XhrKeywords.CommandLine.Request
import XhrKeywords.CommandLine.Run
import XhrKeywords.Cursor
import XhrKeywords.Diff.Edit
import XhrKeywords.Diff.Stretch
import XhrKeywords.Diff.Unified
import XhrKeywords.Grammar.Argument
import XhrKeywords.Grammar.Block
import XhrKeywords.Grammar.Body
import XhrKeywords.Grammar.Build
import XhrKeywords.Grammar.Call
import XhrKeywords.Grammar.Control
import XhrKeywords.Grammar.Definition
import XhrKeywords.Grammar.Error
import XhrKeywords.Grammar.Expression
import XhrKeywords.Grammar.Literal
import XhrKeywords.Grammar.Parameter
import XhrKeywords.Grammar.Phrase
import XhrKeywords.Grammar.Primary
import XhrKeywords.Grammar.Program
import XhrKeywords.Grammar.State
import XhrKeywords.Grammar.Statement
import XhrKeywords.Grammar.Target
import XhrKeywords.Main
import XhrKeywords.Migration.Arguments
import XhrKeywords.Migration.Call
import XhrKeywords.Migration.Conversion
import XhrKeywords.Migration.Refusal
import XhrKeywords.Migration.Replacement
import XhrKeywords.Patch
import XhrKeywords.Proofs.CommandLine.Directory
import XhrKeywords.Proofs.CommandLine.Isolation
import XhrKeywords.Proofs.Diff.Edit
import XhrKeywords.Proofs.Diff.Stretch
import XhrKeywords.Proofs.Diff.Unified
import XhrKeywords.Proofs.Grammar.Beside.Argument
import XhrKeywords.Proofs.Grammar.Beside.Basic
import XhrKeywords.Proofs.Grammar.Beside.Body
import XhrKeywords.Proofs.Grammar.Beside.Call
import XhrKeywords.Proofs.Grammar.Beside.Expression
import XhrKeywords.Proofs.Grammar.Beside.Hash
import XhrKeywords.Proofs.Grammar.Beside.Primary
import XhrKeywords.Proofs.Grammar.Beside.Program
import XhrKeywords.Proofs.Grammar.Blamed
import XhrKeywords.Proofs.Grammar.Called
import XhrKeywords.Proofs.Grammar.Exposed
import XhrKeywords.Proofs.Grammar.Fit
import XhrKeywords.Proofs.Grammar.Grouping.Argument
import XhrKeywords.Proofs.Grammar.Grouping.Basic
import XhrKeywords.Proofs.Grammar.Grouping.Body
import XhrKeywords.Proofs.Grammar.Grouping.Primary
import XhrKeywords.Proofs.Grammar.Grouping.Program
import XhrKeywords.Proofs.Grammar.Leaves
import XhrKeywords.Proofs.Grammar.Moved.Argument
import XhrKeywords.Proofs.Grammar.Moved.Basic
import XhrKeywords.Proofs.Grammar.Moved.Body
import XhrKeywords.Proofs.Grammar.Moved.Primary
import XhrKeywords.Proofs.Grammar.Moved.Program
import XhrKeywords.Proofs.Grammar.Nest.Argument
import XhrKeywords.Proofs.Grammar.Nest.Basic
import XhrKeywords.Proofs.Grammar.Nest.Block
import XhrKeywords.Proofs.Grammar.Nest.Body
import XhrKeywords.Proofs.Grammar.Nest.Control
import XhrKeywords.Proofs.Grammar.Nest.Definition
import XhrKeywords.Proofs.Grammar.Nest.Expression
import XhrKeywords.Proofs.Grammar.Nest.Primary
import XhrKeywords.Proofs.Grammar.Nest.Program
import XhrKeywords.Proofs.Grammar.Printable
import XhrKeywords.Proofs.Grammar.Progress.Argument
import XhrKeywords.Proofs.Grammar.Progress.Basic
import XhrKeywords.Proofs.Grammar.Progress.Body
import XhrKeywords.Proofs.Grammar.Progress.Parse
import XhrKeywords.Proofs.Grammar.Progress.Primary
import XhrKeywords.Proofs.Grammar.Progress.Program
import XhrKeywords.Proofs.Grammar.Reread.Argument
import XhrKeywords.Proofs.Grammar.Reread.BlockHead
import XhrKeywords.Proofs.Grammar.Reread.Call
import XhrKeywords.Proofs.Grammar.Reread.Command
import XhrKeywords.Proofs.Grammar.Reread.Entry
import XhrKeywords.Proofs.Grammar.Reread.Listing
import XhrKeywords.Proofs.Grammar.Reread.Names
import XhrKeywords.Proofs.Grammar.Reread.Plain
import XhrKeywords.Proofs.Grammar.Reread.Value
import XhrKeywords.Proofs.Grammar.Running
import XhrKeywords.Proofs.Grammar.Scope
import XhrKeywords.Proofs.Grammar.Shown
import XhrKeywords.Proofs.Grammar.Watch.Basic
import XhrKeywords.Proofs.Grammar.Watch.Body
import XhrKeywords.Proofs.Grammar.Watch.Primary
import XhrKeywords.Proofs.Grammar.Watch.Program
import XhrKeywords.Proofs.Migration.Carried
import XhrKeywords.Proofs.Migration.Checked
import XhrKeywords.Proofs.Migration.Converted
import XhrKeywords.Proofs.Migration.Convertible
import XhrKeywords.Proofs.Migration.Frame
import XhrKeywords.Proofs.Migration.Heredocs
import XhrKeywords.Proofs.Migration.LineEnds
import XhrKeywords.Proofs.Migration.Moved
import XhrKeywords.Proofs.Migration.Overlap
import XhrKeywords.Proofs.Migration.Overrun
import XhrKeywords.Proofs.Migration.Quiet
import XhrKeywords.Proofs.Migration.RoundTrip
import XhrKeywords.Proofs.Migration.Sites
import XhrKeywords.Proofs.Outcome
import XhrKeywords.Proofs.Patch.Moved
import XhrKeywords.Proofs.Patch.Order
import XhrKeywords.Proofs.Patch.Outside
import XhrKeywords.Proofs.Patch.Overlap
import XhrKeywords.Proofs.Patch.Reordered
import XhrKeywords.Proofs.Patch.Sequential
import XhrKeywords.Proofs.Patch.Splice
import XhrKeywords.Proofs.Syntax.Accounted
import XhrKeywords.Proofs.Syntax.Descent
import XhrKeywords.Proofs.Syntax.Exposed
import XhrKeywords.Proofs.Syntax.Form
import XhrKeywords.Proofs.Syntax.Kept
import XhrKeywords.Proofs.Syntax.Leaves
import XhrKeywords.Proofs.Syntax.Moved
import XhrKeywords.Proofs.Syntax.Nested
import XhrKeywords.Proofs.Syntax.Occurs
import XhrKeywords.Proofs.Syntax.Plain
import XhrKeywords.Proofs.Syntax.Printable
import XhrKeywords.Proofs.Syntax.Rule
import XhrKeywords.Proofs.Syntax.Shown.Basic
import XhrKeywords.Proofs.Syntax.Shown.Body
import XhrKeywords.Proofs.Syntax.Shown.Tree
import XhrKeywords.Proofs.Syntax.Shown.Value
import XhrKeywords.Proofs.Text.Feed
import XhrKeywords.Proofs.Text.Utf8
import XhrKeywords.Proofs.Token.Adjacent
import XhrKeywords.Proofs.Token.Alone
import XhrKeywords.Proofs.Token.Bodies
import XhrKeywords.Proofs.Token.Chain
import XhrKeywords.Proofs.Token.Ending
import XhrKeywords.Proofs.Token.Excerpt
import XhrKeywords.Proofs.Token.Extent
import XhrKeywords.Proofs.Token.Lines
import XhrKeywords.Proofs.Token.Moved
import XhrKeywords.Proofs.Token.Order
import XhrKeywords.Proofs.Token.Origin
import XhrKeywords.Proofs.Token.Placement
import XhrKeywords.Proofs.Token.Position
import XhrKeywords.Proofs.Token.Progress
import XhrKeywords.Proofs.Token.Quoted
import XhrKeywords.Proofs.Token.Readable
import XhrKeywords.Proofs.Token.Scanner
import XhrKeywords.Proofs.Token.Shape
import XhrKeywords.Proofs.Token.Stream
import XhrKeywords.Proofs.Token.Trivia
import XhrKeywords.Proofs.Token.Word
import XhrKeywords.Proofs.Unicode.Ascii
import XhrKeywords.Syntax.Kind
import XhrKeywords.Syntax.Node
import XhrKeywords.Syntax.Printer
import XhrKeywords.Text.Lines
import XhrKeywords.Text.Quoted
import XhrKeywords.Text.Utf8
import XhrKeywords.Token.Basic
import XhrKeywords.Token.Context
import XhrKeywords.Token.Delimited
import XhrKeywords.Token.Display
import XhrKeywords.Token.Error
import XhrKeywords.Token.Heredocs
import XhrKeywords.Token.Item
import XhrKeywords.Token.Kind
import XhrKeywords.Token.Lexer
import XhrKeywords.Token.Literal
import XhrKeywords.Token.Name
import XhrKeywords.Token.Number
import XhrKeywords.Token.Operator
import XhrKeywords.Unicode.Blank
import XhrKeywords.Unicode.Boundaries
import XhrKeywords.Unicode.Case
import XhrKeywords.Unicode.Identifier
import XhrKeywords.Unicode.Letter
import XhrKeywords.Unicode.Numeric
import XhrKeywords.Unicode.Printable
