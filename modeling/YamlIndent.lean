import YamlIndent.Bytes.Utf8
import YamlIndent.Command.Files
import YamlIndent.Command.Options
import YamlIndent.Command.Report
import YamlIndent.Command.Run
import YamlIndent.Command.Usage
import YamlIndent.Decimal.Double
import YamlIndent.Decimal.Shortest
import YamlIndent.Format.Basic
import YamlIndent.Format.Detection
import YamlIndent.Format.Registry
import YamlIndent.Lead
import YamlIndent.Main
import YamlIndent.Proofs.BlankLines
import YamlIndent.Proofs.Blanks
import YamlIndent.Proofs.Bytes
import YamlIndent.Proofs.Canonical
import YamlIndent.Proofs.Columns
import YamlIndent.Proofs.Command.Checking
import YamlIndent.Proofs.Command.Input
import YamlIndent.Proofs.Command.Reports
import YamlIndent.Proofs.Command.Runs
import YamlIndent.Proofs.Command.Sessions
import YamlIndent.Proofs.Command.Writing
import YamlIndent.Proofs.Comments
import YamlIndent.Proofs.Concatenation
import YamlIndent.Proofs.Copies
import YamlIndent.Proofs.Cycles
import YamlIndent.Proofs.Endings
import YamlIndent.Proofs.Faults
import YamlIndent.Proofs.Format.Registry
import YamlIndent.Proofs.Formatting
import YamlIndent.Proofs.InnerBlanks
import YamlIndent.Proofs.Landing
import YamlIndent.Proofs.Layout.Again
import YamlIndent.Proofs.Layout.Bare
import YamlIndent.Proofs.Layout.Basic
import YamlIndent.Proofs.Layout.Column
import YamlIndent.Proofs.Layout.Documents
import YamlIndent.Proofs.Layout.Frames
import YamlIndent.Proofs.Layout.Lined
import YamlIndent.Proofs.Layout.Room
import YamlIndent.Proofs.Layout.Stream
import YamlIndent.Proofs.Layout.Tokens
import YamlIndent.Proofs.Lead
import YamlIndent.Proofs.Nesting
import YamlIndent.Proofs.Offsets.Documents
import YamlIndent.Proofs.Offsets.Place
import YamlIndent.Proofs.Offsets.Reader
import YamlIndent.Proofs.Offsets.Scanner
import YamlIndent.Proofs.Offsets.Token
import YamlIndent.Proofs.Parts
import YamlIndent.Proofs.Pass.Ancestors
import YamlIndent.Proofs.Pass.Blocks
import YamlIndent.Proofs.Pass.Bounds
import YamlIndent.Proofs.Pass.Course
import YamlIndent.Proofs.Pass.Cursors
import YamlIndent.Proofs.Pass.Documents
import YamlIndent.Proofs.Pass.Indents
import YamlIndent.Proofs.Pass.Sharing
import YamlIndent.Proofs.Pass.Simulation
import YamlIndent.Proofs.Pass.Spacing
import YamlIndent.Proofs.Pass.Stopping
import YamlIndent.Proofs.Pass.Visits
import YamlIndent.Proofs.Quoting
import YamlIndent.Proofs.Recording
import YamlIndent.Proofs.RoundTrip
import YamlIndent.Proofs.Settings.Layers
import YamlIndent.Proofs.Settings.Loading
import YamlIndent.Proofs.Shape
import YamlIndent.Proofs.Shifting
import YamlIndent.Proofs.Source.Documents
import YamlIndent.Proofs.Source.Fork
import YamlIndent.Proofs.Source.Gap
import YamlIndent.Proofs.Source.Likeness
import YamlIndent.Proofs.Source.Progress
import YamlIndent.Proofs.Source.Reading
import YamlIndent.Proofs.Source.Scanner
import YamlIndent.Proofs.Source.Syntax
import YamlIndent.Proofs.Source.Token
import YamlIndent.Proofs.Stopping
import YamlIndent.Proofs.Text.Ending
import YamlIndent.Proofs.Text.Line
import YamlIndent.Proofs.Text.Lower
import YamlIndent.Proofs.Trailing
import YamlIndent.Proofs.Tree.Alike
import YamlIndent.Proofs.Tree.Copy
import YamlIndent.Proofs.Tree.Offset
import YamlIndent.Proofs.Tree.Pieces
import YamlIndent.Proofs.Tree.Preorder
import YamlIndent.Reindent
import YamlIndent.Results
import YamlIndent.Settings.Basic
import YamlIndent.Settings.Layer
import YamlIndent.Settings.Load
import YamlIndent.Settings.Path
import YamlIndent.Source.Block
import YamlIndent.Source.Fault
import YamlIndent.Source.Place
import YamlIndent.Source.Scalar
import YamlIndent.Source.Stream
import YamlIndent.Style
import YamlIndent.Text.Basic
import YamlIndent.Text.Digit
import YamlIndent.Text.LineEnd
import YamlIndent.Text.Lower
import YamlIndent.Text.Printable
import YamlIndent.Text.Quoted
import YamlIndent.Text.Space
import YamlIndent.Text.Word
import YamlIndent.Toml.Document
import YamlIndent.Toml.Fault
import YamlIndent.Toml.Number
import YamlIndent.Toml.Text
import YamlIndent.Toml.Value
import YamlIndent.Trail
import YamlIndent.Trail.Forest
import YamlIndent.Tree.Arena
import YamlIndent.Tree.Basic
import YamlIndent.Tree.Origin
import YamlIndent.Value.Basic
import YamlIndent.Value.Integer
