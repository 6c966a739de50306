import CSharpTidy.Changes
import CSharpTidy.CommandLine.Basic
import CSharpTidy.CommandLine.Help
import CSharpTidy.CommandLine.Read
import CSharpTidy.Document
import CSharpTidy.Fault
import CSharpTidy.Files.Disk
import CSharpTidy.Files.Store
import CSharpTidy.Files.Tree
import CSharpTidy.Files.Walk
import CSharpTidy.Format.Basic
import CSharpTidy.Format.Solution
import CSharpTidy.Format.Spacing
import CSharpTidy.Loading.Load
import CSharpTidy.Loading.SolutionFile
import CSharpTidy.Loading.Sources
import CSharpTidy.Log.Disk
import CSharpTidy.Log.Document
import CSharpTidy.Log.Event
import CSharpTidy.Log.Invocation
import CSharpTidy.Log.Loading
import CSharpTidy.Log.Run
import CSharpTidy.Log.Settings
import CSharpTidy.Main
import CSharpTidy.Markup
import CSharpTidy.Notice
import CSharpTidy.OrderPolicy
import CSharpTidy.Output.Instant
import CSharpTidy.Output.JsonValue
import CSharpTidy.Output.Layout
import CSharpTidy.Output.Records
import CSharpTidy.Output.Summary
import CSharpTidy.Path
import CSharpTidy.Program.Exit
import CSharpTidy.Program.Invocation
import CSharpTidy.Program.Perform
import CSharpTidy.Proofs.Files.AllOrNothing
import CSharpTidy.Proofs.Format.Applied
import CSharpTidy.Proofs.Format.Code
import CSharpTidy.Proofs.Format.FixedPoint
import CSharpTidy.Proofs.Format.Keyword
import CSharpTidy.Proofs.Format.Lexeme
import CSharpTidy.Proofs.Format.Marked
import CSharpTidy.Proofs.Format.Parts
import CSharpTidy.Proofs.Format.Pass
import CSharpTidy.Proofs.Format.Relapse
import CSharpTidy.Proofs.Format.Rescan
import CSharpTidy.Proofs.Format.Rewritten
import CSharpTidy.Proofs.Format.Spaced
import CSharpTidy.Proofs.Format.Strip
import CSharpTidy.Proofs.Format.Trailing
import CSharpTidy.Proofs.Loading.Allotment
import CSharpTidy.Proofs.Loading.Complete
import CSharpTidy.Proofs.Loading.Listing
import CSharpTidy.Proofs.Loading.Pattern
import CSharpTidy.Proofs.Loading.Shares
import CSharpTidy.Proofs.Loading.Walk
import CSharpTidy.Proofs.Markup
import CSharpTidy.Proofs.Order.Arrange
import CSharpTidy.Proofs.Order.Between
import CSharpTidy.Proofs.Order.Commute
import CSharpTidy.Proofs.Order.Crossing
import CSharpTidy.Proofs.Order.Exact
import CSharpTidy.Proofs.Order.Fix
import CSharpTidy.Proofs.Order.Gap
import CSharpTidy.Proofs.Order.Lines
import CSharpTidy.Proofs.Order.Policy
import CSharpTidy.Proofs.Order.Returns
import CSharpTidy.Proofs.Order.Shift
import CSharpTidy.Proofs.Order.Sorted
import CSharpTidy.Proofs.Order.Standing
import CSharpTidy.Proofs.Order.Swap
import CSharpTidy.Proofs.Output.Reading
import CSharpTidy.Proofs.Program.Envelope
import CSharpTidy.Proofs.Program.Layers
import CSharpTidy.Proofs.Rule.Course
import CSharpTidy.Proofs.Rule.Isolation
import CSharpTidy.Proofs.Rule.Routing
import CSharpTidy.Proofs.Rule.Verdict
import CSharpTidy.Proofs.Run.Edit
import CSharpTidy.Proofs.Run.Interleaving
import CSharpTidy.Proofs.Run.Lifecycle
import CSharpTidy.Proofs.Run.Rerun
import CSharpTidy.Proofs.Run.Tidied
import CSharpTidy.Proofs.SortedMap
import CSharpTidy.Proofs.Text.Ascii
import CSharpTidy.Proofs.Text.Offset
import CSharpTidy.Proofs.Text.Position
import CSharpTidy.Proofs.Text.Rewrite
import CSharpTidy.Proofs.Text.Splice
import CSharpTidy.Proofs.Token.Bytes
import CSharpTidy.Proofs.Token.Closing
import CSharpTidy.Proofs.Token.Context
import CSharpTidy.Proofs.Token.Lookahead
import CSharpTidy.Proofs.Token.Piece
import CSharpTidy.Proofs.Token.Rendering
import CSharpTidy.Proofs.Token.Shift
import CSharpTidy.Proofs.Token.Tiling
import CSharpTidy.Proofs.Tree.Advance
import CSharpTidy.Proofs.Tree.Alias
import CSharpTidy.Proofs.Tree.Collected
import CSharpTidy.Proofs.Tree.Cursor
import CSharpTidy.Proofs.Tree.Document
import CSharpTidy.Proofs.Tree.Forest
import CSharpTidy.Proofs.Tree.Frame
import CSharpTidy.Proofs.Tree.Layout
import CSharpTidy.Proofs.Tree.Moved
import CSharpTidy.Proofs.Tree.Nesting
import CSharpTidy.Proofs.Tree.Outline
import CSharpTidy.Proofs.Tree.Refill
import CSharpTidy.Proofs.Tree.Scopes
import CSharpTidy.Proofs.Tree.Segment
import CSharpTidy.Proofs.Tree.Shift
import CSharpTidy.Proofs.Tree.Turns
import CSharpTidy.Proofs.Tree.Walk
import CSharpTidy.Proofs.Workspace.Clients
import CSharpTidy.Proofs.Workspace.Commit
import CSharpTidy.Proofs.Workspace.Loaded
import CSharpTidy.Proofs.Workspace.Report
import CSharpTidy.Proofs.Workspace.Snapshot
import CSharpTidy.Proofs.Workspace.Staging
import CSharpTidy.Proofs.Workspace.TwoStep
import CSharpTidy.Rule.Basic
import CSharpTidy.Rule.Card
import CSharpTidy.Rule.DirectiveOrder
import CSharpTidy.Rule.Finding
import CSharpTidy.Rule.FormatCheck
import CSharpTidy.Rule.Repair
import CSharpTidy.Rule.Report
import CSharpTidy.Rule.RuleSet
import CSharpTidy.Rule.Settings
import CSharpTidy.Run
import CSharpTidy.Scope
import CSharpTidy.Settings.Basic
import CSharpTidy.Settings.Environment
import CSharpTidy.Settings.File
import CSharpTidy.Settings.Layer
import CSharpTidy.Settings.Load
import CSharpTidy.Solution
import CSharpTidy.SortedMap
import CSharpTidy.Text.Basic
import CSharpTidy.Text.Blank
import CSharpTidy.Text.Cut
import CSharpTidy.Text.Edit
import CSharpTidy.Text.Position
import CSharpTidy.Text.Span
import CSharpTidy.Text.Utf8
import CSharpTidy.Text.Visible
import CSharpTidy.Token.Basic
import CSharpTidy.Token.Bytes
import CSharpTidy.Token.Scan
import CSharpTidy.Toml.Line
import CSharpTidy.Toml.Moment
import CSharpTidy.Toml.Number
import CSharpTidy.Toml.Quoted
import CSharpTidy.Toml.Read
import CSharpTidy.Toml.Table
import CSharpTidy.Toml.Token
import CSharpTidy.Tree.Basic
import CSharpTidy.Tree.Read
import CSharpTidy.Tree.Reader
import CSharpTidy.Workspace.Basic
import CSharpTidy.Workspace.Store
