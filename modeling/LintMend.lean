import LintMend.Cli.Grammar
import LintMend.Cli.Help
import LintMend.Cli.Invocation
import LintMend.Cli.Run
import LintMend.Color
import LintMend.Csv
import LintMend.Diff.Common
import LintMend.Diff.Run
import LintMend.Diff.Script
import LintMend.Diff.Snake
import LintMend.Diff.Unified
import LintMend.Edit
import LintMend.Editor.Diagnostic
import LintMend.Editor.Document
import LintMend.Editor.Frame
import LintMend.Editor.Message
import LintMend.Editor.Method
import LintMend.Editor.Server
import LintMend.Editor.Shape
import LintMend.Editor.Stream
import LintMend.Editor.Uri
import LintMend.Files.Collect
import LintMend.Files.Content
import LintMend.Files.Glob
import LintMend.Files.Path
import LintMend.Files.Tree
import LintMend.Hint.Basic
import LintMend.Hint.Info
import LintMend.Hint.Json
import LintMend.Json.Basic
import LintMend.Json.Reader
import LintMend.Json.Writer
import LintMend.Lint.Adapter
import LintMend.Lint.Manager
import LintMend.Lint.Run
import LintMend.Lint.WaitStatus
import LintMend.Lint.World
import LintMend.Log
import LintMend.Main
import LintMend.Output.Entry
import LintMend.Output.Printed
import LintMend.Output.Style
import LintMend.Overlay
import LintMend.Proofs.Cli.Lint
import LintMend.Proofs.Cli.Repair
import LintMend.Proofs.Cli.Tree
import LintMend.Proofs.Color
import LintMend.Proofs.Csv.Behind
import LintMend.Proofs.Csv.Layout
import LintMend.Proofs.Csv.Parity
import LintMend.Proofs.Csv.Reader
import LintMend.Proofs.Csv.Rows
import LintMend.Proofs.Csv.Written
import LintMend.Proofs.Edit
import LintMend.Proofs.Edit.Batch
import LintMend.Proofs.Editor.Action
import LintMend.Proofs.Editor.Clamp
import LintMend.Proofs.Editor.Closed
import LintMend.Proofs.Editor.Hints
import LintMend.Proofs.Editor.Place
import LintMend.Proofs.Editor.Session
import LintMend.Proofs.Editor.Underline
import LintMend.Proofs.Files.Below
import LintMend.Proofs.Files.Collect
import LintMend.Proofs.Files.Fork
import LintMend.Proofs.Files.Order
import LintMend.Proofs.Files.Path
import LintMend.Proofs.Files.Shape
import LintMend.Proofs.Files.Tree
import LintMend.Proofs.Lint.Order
import LintMend.Proofs.Lint.Roster
import LintMend.Proofs.Lint.Rulesets
import LintMend.Proofs.Lint.Source
import LintMend.Proofs.Output.Agreement
import LintMend.Proofs.Output.Summary
import LintMend.Proofs.Registry.Content
import LintMend.Proofs.Registry.File
import LintMend.Proofs.Registry.Remove
import LintMend.Proofs.Registry.Run
import LintMend.Proofs.Repair.Account
import LintMend.Proofs.Repair.Anchor
import LintMend.Proofs.Repair.Argument
import LintMend.Proofs.Repair.Change
import LintMend.Proofs.Repair.Code
import LintMend.Proofs.Repair.Cycles
import LintMend.Proofs.Repair.Effect
import LintMend.Proofs.Repair.Engine
import LintMend.Proofs.Repair.Establish
import LintMend.Proofs.Repair.Frame
import LintMend.Proofs.Repair.Line
import LintMend.Proofs.Repair.LineBreaks
import LintMend.Proofs.Repair.Moved
import LintMend.Proofs.Repair.Pattern
import LintMend.Proofs.Repair.Repeat
import LintMend.Proofs.Repair.Rule
import LintMend.Proofs.Repair.Safety
import LintMend.Proofs.Repair.Sentence
import LintMend.Proofs.Repair.Slice
import LintMend.Proofs.Repair.Token
import LintMend.Proofs.Report.Phpcs
import LintMend.Proofs.Report.Phplint
import LintMend.Proofs.Report.Places
import LintMend.Proofs.Settings.Exclude
import LintMend.Proofs.Sort
import LintMend.Proofs.Text.Around
import LintMend.Proofs.Text.Ascii
import LintMend.Proofs.Text.Code
import LintMend.Proofs.Text.Cut
import LintMend.Proofs.Text.Leftmost
import LintMend.Proofs.Text.Lines
import LintMend.Proofs.Text.Position
import LintMend.Proofs.Text.RoundTrip
import LintMend.Proofs.Text.Search
import LintMend.Proofs.Text.Slice
import LintMend.Proofs.Text.Variable
import LintMend.Registry
import LintMend.Release
import LintMend.Repair.Anchor
import LintMend.Repair.Change
import LintMend.Repair.Cycles
import LintMend.Repair.Engine
import LintMend.Repair.File
import LintMend.Repair.Pattern
import LintMend.Repair.Rule
import LintMend.Report.Phpcs
import LintMend.Report.Phplint
import LintMend.Report.Phpmd
import LintMend.Settings.Basic
import LintMend.Settings.Project
import LintMend.Settings.User
import LintMend.Text.Basic
import LintMend.Text.Classes
import LintMend.Text.Number
import LintMend.Text.Position
import LintMend.Text.Search
import LintMend.Text.Slice
import LintMend.Text.Utf8
import LintMend.Toml.Basic
import LintMend.Toml.Reader
import LintMend.Toml.Scalar
import LintMend.Toml.Section
import LintMend.Word
import LintMend.Xml.Entity
import LintMend.Xml.Node
import LintMend.Xml.Token
