import MetricHistory.Analyzer.Document
import MetricHistory.Analyzer.Fragment
import MetricHistory.Analyzer.Measurement
import MetricHistory.Analyzer.Program
import MetricHistory.Analyzer.Schema
import MetricHistory.Archive.Extract
import MetricHistory.Archive.Tar
import MetricHistory.Blake3
import MetricHistory.Cache
import MetricHistory.Calendar.Date
import MetricHistory.Calendar.Duration
import MetricHistory.Calendar.Time
import MetricHistory.Collection.Display
import MetricHistory.Collection.Run
import MetricHistory.Command.Actions
import MetricHistory.Command.Collect
import MetricHistory.Command.Environment
import MetricHistory.Command.Flag
import MetricHistory.Command.Line
import MetricHistory.Command.Options
import MetricHistory.Command.Shell
import MetricHistory.Commit.Basic
import MetricHistory.Commit.Category
import MetricHistory.Commit.Log
import MetricHistory.Commit.Scan
import MetricHistory.Config.Basic
import MetricHistory.Config.Layers
import MetricHistory.Config.Memory
import MetricHistory.Config.Problem
import MetricHistory.Config.Search
import MetricHistory.Config.Tree
import MetricHistory.Decimal.Binary64
import MetricHistory.Decimal.Layout
import MetricHistory.Decimal.Shortest
import MetricHistory.Failure
import MetricHistory.FileSystem.Basic
import MetricHistory.FileSystem.Operations
import MetricHistory.FileSystem.Task
import MetricHistory.FileSystem.Tree
import MetricHistory.Git.Diff
import MetricHistory.Git.Log
import MetricHistory.Git.Mirror
import MetricHistory.Git.Store
import MetricHistory.Json.Basic
import MetricHistory.Json.Decode
import MetricHistory.Json.Literal
import MetricHistory.Json.Normal
import MetricHistory.Json.Parser
import MetricHistory.Log.Entry
import MetricHistory.Machine
import MetricHistory.Output.Block
import MetricHistory.Output.Style
import MetricHistory.Path
import MetricHistory.Process
import MetricHistory.Progress
import MetricHistory.Proofs.Action
import MetricHistory.Proofs.Analyzer.Acceptance
import MetricHistory.Proofs.Analyzer.Counts
import MetricHistory.Proofs.Analyzer.Document
import MetricHistory.Proofs.Analyzer.Figures
import MetricHistory.Proofs.Analyzer.Guard
import MetricHistory.Proofs.Analyzer.Measurement
import MetricHistory.Proofs.Analyzer.Shape
import MetricHistory.Proofs.Archive.Confinement
import MetricHistory.Proofs.Archive.Effect
import MetricHistory.Proofs.Archive.Links
import MetricHistory.Proofs.Archive.Repetition
import MetricHistory.Proofs.Archive.Reproduction
import MetricHistory.Proofs.Archive.Target
import MetricHistory.Proofs.Cache.Directory
import MetricHistory.Proofs.Cache.Entry
import MetricHistory.Proofs.Cache.Failure
import MetricHistory.Proofs.Cache.Files
import MetricHistory.Proofs.Cache.Map
import MetricHistory.Proofs.Cache.Plain
import MetricHistory.Proofs.Calendar.Months
import MetricHistory.Proofs.Calendar.Notation
import MetricHistory.Proofs.Collection.Cancellation
import MetricHistory.Proofs.Collection.Displays
import MetricHistory.Proofs.Command.Invalidation
import MetricHistory.Proofs.Commit.Cancellation
import MetricHistory.Proofs.Commit.Category
import MetricHistory.Proofs.Commit.ChangedLines
import MetricHistory.Proofs.Commit.Delta
import MetricHistory.Proofs.Commit.Log
import MetricHistory.Proofs.Commit.MonthCounts
import MetricHistory.Proofs.Commit.Scan
import MetricHistory.Proofs.Commit.YearCounts
import MetricHistory.Proofs.Config.Given
import MetricHistory.Proofs.Config.Layers
import MetricHistory.Proofs.Config.Places
import MetricHistory.Proofs.Config.Timeouts
import MetricHistory.Proofs.Config.Validity
import MetricHistory.Proofs.Decimal.Integers
import MetricHistory.Proofs.Decimal.Magnitudes
import MetricHistory.Proofs.Decimal.Notation
import MetricHistory.Proofs.Decimal.Range
import MetricHistory.Proofs.Decimal.Rounding
import MetricHistory.Proofs.Decimal.Shortest
import MetricHistory.Proofs.FileSystem.Children
import MetricHistory.Proofs.FileSystem.Direct
import MetricHistory.Proofs.FileSystem.Directories
import MetricHistory.Proofs.FileSystem.Fresh
import MetricHistory.Proofs.FileSystem.Listing
import MetricHistory.Proofs.FileSystem.Plant
import MetricHistory.Proofs.FileSystem.Program
import MetricHistory.Proofs.FileSystem.Removal
import MetricHistory.Proofs.FileSystem.Scratch
import MetricHistory.Proofs.FileSystem.Sources
import MetricHistory.Proofs.FileSystem.Temporary
import MetricHistory.Proofs.FileSystem.Walk
import MetricHistory.Proofs.Git.Answers
import MetricHistory.Proofs.Git.Export
import MetricHistory.Proofs.Git.FullExport
import MetricHistory.Proofs.Git.Restriction
import MetricHistory.Proofs.Git.Tree
import MetricHistory.Proofs.Json.Compact
import MetricHistory.Proofs.Json.Denotation
import MetricHistory.Proofs.Json.Fields
import MetricHistory.Proofs.Json.Grammar
import MetricHistory.Proofs.Json.Layout
import MetricHistory.Proofs.Json.Literal
import MetricHistory.Proofs.Json.Markup
import MetricHistory.Proofs.Json.Records
import MetricHistory.Proofs.Json.Strings
import MetricHistory.Proofs.Log.Fields
import MetricHistory.Proofs.Path.Below
import MetricHistory.Proofs.Path.Inside
import MetricHistory.Proofs.Path.Normal
import MetricHistory.Proofs.Path.Place
import MetricHistory.Proofs.Report.Aggregates
import MetricHistory.Proofs.Report.Agreement
import MetricHistory.Proofs.Report.Codec
import MetricHistory.Proofs.Report.Replacement
import MetricHistory.Proofs.Report.RoundTrip
import MetricHistory.Proofs.Snapshot.Filling
import MetricHistory.Proofs.Snapshot.Isolation
import MetricHistory.Proofs.Snapshot.Order
import MetricHistory.Proofs.Snapshot.Run
import MetricHistory.Proofs.Snapshot.Schedule
import MetricHistory.Proofs.Snapshot.Stored
import MetricHistory.Proofs.Snapshot.Transparency
import MetricHistory.Proofs.Snapshot.Verbatim
import MetricHistory.Proofs.Statistics
import MetricHistory.Proofs.Text.Blank
import MetricHistory.Proofs.Text.Cut
import MetricHistory.Proofs.Text.Order
import MetricHistory.Proofs.Text.Quoted
import MetricHistory.Proofs.Text.Split
import MetricHistory.Proofs.Text.Utf8
import MetricHistory.Report.Basic
import MetricHistory.Report.File
import MetricHistory.Report.Summary
import MetricHistory.Repository
import MetricHistory.Scenario
import MetricHistory.Settings.Basic
import MetricHistory.Settings.Json
import MetricHistory.Settings.Number
import MetricHistory.Settings.Toml.Document
import MetricHistory.Settings.Toml.Node
import MetricHistory.Settings.Toml.Printer
import MetricHistory.Settings.Toml.Token
import MetricHistory.Settings.Yaml.Document
import MetricHistory.Settings.Yaml.Node
import MetricHistory.Settings.Yaml.Scalar
import MetricHistory.Snapshot.Basic
import MetricHistory.Snapshot.Schedule
import MetricHistory.Snapshot.Series
import MetricHistory.Statistics
import MetricHistory.Text.Basic
import MetricHistory.Text.Blank
import MetricHistory.Text.Capital
import MetricHistory.Text.Case
import MetricHistory.Text.Cut
import MetricHistory.Text.Human
import MetricHistory.Text.Printable
import MetricHistory.Text.Quoted
import MetricHistory.Text.Utf8
import MetricHistory.Text.Width
import MetricHistory.World
