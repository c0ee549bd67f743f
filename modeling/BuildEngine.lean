import BuildEngine.Bindings
import BuildEngine.Build.Agenda
import BuildEngine.Build.Basic
import BuildEngine.Build.FileTasks
import BuildEngine.Build.ProcessTasks
import BuildEngine.Build.Projects
import BuildEngine.Build.ReferenceTasks
import BuildEngine.Build.Session
import BuildEngine.Build.Target
import BuildEngine.Build.Task
import BuildEngine.Build.TaskError
import BuildEngine.CommandLine.Arguments
import BuildEngine.CommandLine.Failure
import BuildEngine.CommandLine.Grammar
import BuildEngine.CommandLine.Program
import BuildEngine.CommandLine.Report
import BuildEngine.CommandLine.Usage
import BuildEngine.Compiler
import BuildEngine.Counting
import BuildEngine.Digest.Blake3
import BuildEngine.Environment
import BuildEngine.Expr.Basic
import BuildEngine.Expr.Eval
import BuildEngine.Expr.Normalize
import BuildEngine.Expr.Parser
import BuildEngine.Expr.Printer
import BuildEngine.Expr.Token
import BuildEngine.FileSystem.Basic
import BuildEngine.FileSystem.Changes
import BuildEngine.FileSystem.Disk
import BuildEngine.FileSystem.Error
import BuildEngine.FileSystem.Memory
import BuildEngine.Glob.Basic
import BuildEngine.Glob.Expand
import BuildEngine.Graph.Basic
import BuildEngine.Graph.Discovery
import BuildEngine.Graph.Pool
import BuildEngine.Graph.Tree
import BuildEngine.Item.Basic
import BuildEngine.Item.Metadata
import BuildEngine.Log
import BuildEngine.Main
import BuildEngine.Path.Basic
import BuildEngine.Path.Normal
import BuildEngine.Path.Template
import BuildEngine.Process.Arithmetic
import BuildEngine.Process.Command
import BuildEngine.Process.Host
import BuildEngine.Process.Program
import BuildEngine.Process.Quoting
import BuildEngine.Process.Runner
import BuildEngine.Process.Script.Basic
import BuildEngine.Process.Script.Parser
import BuildEngine.Process.Script.Token
import BuildEngine.Process.Shell
import BuildEngine.Process.Words
import BuildEngine.Project.Basic
import BuildEngine.Project.Cache
import BuildEngine.Project.Evaluation
import BuildEngine.Project.Reading
import BuildEngine.Proofs.Build.Building
import BuildEngine.Proofs.Build.Cancelling
import BuildEngine.Proofs.Build.Circularity
import BuildEngine.Proofs.Build.Copying
import BuildEngine.Proofs.Build.Executions
import BuildEngine.Proofs.Build.FirstFailure
import BuildEngine.Proofs.Build.Freshness
import BuildEngine.Proofs.Build.Narration
import BuildEngine.Proofs.Build.Recopying
import BuildEngine.Proofs.Build.Reporting
import BuildEngine.Proofs.Build.Turns
import BuildEngine.Proofs.Build.Visiting
import BuildEngine.Proofs.Environment.Batches
import BuildEngine.Proofs.Environment.Items
import BuildEngine.Proofs.Environment.Writing
import BuildEngine.Proofs.Expr.Asking
import BuildEngine.Proofs.Expr.Completeness
import BuildEngine.Proofs.Expr.Culprits
import BuildEngine.Proofs.Expr.Cutting
import BuildEngine.Proofs.Expr.Grammar
import BuildEngine.Proofs.Expr.Listing
import BuildEngine.Proofs.Expr.Materializing
import BuildEngine.Proofs.Expr.Meaning
import BuildEngine.Proofs.Expr.NormalForm
import BuildEngine.Proofs.Expr.Occurrence
import BuildEngine.Proofs.Expr.Outline
import BuildEngine.Proofs.Expr.Quotes
import BuildEngine.Proofs.Expr.Reading
import BuildEngine.Proofs.Expr.Refusals
import BuildEngine.Proofs.Expr.RoundTrip
import BuildEngine.Proofs.Expr.Seams
import BuildEngine.Proofs.Expr.Soundness
import BuildEngine.Proofs.Expr.Spelling
import BuildEngine.Proofs.Expr.Templates
import BuildEngine.Proofs.Expr.Values
import BuildEngine.Proofs.Expr.Written
import BuildEngine.Proofs.Fallible
import BuildEngine.Proofs.FileSystem.Counting
import BuildEngine.Proofs.FileSystem.Writing
import BuildEngine.Proofs.Glob.Anchoring
import BuildEngine.Proofs.Glob.Expansion
import BuildEngine.Proofs.Glob.Matching
import BuildEngine.Proofs.Glob.Naming
import BuildEngine.Proofs.Glob.Pieces
import BuildEngine.Proofs.Graph.Accounting
import BuildEngine.Proofs.Graph.Assembling
import BuildEngine.Proofs.Graph.BreadthFirst
import BuildEngine.Proofs.Graph.Closure
import BuildEngine.Proofs.Graph.Completion
import BuildEngine.Proofs.Graph.Consistency
import BuildEngine.Proofs.Graph.Cycles
import BuildEngine.Proofs.Graph.Drawing
import BuildEngine.Proofs.Graph.Edges
import BuildEngine.Proofs.Graph.Failure
import BuildEngine.Proofs.Graph.HandingOut
import BuildEngine.Proofs.Graph.History
import BuildEngine.Proofs.Graph.LateReports
import BuildEngine.Proofs.Graph.Lookup
import BuildEngine.Proofs.Graph.Operations
import BuildEngine.Proofs.Graph.Progress
import BuildEngine.Proofs.Graph.Reachability
import BuildEngine.Proofs.Graph.Resemblance
import BuildEngine.Proofs.Graph.Skipping
import BuildEngine.Proofs.Graph.Summary
import BuildEngine.Proofs.Graph.Termination
import BuildEngine.Proofs.Graph.Trees
import BuildEngine.Proofs.Graph.Waves
import BuildEngine.Proofs.Graph.Workers
import BuildEngine.Proofs.Item.Parts
import BuildEngine.Proofs.Path.Joining
import BuildEngine.Proofs.Path.Lexical
import BuildEngine.Proofs.Path.Normal
import BuildEngine.Proofs.Path.Order
import BuildEngine.Proofs.Path.Relative
import BuildEngine.Proofs.Project.Caching
import BuildEngine.Proofs.Project.Definitions
import BuildEngine.Proofs.Project.Loading
import BuildEngine.Proofs.Text.Entries
import BuildEngine.Proofs.Text.Splitting
import BuildEngine.Settings
import BuildEngine.Text.Alphanumeric
import BuildEngine.Text.Blank
import BuildEngine.Text.Entries
import BuildEngine.Text.Fold
import BuildEngine.Text.Lines
import BuildEngine.Text.Number
import BuildEngine.Text.Utf8
import BuildEngine.Toml.Fields
import BuildEngine.Toml.Reader
import BuildEngine.Toml.Scalar
import BuildEngine.Toml.Value
import BuildEngine.Workspace
