import EntityGraph.CommandLine.Arguments
import EntityGraph.CommandLine.Listing
import EntityGraph.CommandLine.Report
import EntityGraph.Concrete.Expr
import EntityGraph.Concrete.Node
import EntityGraph.Concrete.Parameters
import EntityGraph.Concrete.Source
import EntityGraph.Concrete.Stmt
import EntityGraph.Error
import EntityGraph.Extraction.Bindings
import EntityGraph.Extraction.Declarations
import EntityGraph.Extraction.Docstring
import EntityGraph.Extraction.Module
import EntityGraph.Extraction.Outputs
import EntityGraph.Extraction.Process
import EntityGraph.Extraction.References
import EntityGraph.Files.FileTree
import EntityGraph.Files.Path
import EntityGraph.Files.Walk
import EntityGraph.Glob.Pattern
import EntityGraph.Graph.Declaration
import EntityGraph.Graph.Decode
import EntityGraph.Graph.Encode
import EntityGraph.Graph.Entity
import EntityGraph.Graph.Equality
import EntityGraph.Graph.File
import EntityGraph.Graph.Reference
import EntityGraph.Graph.Symbols
import EntityGraph.Ignore.Glob
import EntityGraph.Ignore.Rule
import EntityGraph.Ignore.Scope
import EntityGraph.Import.Resolution
import EntityGraph.Json.Basic
import EntityGraph.Json.Fields
import EntityGraph.Main
import EntityGraph.Program.Dump
import EntityGraph.Program.Expr
import EntityGraph.Program.Stmt
import EntityGraph.Project.Configuration
import EntityGraph.Project.Counters
import EntityGraph.Project.Registry
import EntityGraph.Project.Run
import EntityGraph.Project.Sources
import EntityGraph.Settings
import EntityGraph.Text.Blank
import EntityGraph.Text.Utf8
import EntityGraph.Toml.Document
import EntityGraph.Toml.Number
import EntityGraph.Toml.Table
import EntityGraph.Toml.Text
import EntityGraph.Proofs.Result
import EntityGraph.Proofs.Extraction.Callees
import EntityGraph.Proofs.Extraction.Failure
import EntityGraph.Proofs.Text.Pieces
import EntityGraph.Proofs.Text.Blank
import EntityGraph.Proofs.Files.Path
import EntityGraph.Proofs.Import.Resolution
import EntityGraph.Proofs.Import.Relative
import EntityGraph.Proofs.Text.Lossy
import EntityGraph.Proofs.Text.Reader
import EntityGraph.Proofs.Program.Renumber
import EntityGraph.Proofs.Graph.Renumber
import EntityGraph.Proofs.Graph.RoundTrip
import EntityGraph.Proofs.Extraction.Renumber
import EntityGraph.Proofs.Extraction.RoundTrip
import EntityGraph.Proofs.Concrete.Children
import EntityGraph.Proofs.Concrete.Extras
import EntityGraph.Proofs.Concrete.Strings
import EntityGraph.Proofs.Extraction.Success
import EntityGraph.Proofs.Extraction.NestedClasses
import EntityGraph.Proofs.Extraction.EntryGuard
import EntityGraph.Proofs.Graph.Shape
import EntityGraph.Proofs.Extraction.Shape
import EntityGraph.Proofs.Extraction.Members
import EntityGraph.Proofs.Program.WellFormed
import EntityGraph.Proofs.Program.DumpReader
import EntityGraph.Proofs.Concrete.WellFormed
import EntityGraph.Proofs.Project.Counters
import EntityGraph.Proofs.Project.Workers
import EntityGraph.Proofs.Graph.Stability
import EntityGraph.Proofs.Extraction.Append
import EntityGraph.Proofs.Graph.Order
import EntityGraph.Proofs.Extraction.Order
import EntityGraph.Proofs.Import.Absolute
import EntityGraph.Proofs.Import.AboveRoot
import EntityGraph.Proofs.Import.Records
import EntityGraph.Proofs.Graph.Calls
import EntityGraph.Proofs.Extraction.Returns
import EntityGraph.Proofs.Extraction.Interpolation
import EntityGraph.Proofs.Extraction.Indentation
import EntityGraph.Proofs.Extraction.Docstring
import EntityGraph.Proofs.Concrete.Parameters
import EntityGraph.Proofs.Extraction.Alternatives
import EntityGraph.Proofs.Extraction.Assignments
import EntityGraph.Proofs.Extraction.Outputs
import EntityGraph.Proofs.Extraction.Owners
import EntityGraph.Proofs.Extraction.Operations
import EntityGraph.Proofs.Extraction.Constants
import EntityGraph.Proofs.Graph.Symbols
import EntityGraph.Proofs.Graph.SymbolFilter
import EntityGraph.Proofs.Extraction.GuardSetting
import EntityGraph.Proofs.Project.Registry
import EntityGraph.Proofs.Files.Order
import EntityGraph.Proofs.Files.FileTree
import EntityGraph.Proofs.Files.Walk
import EntityGraph.Proofs.Project.Sources
import EntityGraph.Proofs.Concrete.Formula
