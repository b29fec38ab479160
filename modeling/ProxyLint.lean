import ProxyLint.Analysis
import ProxyLint.Any.Block
import ProxyLint.Any.Token
import ProxyLint.Command
import ProxyLint.Command.Line
import ProxyLint.Config
import ProxyLint.Decimal.Shortest
import ProxyLint.Evaluation
import ProxyLint.Farm
import ProxyLint.Farm.Decode
import ProxyLint.FileTree
import ProxyLint.Glob
import ProxyLint.Httpd
import ProxyLint.Httpd.Decode
import ProxyLint.Httpd.Words
import ProxyLint.Include
import ProxyLint.Include.Failure
import ProxyLint.Include.Line
import ProxyLint.JsonText
import ProxyLint.JsonText.Number
import ProxyLint.JsonValue
import ProxyLint.Main
import ProxyLint.Noted
import ProxyLint.Path
import ProxyLint.Proofs.FileTree.Walk
import ProxyLint.Proofs.Include.Contents
import ProxyLint.Proofs.Include.Cycle
import ProxyLint.Proofs.Include.Forest
import ProxyLint.Proofs.Include.Grammar
import ProxyLint.Proofs.Include.Limits
import ProxyLint.Proofs.Include.Script
import ProxyLint.Proofs.Include.Shape
import ProxyLint.Proofs.Include.Splice
import ProxyLint.Proofs.Include.Transparency
import ProxyLint.Proofs.Path.Folder
import ProxyLint.Proofs.Path.Normal
import ProxyLint.Proofs.Path.Order
import ProxyLint.Proofs.Provenance.Any
import ProxyLint.Proofs.Provenance.Basic
import ProxyLint.Proofs.Provenance.Farm
import ProxyLint.Proofs.Provenance.Httpd
import ProxyLint.Proofs.Text
import ProxyLint.Reader
import ProxyLint.Report
import ProxyLint.Report.Format
import ProxyLint.Rule
import ProxyLint.Rule.Builtin
import ProxyLint.Rule.Condition
import ProxyLint.Rule.File
import ProxyLint.Rule.Gathering
import ProxyLint.Rule.Kind
import ProxyLint.Source
import ProxyLint.Target
import ProxyLint.Text
import ProxyLint.Toml
import ProxyLint.Toml.Quoted
import ProxyLint.Toml.Scalar
import ProxyLint.Toml.Table
import ProxyLint.Violation
import ProxyLint.Proofs.Analysis.Verbosity
import ProxyLint.Proofs.Path.Relative
import ProxyLint.Proofs.Include.Lookup
import ProxyLint.Proofs.Include.Emitted
import ProxyLint.Proofs.Any.Remark
import ProxyLint.Proofs.Include.Reading
import ProxyLint.Proofs.Include.Remark
import ProxyLint.Proofs.Any.Spelling
import ProxyLint.Proofs.Any.Conservation
import ProxyLint.Proofs.Httpd.Body
import ProxyLint.Proofs.Httpd.Preorder
import ProxyLint.Proofs.Httpd.Spelling
import ProxyLint.Proofs.Rule.Accumulation
import ProxyLint.Proofs.Rule.Run
import ProxyLint.Proofs.Places.Any
import ProxyLint.Proofs.Places.Farm
import ProxyLint.Proofs.Places.Findings
import ProxyLint.Proofs.Places.Httpd
import ProxyLint.Proofs.Places.Parsed
import ProxyLint.Proofs.Evaluation.Sites
import ProxyLint.Proofs.Evaluation.Places
import ProxyLint.Proofs.Evaluation.Law
import ProxyLint.Proofs.Report.Composition
import ProxyLint.Proofs.Analysis.Dialects
import ProxyLint.Proofs.Farm.Faults
import ProxyLint.Proofs.Any.MissingBraces
import ProxyLint.Proofs.Path.Inside
import ProxyLint.Proofs.FileTree.Twins
import ProxyLint.Proofs.Glob.Search
import ProxyLint.Proofs.Include.Relocation
import ProxyLint.Proofs.Any.Balance
import ProxyLint.Proofs.Farm.Elements
import ProxyLint.Proofs.Farm.Lists
import ProxyLint.Proofs.Farm.KnownLabels
import ProxyLint.Proofs.Httpd.Ledger
import ProxyLint.Proofs.Evaluation.Selection
import ProxyLint.Proofs.Evaluation.Inheritance
import ProxyLint.Proofs.Report.Representatives
import ProxyLint.Proofs.Farm.FilterPatterns
import ProxyLint.Proofs.Rule.WellFormed
import ProxyLint.Proofs.Evaluation.Labels
import ProxyLint.Proofs.Text.Bytes
import ProxyLint.Proofs.FileTree.Place
import ProxyLint.Proofs.Rule.Enumeration
import ProxyLint.Proofs.FileTree.Below
import ProxyLint.Proofs.Path.Fields
import ProxyLint.Proofs.Glob.Places
import ProxyLint.Proofs.Glob.Expand
import ProxyLint.Proofs.Include.Overlap
import ProxyLint.Proofs.Any.Word
import ProxyLint.Proofs.Any.Layout
import ProxyLint.Proofs.Any.OpenBlocks
import ProxyLint.Proofs.Include.Continuation
import ProxyLint.Proofs.Include.Naming
import ProxyLint.Text.Utf8
import ProxyLint.Path.Raw
import ProxyLint.Proofs.Array
import ProxyLint.Proofs.Path.Raw
import ProxyLint.Proofs.Include.Opened
import ProxyLint.Proofs.Report.MachineWords
