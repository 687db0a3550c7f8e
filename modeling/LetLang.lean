import LetLang.Fault
import LetLang.Text.Bytes
import LetLang.Text.LineMap
import LetLang.Text.Span
import LetLang.Text.Template
import LetLang.Number.Binary64
import LetLang.Number.Layout
import LetLang.Number.Shortest
import LetLang.Token.Basic
import LetLang.Token.Kind
import LetLang.Token.Scanner
import LetLang.Tree.Expr
import LetLang.Tree.Module
import LetLang.Scope.Table
import LetLang.Scope.Tree
import LetLang.Diagnostic.Basic
import LetLang.Diagnostic.Collection
import LetLang.Diagnostic.Render
import LetLang.Parse.Cursor
import LetLang.Parse.Error
import LetLang.Parse.Expression
import LetLang.Parse.Reports
import LetLang.Parse.Session
import LetLang.Parse.Statement
import LetLang.Print
import LetLang.Failure
import LetLang.Json.Basic
import LetLang.Json.Reader
import LetLang.Json.Writer
import LetLang.Emit
import LetLang.Config
import LetLang.Path
import LetLang.Files.Access
import LetLang.Files.Disk
import LetLang.ConfigFile
import LetLang.Program
import LetLang.CommandLine.Arguments
import LetLang.CommandLine.Run
import LetLang.CommandLine.Usage
import LetLang.Main
import LetLang.Proofs.Scope.Visibility
import LetLang.Proofs.Parse.Grammar
import LetLang.Proofs.Parse.Reading
import LetLang.Proofs.Parse.Statements
import LetLang.Proofs.Parse.Attempts
import LetLang.Proofs.Parse.Reporting
import LetLang.Proofs.Parse.Acceptance
import LetLang.Proofs.Parse.Recovery
import LetLang.Proofs.Parse.Declarations
import LetLang.Proofs.Parse.References
import LetLang.Proofs.Scope.Lookup
import LetLang.Proofs.Parse.Traces
import LetLang.Proofs.Parse.Nesting
import LetLang.Proofs.Tree.Relocation
import LetLang.Proofs.Number.Whole
import LetLang.Proofs.Token.Spelling
import LetLang.Proofs.Print.Derivation
import LetLang.Proofs.Print.Reparse
import LetLang.Proofs.Token.Joining
import LetLang.Proofs.Parse.Parallel
import LetLang.Proofs.Scope.Relocation
import LetLang.Proofs.Parse.Lockstep
import LetLang.Proofs.Parse.Composition
import LetLang.Proofs.Parse.Places
import LetLang.Proofs.Parse.EarliestErrors
import LetLang.Proofs.Parse.Spacing
import LetLang.Proofs.Text.Utf8
import LetLang.Proofs.Token.Tiling
import LetLang.Proofs.Token.Walk
import LetLang.Proofs.Parse.ErrorOrder
import LetLang.Proofs.Diagnostic.Order
import LetLang.Proofs.Program.Merging
import LetLang.Proofs.Diagnostic.Rendering
import LetLang.Proofs.CommandLine.Loading
import LetLang.Proofs.Tree.Depth
import LetLang.Proofs.CommandLine.Outcome
import LetLang.Proofs.CommandLine.Independence
import LetLang.Proofs.Parse.SharedPositions
import LetLang.Proofs.Parse.Faithfulness
import LetLang.Proofs.Text.Lines
import LetLang.Proofs.Diagnostic.Caret
import LetLang.Proofs.Parse.Wording
import LetLang.Proofs.CommandLine.Attribution
import LetLang.Proofs.CommandLine.ConfigFiles
import LetLang.Proofs.Scope.Resolution
import LetLang.Proofs.Number.Rounding
import LetLang.Proofs.Parse.Numerals
import LetLang.Proofs.Json.RoundTrip
import LetLang.Proofs.Config.RoundTrip
import LetLang.Proofs.Number.Spelling
import LetLang.Proofs.Emit.Lossless
import LetLang.Proofs.Text.LineColumns
import LetLang.Proofs.Number.Comparison
import LetLang.Proofs.Tree.Chains
