import BuildFile.Bytes
import BuildFile.CommandLine.Options
import BuildFile.CommandLine.Run
import BuildFile.CommandLine.Tool
import BuildFile.Cursor
import BuildFile.Diagnostic
import BuildFile.Document
import BuildFile.Edge
import BuildFile.Environment
import BuildFile.FileTree
import BuildFile.Location
import BuildFile.Log
import BuildFile.Main
import BuildFile.Manifest
import BuildFile.Manifest.Outline
import BuildFile.Manifest.Parse
import BuildFile.Manifest.Read
import BuildFile.OutputIndex
import BuildFile.Parser
import BuildFile.Scan
import BuildFile.Scope
import BuildFile.Scope.Expansion
import BuildFile.Shell
import BuildFile.Statement
import BuildFile.Statement.Progress
import BuildFile.Statement.Reader
import BuildFile.Template
import BuildFile.Template.Reader
import BuildFile.Text.Formatted
import BuildFile.Text.Outline
import BuildFile.Text.Printable
import BuildFile.Text.Quoted
import BuildFile.Text.Utf8
import BuildFile.Reading
import BuildFile.Proofs.Written.Lexeme
import BuildFile.Proofs.Written.Spelling
import BuildFile.Proofs.Written.Paths
import BuildFile.Proofs.Written.Line
import BuildFile.Proofs.Written.Statement
import BuildFile.Proofs.Written.Block
import BuildFile.Proofs.Written.File
import BuildFile.Proofs.Concatenation
import BuildFile.Proofs.Lookahead
import BuildFile.Proofs.Viability
import BuildFile.Proofs.ErrorPosition
import BuildFile.Proofs.CyclicExpansion
import BuildFile.Proofs.Evaluation
import BuildFile.Proofs.Resolution
import BuildFile.Proofs.ShellWords
import BuildFile.Proofs.Utf8Text
import BuildFile.Proofs.Written.Canonical
import BuildFile.Proofs.Written.Encoding
import BuildFile.Proofs.RulesReport
import BuildFile.Proofs.CursorMoves
import BuildFile.Proofs.TemplateMoves
import BuildFile.Proofs.StatementMoves
import BuildFile.Proofs.Lines
import BuildFile.Proofs.DiagnosticPlace
import BuildFile.Proofs.FirstDefinition
import BuildFile.Proofs.LineBreaks
import BuildFile.Proofs.TemplateRoundTrip
import BuildFile.Proofs.Independence
import BuildFile.Proofs.EvaluationOrder
import BuildFile.Proofs.ManifestMoves
import BuildFile.Proofs.LineProgress
import BuildFile.Proofs.BuildLineLayout
import BuildFile.Proofs.TokenScan
import BuildFile.Proofs.Insertion
import BuildFile.Proofs.Reformatting
import BuildFile.Proofs.Noninterference
import BuildFile.Proofs.Coordinates
import BuildFile.Proofs.FirstProducer
import BuildFile.Proofs.ExpansionCalls
import BuildFile.Proofs.TargetReports
