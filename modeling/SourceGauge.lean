import SourceGauge.Analysis
import SourceGauge.Batch
import SourceGauge.Capacity
import SourceGauge.Clock
import SourceGauge.Color
import SourceGauge.Command
import SourceGauge.CommandLine
import SourceGauge.Complexity
import SourceGauge.Config
import SourceGauge.Decimal
import SourceGauge.Discovery
import SourceGauge.Environment
import SourceGauge.Error
import SourceGauge.FileSystem
import SourceGauge.Host
import SourceGauge.Ignore.Chain
import SourceGauge.Ignore.Rule
import SourceGauge.Ignore.Wildcard
import SourceGauge.Issue
import SourceGauge.Json.Printer
import SourceGauge.Json.Reader
import SourceGauge.Json.ResultReader
import SourceGauge.LineCount
import SourceGauge.Log
import SourceGauge.Main
import SourceGauge.Maintainability
import SourceGauge.Options
import SourceGauge.Parallel
import SourceGauge.Path
import SourceGauge.Pattern
import SourceGauge.Progress
import SourceGauge.Proofs.BatchOrder
import SourceGauge.Proofs.ByteOrder
import SourceGauge.Proofs.CommandEffect
import SourceGauge.Proofs.CommandFailure
import SourceGauge.Proofs.ComplexityRuns
import SourceGauge.Proofs.DoubleArithmetic
import SourceGauge.Proofs.DoublePacking
import SourceGauge.Proofs.DoubleRounding
import SourceGauge.Proofs.FailureCounts
import SourceGauge.Proofs.FailureMarks
import SourceGauge.Proofs.GreedyScan
import SourceGauge.Proofs.IssuePlaces
import SourceGauge.Proofs.JoinedTexts
import SourceGauge.Proofs.JsonRoundTrip
import SourceGauge.Proofs.JsonValues
import SourceGauge.Proofs.NumberedLines
import SourceGauge.Proofs.ScoreRounding
import SourceGauge.Proofs.SelectedResults
import SourceGauge.Proofs.SelectionFailure
import SourceGauge.Proofs.StoreHistory
import SourceGauge.Proofs.StoreRecords
import SourceGauge.Proofs.WrittenFiles
import SourceGauge.Proofs.WrittenReport
import SourceGauge.Report
import SourceGauge.Report.Markdown
import SourceGauge.Report.Terminal
import SourceGauge.Result
import SourceGauge.Selection
import SourceGauge.Settings
import SourceGauge.Store
import SourceGauge.Summary
import SourceGauge.Text.Alphanumeric
import SourceGauge.Text.Blank
import SourceGauge.Text.Bytes
import SourceGauge.Text.Digit
import SourceGauge.Text.Lines
import SourceGauge.Text.Occurrence
import SourceGauge.Text.Suffix
import SourceGauge.Toml.Document
import SourceGauge.Toml.Scalar
import SourceGauge.Toml.Value
import SourceGauge.Proofs.LineEdits
import SourceGauge.Proofs.CarriageReturns
import SourceGauge.Proofs.ColorStripping
import SourceGauge.Proofs.Segments
import SourceGauge.Proofs.SummaryFigures
import SourceGauge.Proofs.ConfigSearch
import SourceGauge.Proofs.NewConfiguration
import SourceGauge.Proofs.EntryOrder
import SourceGauge.Proofs.FirstSpellings
import SourceGauge.Proofs.PathOrder
import SourceGauge.Proofs.TableRows
import SourceGauge.Proofs.WalkedFiles
import SourceGauge.Proofs.SelectedOnce
import SourceGauge.Proofs.WordOccurrences
import SourceGauge.Proofs.PrintedText
import SourceGauge.Proofs.ReportTables
import SourceGauge.Proofs.SpelledOptions
import SourceGauge.Proofs.PathAscent
import SourceGauge.Proofs.BranchBound
