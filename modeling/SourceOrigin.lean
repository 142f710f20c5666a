import SourceOrigin.Main
import SourceOrigin.Proofs.Lexer.Tiling
import SourceOrigin.Proofs.Lexer.FirstToken
import SourceOrigin.Proofs.Text.Break
import SourceOrigin.Proofs.Conditional.TreeTrivia
import SourceOrigin.Proofs.Conditional.Hiding
import SourceOrigin.Proofs.Cache.Transparency
import SourceOrigin.Proofs.Session.Pool
import SourceOrigin.Proofs.Session.Agreement
import SourceOrigin.Proofs.Session.PoolAgreement
import SourceOrigin.Proofs.Text.Order
import SourceOrigin.Proofs.Session.Sequential
import SourceOrigin.Proofs.Session.History
import SourceOrigin.Proofs.FileTree.Reading
import SourceOrigin.Proofs.Session.Partition
import SourceOrigin.Proofs.Session.Ending
import SourceOrigin.Proofs.Lexer.Steps
import SourceOrigin.Proofs.Lexer.Grammar
import SourceOrigin.Proofs.Encoding.RoundTrip
import SourceOrigin.Proofs.Text.Unified
import SourceOrigin.Proofs.Lexer.Unified
import SourceOrigin.Proofs.Classification
import SourceOrigin.Proofs.FileTree.Loading
import SourceOrigin.Proofs.Conditional.Balance
import SourceOrigin.Proofs.Lexer.Extension
import SourceOrigin.Proofs.Conditional.DisabledContents
import SourceOrigin.Proofs.Session.Processing
import SourceOrigin.Proofs.Session.Processed
import SourceOrigin.Proofs.Session.Cancellation
import SourceOrigin.Proofs.Session.SingleWorker
import SourceOrigin.Proofs.Session.CutShort
import SourceOrigin.Proofs.Cache.Accounting
import SourceOrigin.Proofs.Session.Loading
import SourceOrigin.Proofs.Session.Interning
import SourceOrigin.Proofs.Text.Numeral
import SourceOrigin.Proofs.FileTree.NormalForm
import SourceOrigin.Proofs.FileTree.Opening
import SourceOrigin.Proofs.Command.Configuration
import SourceOrigin.Proofs.Text.Terminal
import SourceOrigin.Proofs.Command.Checking
import SourceOrigin.Proofs.Command.Scanning
import SourceOrigin.Proofs.Command.ExitCodes
import SourceOrigin.Proofs.Polling
import SourceOrigin.Proofs.Report.Json
import SourceOrigin.Proofs.Command.Consistency
import SourceOrigin.Proofs.Cache.Reissue
import SourceOrigin.Proofs.Lexer.Composition
import SourceOrigin.Proofs.FileTree.Components
import SourceOrigin.Proofs.FileTree.Following
import SourceOrigin.Proofs.FileTree.Selection
import SourceOrigin.Proofs.FileName.DefaultPattern
import SourceOrigin.Proofs.FileName.PatternErrors
import SourceOrigin.Proofs.Conditional.Spelling
import SourceOrigin.Proofs.Lexer.Layout
import SourceOrigin.Proofs.Session.Answering
import SourceOrigin.Proofs.Session.FileReads
import SourceOrigin.Proofs.Session.Rescan
import SourceOrigin.Proofs.Lexer.Spans
import SourceOrigin.Proofs.Report.JsonReading
import SourceOrigin.Proofs.Report.ScanReport
import SourceOrigin.Proofs.Command.Lines
import SourceOrigin.Proofs.Command.Reports
import SourceOrigin.Proofs.Command.CheckReport
import SourceOrigin.Proofs.Lexer.LeadingBlanks
import SourceOrigin.Proofs.Conditional.FirstCloser
import SourceOrigin.Proofs.Conditional.Handover
import SourceOrigin.Proofs.Command.MarkedName
