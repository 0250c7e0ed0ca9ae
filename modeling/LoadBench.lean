import LoadBench.Alarm
import LoadBench.Batch
import LoadBench.Batch.Pool
import LoadBench.Binary64
import LoadBench.Channel
import LoadBench.Channel.Operation
import LoadBench.Console
import LoadBench.Crew
import LoadBench.Decimal.Fixed
import LoadBench.Decimal.Integer
import LoadBench.Decimal.Numeral
import LoadBench.Decimal.Shortest
import LoadBench.Depot
import LoadBench.Desk
import LoadBench.Dispatch
import LoadBench.Fault
import LoadBench.Handler
import LoadBench.Histogram
import LoadBench.Json.Number
import LoadBench.Json.Reader
import LoadBench.Json.Text
import LoadBench.Json.Tree
import LoadBench.Json.Value
import LoadBench.Label
import LoadBench.Ledger
import LoadBench.Lines.Reader
import LoadBench.Lines.Source
import LoadBench.Lines.Workload
import LoadBench.Memory
import LoadBench.Numbers
import LoadBench.Payload
import LoadBench.PerLabel
import LoadBench.Period
import LoadBench.Proofs.Channel
import LoadBench.Proofs.Crew.Balance
import LoadBench.Proofs.Crew.Departure
import LoadBench.Proofs.Crew.Ending
import LoadBench.Proofs.Crew.Journal
import LoadBench.Proofs.Crew.Staff
import LoadBench.Proofs.Crew.Step
import LoadBench.Proofs.Dispatch.Untimed
import LoadBench.Proofs.Duration
import LoadBench.Proofs.Exchange
import LoadBench.Proofs.Exchange.Calm
import LoadBench.Proofs.Exchange.Closing
import LoadBench.Proofs.Exchange.Credit
import LoadBench.Proofs.Exchange.Delivery
import LoadBench.Proofs.Exchange.Kept
import LoadBench.Proofs.Exchange.Rewinding
import LoadBench.Proofs.Exchange.Unreadable
import LoadBench.Proofs.Histogram
import LoadBench.Proofs.Json.Double
import LoadBench.Proofs.Json.Number
import LoadBench.Proofs.Json.Reader
import LoadBench.Proofs.Json.Text
import LoadBench.Proofs.Json.Written
import LoadBench.Proofs.Ledger.Desk
import LoadBench.Proofs.Ledger.Merge
import LoadBench.Proofs.Ledger.Periods
import LoadBench.Proofs.Ledger.Points
import LoadBench.Proofs.Ledger.Series
import LoadBench.Proofs.Ledger.Tally
import LoadBench.Proofs.Ledger.Views
import LoadBench.Proofs.Ledger.Watch
import LoadBench.Proofs.Lines.Pieces
import LoadBench.Proofs.Lines.Reader
import LoadBench.Proofs.Lines.Totals
import LoadBench.Proofs.Lines.Written
import LoadBench.Proofs.Lists
import LoadBench.Proofs.Numeral
import LoadBench.Proofs.Payload
import LoadBench.Proofs.Percentile
import LoadBench.Proofs.Published
import LoadBench.Proofs.Quantiles
import LoadBench.Proofs.Ranks
import LoadBench.Proofs.Rate
import LoadBench.Proofs.Report.Composed
import LoadBench.Proofs.Report.Parts
import LoadBench.Proofs.Report.Queries
import LoadBench.Proofs.Report.RoundTrip
import LoadBench.Proofs.Report.RunId
import LoadBench.Proofs.Rounding
import LoadBench.Proofs.Row.Performance
import LoadBench.Proofs.Row.Replay
import LoadBench.Proofs.Row.Size
import LoadBench.Proofs.Row.Whole
import LoadBench.Proofs.Row.Written
import LoadBench.Proofs.Run.Batches
import LoadBench.Proofs.Run.Chronicle
import LoadBench.Proofs.Run.Course
import LoadBench.Proofs.Run.Ending
import LoadBench.Proofs.Run.Faults
import LoadBench.Proofs.Run.Frugal
import LoadBench.Proofs.Run.Halt
import LoadBench.Proofs.Run.Kept
import LoadBench.Proofs.Run.Layout
import LoadBench.Proofs.Run.Lost
import LoadBench.Proofs.Run.Progress
import LoadBench.Proofs.Run.Queues
import LoadBench.Proofs.Run.Schedule
import LoadBench.Proofs.Run.Shares
import LoadBench.Proofs.Run.Start
import LoadBench.Proofs.Run.Step
import LoadBench.Proofs.Run.Stock
import LoadBench.Proofs.Scan.Account
import LoadBench.Proofs.Scan.Blame
import LoadBench.Proofs.Scan.Bookmark
import LoadBench.Proofs.Scan.Halt
import LoadBench.Proofs.Scan.Line
import LoadBench.Proofs.Scan.Reading
import LoadBench.Proofs.Scan.Rewinding
import LoadBench.Proofs.Scan.Sound
import LoadBench.Proofs.Scan.Stock
import LoadBench.Proofs.Scan.Turn
import LoadBench.Proofs.Scan.Untimed
import LoadBench.Proofs.Scan.Weight
import LoadBench.Proofs.Selection
import LoadBench.Proofs.Table
import LoadBench.Proofs.Text.Blank
import LoadBench.Proofs.Text.Utf8
import LoadBench.Proofs.TokenBucket
import LoadBench.Proofs.Trace
import LoadBench.Proofs.Units
import LoadBench.Rate
import LoadBench.Report
import LoadBench.Report.RunId
import LoadBench.Report.Summary
import LoadBench.Report.Written
import LoadBench.Rounding
import LoadBench.Routing
import LoadBench.Row.Command
import LoadBench.Row.Playback
import LoadBench.Row.Record
import LoadBench.Run
import LoadBench.Run.Outcome
import LoadBench.Sample
import LoadBench.Scan
import LoadBench.Scan.Rehearsal
import LoadBench.Settings
import LoadBench.Settings.Flags
import LoadBench.Settings.Options
import LoadBench.Storage
import LoadBench.Table
import LoadBench.Target
import LoadBench.Target.Scripted
import LoadBench.Text.Blank
import LoadBench.Text.Quoted
import LoadBench.Text.Unprintable
import LoadBench.Text.Utf8
import LoadBench.Ticker
import LoadBench.TimeSpan
import LoadBench.TokenBucket
