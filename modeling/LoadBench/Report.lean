/-
  LoadBench.Report

  The final report of a run: what was counted, the mix of the traffic, mean
  rates, quantiles, time series and the histograms of single seconds, together
  with the facts of the run itself.
-/

import LoadBench.Json.Value
import LoadBench.Payload
import LoadBench.Period

namespace LoadBench

/-! ## Parts of a report -/

/-- What a run counted. -/
structure Totals where
  operations : UInt64
  setupWrites : UInt64
  writes : UInt64
  reads : UInt64
  cursorReads : UInt64
  updates : UInt64
  deletes : UInt64
  others : UInt64
  failures : UInt64
  timeouts : UInt64
  sent : UInt64
  received : UInt64
  deriving DecidableEq, Repr

/-- The counters as a report shows them. -/
def Totals.ofCounts (counts : Counts) : Totals where
  operations := UInt64.ofNat counts.total
  setupWrites := UInt64.ofNat (counts.perLabel.get .setupWrite)
  writes := UInt64.ofNat (counts.perLabel.get .write)
  reads := UInt64.ofNat (counts.perLabel.get .read)
  cursorReads := UInt64.ofNat (counts.perLabel.get .cursorRead)
  updates := UInt64.ofNat (counts.perLabel.get .update)
  deletes := UInt64.ofNat (counts.perLabel.get .delete)
  others := UInt64.ofNat (counts.perLabel.get .other)
  failures := UInt64.ofNat counts.failures
  timeouts := UInt64.ofNat counts.timeouts
  sent := UInt64.ofNat counts.sent
  received := UInt64.ofNat counts.received

/-- The mix of the traffic: shares in the number of commands. -/
structure Ratios where
  write : Binary64
  read : Binary64
  update : Binary64
  delete : Binary64
  deriving DecidableEq, Repr

/-- Mean rates over a whole run. -/
structure RunRates where
  /-- The rate of each group and of each query under each label. -/
  rates : Table String Binary64
  operations : Binary64
  sent : Binary64
  received : Binary64
  sentText : String
  receivedText : String
  deriving DecidableEq, Repr

/-- The identity of a report: 128 bits. -/
structure RunId where
  bits : BitVec 128
  deriving DecidableEq, Repr

/-- The final report of a run. -/
structure Report where
  /-- Milliseconds since the epoch. -/
  startTime : Int64
  /-- Milliseconds since the epoch. -/
  endTime : Int64
  durationMillis : UInt64
  runId : RunId
  metadata : String
  formatVersion : String
  limit : UInt64
  workers : UInt64
  maxRate : UInt64
  batchSize : UInt64
  /-- Settings of the system under load. -/
  settings : Table String Json.Value
  totals : Totals
  ratios : Ratios
  runRates : RunRates
  runQuantiles : Table String Quantiles
  timeSeries : Table String (List SeriesPoint)
  /-- Encoded histograms by second. -/
  perSecond : Table UInt64 String
  deriving Repr

/-- What a report tells about a run beside its measurements. -/
structure RunFacts where
  /-- Milliseconds since the epoch. -/
  startTime : Int64
  /-- Milliseconds since the epoch. -/
  endTime : Int64
  took : TimeSpan
  runId : RunId
  metadata : String
  limit : UInt64
  workers : UInt64
  maxRate : UInt64
  batchSize : UInt64
  settings : Table String Json.Value

/-- Whether the calendar has a moment, given in milliseconds since the epoch: it goes from the year
-262143 to the year 262142. -/
def isDate (moment : Int64) : Bool :=
  -8334601228800000 ≤ moment && moment ≤ 8210266876799999

/-- Whether the start and the end of a run are moments of the calendar. -/
def RunFacts.isDated (facts : RunFacts) : Bool := isDate facts.startTime && isDate facts.endTime

/-! ## Reading a ledger -/

namespace Ledger

/-- The totals so far. -/
def totals (ledger : Ledger) : Totals := Totals.ofCounts ledger.counts

/-- The mix of the traffic. Setup writes count as writes and cursor reads as reads. -/
def ratios (ledger : Ledger) : Ratios :=
  let counts := ledger.counts
  let share (part : Nat) := Rate.share part counts.total
  { write := share (counts.perLabel.get .write + counts.perLabel.get .setupWrite)
    read := share (counts.perLabel.get .read + counts.perLabel.get .cursorRead)
    update := share (counts.perLabel.get .update)
    delete := share (counts.perLabel.get .delete) }

/-- Mean rates over a run of length `took`. -/
def runRates (ledger : Ledger) (took : TimeSpan) : RunRates :=
  let counts := ledger.counts
  let mean (count : Nat) := Rate.perSecond count 0 took
  { rates := Table.ofList <|
      (Label.all.map fun label => (label.key ++ "Rate", mean (counts.perLabel.get label))) ++
      ledger.details.entries.map fun entry => (entry.1 ++ "Rate", mean entry.2.total)
    operations := mean counts.total
    sent := mean counts.sent
    received := mean counts.received
    sentText := String.ofList (Rate.bytesText (mean counts.sent))
    receivedText := String.ofList (Rate.bytesText (mean counts.received)) }

/-- Quantiles of each group, of all commands and of each query under each label. -/
def runQuantiles (ledger : Ledger) : Table String Quantiles :=
  Table.ofList <|
    (Label.all.map fun label =>
      (label.key, (ledger.tracks.get label).cumulative.quantiles)) ++
    (allCommandsKey, ledger.total.quantiles) ::
      ledger.details.entries.map fun entry => (entry.1, entry.2.quantiles)

/-- The histogram of each second as bytes. -/
def perSecondPayloads (ledger : Ledger) : Table UInt64 (List UInt8) :=
  ledger.perSecond.map Payload.encode

end Ledger

namespace Report

/-- The format every report is written in. -/
def currentVersion : String := "0.1"

/-- A byte in two hexadecimal digits. -/
def hexByte (byte : UInt8) : List Char := Decimal.padLeft 2 '0' (Nat.toDigits 16 byte.toNat)

/-- Bytes in hexadecimal digits. -/
def hexText (bytes : List UInt8) : String := String.ofList (bytes.flatMap hexByte)

/-- The report of a run. -/
def compose (ledger : Ledger) (facts : RunFacts) : Report where
  startTime := facts.startTime
  endTime := facts.endTime
  durationMillis := UInt64.ofNat facts.took.millis
  runId := facts.runId
  metadata := facts.metadata
  formatVersion := currentVersion
  limit := facts.limit
  workers := facts.workers
  maxRate := facts.maxRate
  batchSize := facts.batchSize
  settings := facts.settings
  totals := ledger.totals
  ratios := ledger.ratios
  runRates := ledger.runRates facts.took
  runQuantiles := ledger.runQuantiles
  timeSeries := ledger.timeSeries
  perSecond := ledger.perSecondPayloads.map hexText

end Report

end LoadBench
