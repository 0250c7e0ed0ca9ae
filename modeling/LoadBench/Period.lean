/-
  LoadBench.Period

  Reporting periods.  Ending a period makes one console row, adds one point to
  each of the ten time series and starts the instant histograms anew; what was
  counted since the start of the run is left as it is.
-/

import LoadBench.Ledger
import LoadBench.Rate

namespace LoadBench

/-- The key of what concerns the commands of all groups. -/
def allCommandsKey : String := "allCommands"

/-- One reporting period as the console shows it. -/
structure PeriodFigures where
  /-- What had been counted when the period ended. -/
  counts : Counts
  rates : PerLabel Binary64
  /-- The median latency of each group since the start of the run, in milliseconds. -/
  medians : PerLabel Binary64
  totalRate : Binary64
  totalMedian : Binary64
  sentRate : Binary64
  receivedRate : Binary64
  deriving DecidableEq, Repr

namespace Ledger

/-- The point a period's histogram adds to its series. -/
def pointOf (timestamp : UInt64) (took : TimeSpan) (instant : Histogram) : SeriesPoint :=
  ⟨timestamp, .period instant.quantiles (Rate.perSecond instant.total 0 took)⟩

/-- A time series with one more point. -/
def addPoint (series : Table String (List SeriesPoint)) (key : String) (point : SeriesPoint) :
    Table String (List SeriesPoint) :=
  series.alter key fun before => before.getD [] ++ [point]

/-- The console row of a period that started at `previous`. -/
def row (ledger : Ledger) (took : TimeSpan) (previous : Counts) : PeriodFigures :=
  let counts := ledger.counts
  { counts := counts
    rates := PerLabel.ofFn fun label =>
      Rate.perSecond (counts.perLabel.get label) (previous.perLabel.get label) took
    medians := ledger.tracks.map fun track => track.cumulative.medianMillis
    totalRate := Rate.perSecond counts.total previous.total took
    totalMedian := ledger.total.medianMillis
    sentRate := Rate.perSecond counts.sent previous.sent took
    receivedRate := Rate.perSecond counts.received previous.received took }

/-- The points a period adds, each with the key of its series. -/
def pointsOf (ledger : Ledger) (timestamp : UInt64) (took : TimeSpan)
    (row : PeriodFigures) : List (String × SeriesPoint) :=
  (Label.all.map fun label =>
    (label.key ++ "Ts", pointOf timestamp took (ledger.tracks.get label).instant)) ++
  [(allCommandsKey ++ "Ts", pointOf timestamp took ledger.instantTotal),
    ("overallTxByteRateTs", ⟨timestamp, .scalar row.sentRate⟩),
    ("overallRxByteRateTs", ⟨timestamp, .scalar row.receivedRate⟩)]

/-- Ends a period of length `took` that started at `previous`. -/
def endPeriod (ledger : Ledger) (timestamp : UInt64) (took : TimeSpan)
    (previous : Counts) : Ledger × PeriodFigures :=
  let row := ledger.row took previous
  let points := ledger.pointsOf timestamp took row
  ({ ledger with
      tracks := ledger.tracks.map Track.restart
      instantTotal := Histogram.empty
      series := points.foldl (fun series point => addPoint series point.1 point.2)
        ledger.series }, row)

/-- Every time series in the order of its timestamps; equal timestamps stay in the order in which
their periods ended. -/
def timeSeries (ledger : Ledger) : Table String (List SeriesPoint) :=
  ledger.series.map fun points =>
    points.mergeSort fun one other => one.timestamp ≤ other.timestamp

end Ledger

end LoadBench
