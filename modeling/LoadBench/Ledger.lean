/-
  LoadBench.Ledger

  The one place where the samples of a run come together.  Recording a batch is
  a sequence of sections, and other workers may come in between two of them:
  every sample draws a ticket, and those within the burn-in are left out; then
  the labels, the queries and the seconds are counted, each in one section; at
  last the bytes are added, unless those of the batch alone are too many.
  `record` runs the sections of one batch without a break.

  Label statistics are kept twice: since the start of the run, and since the end
  of the last reporting period.
-/

import LoadBench.Histogram
import LoadBench.PerLabel
import LoadBench.Sample

namespace LoadBench

/-! ## Points of a time series -/

/-- What a point of a time series shows. -/
inductive PointValue where
  /-- One number. -/
  | scalar (value : Binary64)
  /-- The quantiles of one period and the rate in it. -/
  | period (quantiles : Quantiles) (rate : Binary64)
  deriving DecidableEq, Repr

/-- A point of a time series. -/
structure SeriesPoint where
  timestamp : UInt64
  value : PointValue
  deriving DecidableEq, Repr

/-! ## The state -/

/-- What is kept about one group of commands. -/
structure Track where
  /-- All latencies of the run. -/
  cumulative : Histogram
  /-- The latencies since the last period ended. -/
  instant : Histogram
  failures : Nat
  timeouts : Nat
  deriving DecidableEq, Repr

namespace Track

/-- Nothing recorded. -/
def empty : Track := ⟨Histogram.empty, Histogram.empty, 0, 0⟩

/-- One more sample. -/
def add (track : Track) (sample : Sample) : Track where
  cumulative := track.cumulative.record sample.latency.toNat
  instant := track.instant.record sample.latency.toNat
  failures := track.failures + if sample.failed then 1 else 0
  timeouts := track.timeouts + if sample.timedOut then 1 else 0

/-- A new period starts. -/
def restart (track : Track) : Track := { track with instant := Histogram.empty }

end Track

/-- Everything recorded in a run. -/
structure Ledger where
  /-- How many leading samples are left out. -/
  burnIn : Nat
  /-- How many tickets were drawn. -/
  seen : Nat
  tracks : PerLabel Track
  /-- The latencies of all groups. -/
  total : Histogram
  /-- The latencies of all groups since the last period ended. -/
  instantTotal : Histogram
  /-- The latencies of each query under each label. -/
  details : Table String Histogram
  /-- The latencies of each second. -/
  perSecond : Table UInt64 Histogram
  /-- The time series, each in the order in which its points were made. -/
  series : Table String (List SeriesPoint)
  sent : UInt64
  received : UInt64
  deriving DecidableEq, Repr

namespace Ledger

/-- A ledger that has recorded nothing. -/
def create (burnIn : Nat) : Ledger where
  burnIn := burnIn
  seen := 0
  tracks := PerLabel.ofFn fun _ => Track.empty
  total := Histogram.empty
  instantTotal := Histogram.empty
  details := Table.empty
  perSecond := Table.empty
  series := Table.empty
  sent := 0
  received := 0

instance : Inhabited Ledger := ⟨create 0⟩

/-! ## Sections of a recording -/

/-- Draws a ticket for one sample; whether the sample is measured. -/
def ticket (ledger : Ledger) : Ledger × Bool :=
  ({ ledger with seen := ledger.seen + 1 }, ledger.burnIn ≤ ledger.seen)

/-- Draws a ticket for each sample of a list; the samples that are measured. -/
def tickets : Ledger → List Sample → Ledger × List Sample
  | ledger, [] => (ledger, [])
  | ledger, sample :: rest =>
    let (ledger, measured) := ledger.ticket
    let (ledger, others) := ledger.tickets rest
    (ledger, if measured then sample :: others else others)

/-- Counts one sample under its label. -/
def countLabel (ledger : Ledger) (sample : Sample) : Ledger :=
  { ledger with
    tracks := ledger.tracks.modify sample.group fun track => track.add sample
    total := ledger.total.record sample.latency.toNat
    instantTotal := ledger.instantTotal.record sample.latency.toNat }

/-- Counts samples under their labels. -/
def countLabels (ledger : Ledger) (measured : List Sample) : Ledger :=
  measured.foldl countLabel ledger

/-- A table of histograms with one more latency under a key. -/
def countUnder {κ : Type} [LT κ] [DecidableLT κ] (table : Table κ Histogram) (key : κ)
    (latency : Nat) : Table κ Histogram :=
  table.alter key fun before => (before.getD Histogram.empty).record latency

/-- Counts samples under their queries. -/
def countQueries (ledger : Ledger) (measured : List Sample) : Ledger :=
  { ledger with
    details := measured.foldl
      (fun table sample => countUnder table sample.queryKey sample.latency.toNat)
      ledger.details }

/-- Counts samples under the seconds in which they were issued. -/
def countSeconds (ledger : Ledger) (measured : List Sample) : Ledger :=
  { ledger with
    perSecond := measured.foldl
      (fun table sample => countUnder table sample.second sample.latency.toNat)
      ledger.perSecond }

/-- Adds bytes sent; the total wraps at 64 bits. -/
def addSent (ledger : Ledger) (bytes : UInt64) : Ledger :=
  { ledger with sent := ledger.sent + bytes }

/-- Adds bytes received; the total wraps at 64 bits. -/
def addReceived (ledger : Ledger) (bytes : UInt64) : Ledger :=
  { ledger with received := ledger.received + bytes }

/-- Records a batch, all sections without a break; whether it came to the end. It does not if the
bytes of this one batch are beyond 64 bits: then everything but its bytes is recorded. -/
def record (ledger : Ledger) (measured : Measurements) : Ledger × Bool :=
  let (ledger, samples) := ledger.tickets measured.samples
  let counted := ((ledger.countLabels samples).countQueries samples).countSeconds samples
  match Traffic.ofSamples? samples with
  | some traffic => ((counted.addSent traffic.sent).addReceived traffic.received, true)
  | none => (counted, false)

/-- How many samples the burn-in has left out. -/
def leftOut (ledger : Ledger) : Nat := Nat.min ledger.seen ledger.burnIn

end Ledger

/-! ## Counters -/

/-- What was counted up to one moment. -/
structure Counts where
  perLabel : PerLabel Nat
  total : Nat
  failures : Nat
  timeouts : Nat
  sent : Nat
  received : Nat
  deriving DecidableEq, Repr

/-- Nothing counted. -/
def Counts.zero : Counts := ⟨PerLabel.ofFn fun _ => 0, 0, 0, 0, 0, 0⟩

/-- What has been counted so far. -/
def Ledger.counts (ledger : Ledger) : Counts where
  perLabel := ledger.tracks.map fun track => track.cumulative.total
  total := ledger.total.total
  failures := (ledger.tracks.toList.map Track.failures).foldr (· + ·) 0
  timeouts := (ledger.tracks.toList.map Track.timeouts).foldr (· + ·) 0
  sent := ledger.sent.toNat
  received := ledger.received.toNat

end LoadBench
