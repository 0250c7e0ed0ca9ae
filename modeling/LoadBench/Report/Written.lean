/-
  LoadBench.Report.Written

  The written forms of samples, points and reports, and reading them back.
  Every fault in a stored document is one and the same fault.

  Two records take in the fields of another one: the rates of single labels and
  queries stand beside the overall rates, and the quantiles of a period stand
  beside its rate.
-/

import LoadBench.Fault
import LoadBench.Json.Reader
import LoadBench.Report.RunId
import LoadBench.Storage
import LoadBench.Text.Utf8

namespace LoadBench

open Json (Tree Value)

/-- A stored document that cannot be read. -/
def Json.unreadable : Fault := ⟨.io, "JSON error"⟩

/-- Reads a document. -/
def Json.read {α : Type} (read? : Tree → Option α) (text : String) : Except Fault α :=
  match (Tree.ofText? text.toList).bind read? with
  | some value => .ok value
  | none => .error Json.unreadable

/-! ## Samples -/

namespace Sample

/-- The fields of a written sample. -/
def fieldNames : List String :=
  ["label", "query_id", "start_ts", "latency_us", "error", "timed_out", "rx_bytes", "tx_bytes"]

/-- A sample as a value. -/
def toValue (sample : Sample) : Value :=
  .object [("label", .text sample.label), ("query_id", .text sample.query),
    ("start_ts", .natural sample.second), ("latency_us", .natural sample.latency),
    ("error", .bool sample.failed), ("timed_out", .bool sample.timedOut),
    ("rx_bytes", .natural sample.received), ("tx_bytes", .natural sample.sent)]

/-- The sample a tree stands for. -/
def ofTree? (tree : Tree) : Option Sample :=
  match tree.record? fieldNames with
  | some [label, query, second, latency, failed, timedOut, received, sent] => do
    return {
      label := ← label.string?
      query := ← query.string?
      second := ← second.natural?
      latency := ← latency.natural?
      failed := ← failed.bool?
      timedOut := ← timedOut.bool?
      received := ← received.natural?
      sent := ← sent.natural? }
  | _ => none

end Sample

/-! ## Points -/

namespace Quantiles

/-- The fields of written quantiles. -/
def fieldNames : List String := ["q0", "q50", "q95", "q99", "q999", "q100"]

/-- The fields of quantiles. -/
def toFields (quantiles : Quantiles) : List (String × Value) :=
  [("q0", .double quantiles.q0), ("q50", .double quantiles.q50), ("q95", .double quantiles.q95),
    ("q99", .double quantiles.q99), ("q999", .double quantiles.q999),
    ("q100", .double quantiles.q100)]

/-- Quantiles from the values of their fields in order. -/
def ofDoubles? : List Binary64 → Option Quantiles
  | [q0, q50, q95, q99, q999, q100] => some ⟨q0, q50, q95, q99, q999, q100⟩
  | _ => none

/-- The quantiles a tree stands for. -/
def ofTree? (tree : Tree) : Option Quantiles :=
  ((tree.record? fieldNames).bind fun fields => fields.mapM Tree.double?).bind ofDoubles?

end Quantiles

namespace PointValue

/-- What a point shows, as a value. -/
def toValue : PointValue → Value
  | .scalar value => .double value
  | .period quantiles rate => .object (quantiles.toFields ++ [("rate", .double rate)])

/-- The quantiles and the rate an object stands for. -/
def periodOf? (tree : Tree) : Option PointValue :=
  match tree.openRecord? (Quantiles.fieldNames ++ ["rate"]) with
  | none => none
  | some (fields, _) => do
    let values ← fields.mapM Tree.double?
    return .period (← Quantiles.ofDoubles? (values.take 6)) (← values[6]?)

/-- What a point `level` levels below the top shows. The whole value has to be sound before it is
looked at: a number is a scalar, an object is a period. -/
def ofTree? (level : Nat) (tree : Tree) : Option PointValue :=
  if level + tree.depth ≤ Json.depthLimit ∧ (Value.ofTree? tree).isSome then
    match tree.double? with
    | some value => some (.scalar value)
    | none => periodOf? tree
  else none

end PointValue

namespace SeriesPoint

/-- A point as a value. -/
def toValue (point : SeriesPoint) : Value :=
  .object [("Timestamp", .natural point.timestamp), ("Value", point.value.toValue)]

/-- The point a tree stands for, `level` levels below the top. -/
def ofTree? (level : Nat) (tree : Tree) : Option SeriesPoint :=
  match tree.record? ["Timestamp", "Value"] with
  | some [timestamp, value] => do
    return ⟨← timestamp.natural?, ← PointValue.ofTree? (level + 1) value⟩
  | _ => none

end SeriesPoint

/-! ## Parts of a report -/

namespace Totals

/-- The fields of written totals. -/
def fieldNames : List String :=
  ["TotalOps", "SetupWrites", "Writes", "Reads", "ReadsCursor", "Updates", "Deletes", "Others",
    "Errors", "Timeouts", "TxBytes", "RxBytes"]

/-- The numbers of totals in the order of their fields. -/
def toList (totals : Totals) : List UInt64 :=
  [totals.operations, totals.setupWrites, totals.writes, totals.reads, totals.cursorReads,
    totals.updates, totals.deletes, totals.others, totals.failures, totals.timeouts, totals.sent,
    totals.received]

/-- Totals from the values of their fields in order. -/
def ofNaturals? : List UInt64 → Option Totals
  | [operations, setupWrites, writes, reads, cursorReads, updates, deletes, others, failures,
      timeouts, sent, received] =>
    some ⟨operations, setupWrites, writes, reads, cursorReads, updates, deletes, others, failures,
      timeouts, sent, received⟩
  | _ => none

/-- Totals as a value. -/
def toValue (totals : Totals) : Value :=
  .object (fieldNames.zip (totals.toList.map Value.natural))

/-- The totals a tree stands for. -/
def ofTree? (tree : Tree) : Option Totals :=
  ((tree.record? fieldNames).bind fun fields => fields.mapM Tree.natural?).bind ofNaturals?

end Totals

namespace Ratios

/-- The fields of a written traffic mix. -/
def fieldNames : List String :=
  ["MeasuredWriteRatio", "MeasuredReadRatio", "MeasuredUpdateRatio", "MeasuredDeleteRatio"]

/-- The traffic mix as a list. -/
def toList (ratios : Ratios) : List Binary64 :=
  [ratios.write, ratios.read, ratios.update, ratios.delete]

/-- A traffic mix as a value. -/
def toValue (ratios : Ratios) : Value :=
  .object (fieldNames.zip (ratios.toList.map Value.double))

/-- The traffic mix a tree stands for. -/
def ofTree? (tree : Tree) : Option Ratios :=
  match (tree.record? fieldNames).bind fun fields => fields.mapM Tree.double? with
  | some [write, read, update, delete] => some ⟨write, read, update, delete⟩
  | _ => none

end Ratios

namespace RunRates

/-- The fields of written overall rates beside the rates of labels and queries. -/
def fieldNames : List String :=
  ["overallOpsRate", "overallTxByteRate", "overallRxByteRate", "txByteRateStr", "rxByteRateStr"]

/-- Overall rates as a value. -/
def toValue (rates : RunRates) : Value :=
  .object <|
    (rates.rates.entries.map fun entry => (entry.1, Value.double entry.2)) ++
    [("overallOpsRate", .double rates.operations), ("overallTxByteRate", .double rates.sent),
      ("overallRxByteRate", .double rates.received), ("txByteRateStr", .text rates.sentText),
      ("rxByteRateStr", .text rates.receivedText)]

/-- The overall rates a tree stands for. -/
def ofTree? (tree : Tree) : Option RunRates :=
  match tree.openRecord? fieldNames with
  | some ([operations, sent, received, sentText, receivedText], others) => do
    let rates ← others.mapM fun field => field.2.double?.map fun rate => (field.1, rate)
    return {
      rates := Table.ofList rates
      operations := ← operations.double?
      sent := ← sent.double?
      received := ← received.double?
      sentText := ← sentText.string?
      receivedText := ← receivedText.string? }
  | _ => none

end RunRates

/-! ## Reports -/

namespace Report

/-- The fields of a written report. -/
def fieldNames : List String :=
  ["StartTime", "EndTime", "DurationMillis", "RunId", "Metadata", "ResultFormatVersion", "Limit",
    "Workers", "MaxRps", "BatchSize", "DBSpecificConfigs", "Totals", "MeasuredRatios",
    "OverallRates", "OverallQuantiles", "TimeSeries", "PerSecondEncodedHistograms"]

/-- A table as a value. -/
def tableValue {ν : Type} (value : ν → Value) (table : Table String ν) : Value :=
  .object (table.entries.map fun entry => (entry.1, value entry.2))

/-- A report as a value. -/
def toValue (report : Report) : Value :=
  .object [("StartTime", .integer report.startTime.toInt),
    ("EndTime", .integer report.endTime.toInt),
    ("DurationMillis", .natural report.durationMillis),
    ("RunId", .text report.runId.text),
    ("Metadata", .text report.metadata),
    ("ResultFormatVersion", .text report.formatVersion),
    ("Limit", .natural report.limit),
    ("Workers", .natural report.workers),
    ("MaxRps", .natural report.maxRate),
    ("BatchSize", .natural report.batchSize),
    ("DBSpecificConfigs", .object report.settings.entries),
    ("Totals", report.totals.toValue),
    ("MeasuredRatios", report.ratios.toValue),
    ("OverallRates", report.runRates.toValue),
    ("OverallQuantiles",
      tableValue (fun quantiles => .object (Quantiles.toFields quantiles)) report.runQuantiles),
    ("TimeSeries",
      tableValue (fun points => .list (points.map SeriesPoint.toValue)) report.timeSeries),
    ("PerSecondEncodedHistograms",
      .object (report.perSecond.entries.map fun entry =>
        (String.ofList (Decimal.natural entry.1.toNat), .text entry.2)))]

/-- The written form of a report. -/
def toJson (report : Report) : String := String.ofList (report.toValue.pretty 0)

/-- The settings a tree stands for, one level below the top. -/
def settingsOf? (tree : Tree) : Option (Table String Value) :=
  if 1 + tree.depth ≤ Json.depthLimit then tree.table? Value.ofTree? else none

/-- The report a tree stands for. -/
def ofTree? (tree : Tree) : Option Report :=
  match tree.record? fieldNames with
  | some [startTime, endTime, durationMillis, runId, metadata, formatVersion, limit, workers,
      maxRate, batchSize, settings, totals, ratios, runRates, runQuantiles, timeSeries,
      perSecond] => do
    return {
      startTime := ← startTime.int64?
      endTime := ← endTime.int64?
      durationMillis := ← durationMillis.natural?
      runId := ← runId.string?.bind fun text => RunId.ofText? text.toList
      metadata := ← metadata.string?
      formatVersion := ← formatVersion.string?
      limit := ← limit.natural?
      workers := ← workers.natural?
      maxRate := ← maxRate.natural?
      batchSize := ← batchSize.natural?
      settings := ← settingsOf? settings
      totals := ← Totals.ofTree? totals
      ratios := ← Ratios.ofTree? ratios
      runRates := ← RunRates.ofTree? runRates
      runQuantiles := ← runQuantiles.table? Quantiles.ofTree?
      timeSeries := ← timeSeries.table? fun points =>
        points.items?.bind fun items => items.mapM (SeriesPoint.ofTree? 3)
      perSecond := ← perSecond.numberedTable? Tree.string? }
  | _ => none

/-- The report a text is the written form of. -/
def ofJson (text : String) : Except Fault Report := Json.read ofTree? text

/-- A stored report that is no text. -/
def notText : Fault := ⟨.io, "stream did not contain valid UTF-8"⟩

/-- The report stored as bytes. -/
def ofBytes (bytes : List UInt8) : Except Fault Report :=
  match Utf8.decode bytes with
  | .ok text => ofJson (String.ofList text)
  | .error _ => .error notText

/-- The report stored in a file. -/
def ofPath (path : String) : Except Fault Report :=
  match Storage.read path with
  | .ok bytes => ofBytes bytes
  | .error fault => .error fault.fault

end Report

end LoadBench
