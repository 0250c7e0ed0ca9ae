/-
  LoadBench.Report.Summary

  The summary that is printed at the end of a run: how many commands were
  issued in what time, then one line of rate and median latency for all
  commands and for each group, failures if there were any, and byte rates.
-/

import LoadBench.Report

namespace LoadBench.Report

/-- One line of rates: a name, a rate and a median latency. -/
def summaryLine (name : String) (rate median : Binary64) : List Char :=
  "\t- ".toList ++ Decimal.padRight 14 name.toList ++
    Decimal.padLeft 10 ' ' (Decimal.fixed 0 rate) ++ " ops/sec\tq50 lat ".toList ++
    Decimal.fixed 3 median ++ " ms".toList

/-- The median under a key, zero if there is none. -/
def median (report : Report) (key : String) : Binary64 :=
  match report.runQuantiles.get? key with
  | some quantiles => quantiles.q50
  | none => Binary64.zero

/-- The rate of a group, zero if there is none. -/
def labelRate (report : Report) (label : Label) : Binary64 :=
  (report.runRates.rates.get? (label.key ++ "Rate")).getD Binary64.zero

/-- Whether the summary has a line for a group: `other` only if its rate is above zero. -/
def showsLabel (report : Report) (label : Label) : Bool :=
  label != .other || !Binary64.le (report.labelRate label) Binary64.zero

/-- The summary that is printed at the end of a run, line by line. -/
def summaryLines (report : Report) (workers : Nat) : List (List Char) :=
  let took := Binary64.ofNat report.durationMillis.toNat / Binary64.ofNat 1000
  let rates := report.runRates
  [[], "Summary:".toList,
    "Issued ".toList ++ Decimal.natural report.totals.operations.toNat ++ " Commands in ".toList ++
      Decimal.fixed 3 took ++ "sec with ".toList ++ Decimal.natural workers ++ " workers".toList,
    "\tOverall stats:".toList,
    summaryLine "Total" rates.operations (report.median allCommandsKey)] ++
  ((Label.all.filter report.showsLabel).map fun label =>
    summaryLine label.title (report.labelRate label) (report.median label.key)) ++
  (if report.totals.failures.toNat = 0 && report.totals.timeouts.toNat = 0 then []
    else
      ["\tErrors: ".toList ++ Decimal.natural report.totals.failures.toNat ++
        "\tTimeouts: ".toList ++ Decimal.natural report.totals.timeouts.toNat]) ++
  ["\tOverall TX Byte Rate: ".toList ++ rates.sentText.toList ++ "B/sec".toList,
    "\tOverall RX Byte Rate: ".toList ++ rates.receivedText.toList ++ "B/sec".toList]

/-- The summary as one text. -/
def summary (report : Report) (workers : Nat) : String :=
  String.ofList ((report.summaryLines workers).flatMap fun line => line ++ ['\n'])

end LoadBench.Report
