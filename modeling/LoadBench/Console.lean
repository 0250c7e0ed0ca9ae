/-
  LoadBench.Console

  The table of rates that a run prints while it goes on: a header and one row
  for each reporting period, in columns of fixed width.
-/

import LoadBench.Period

namespace LoadBench.Console

/-- The groups with a column of their own, in print order. -/
def columns : List Label := [.setupWrite, .write, .update, .read, .cursorRead, .delete]

/-- A text in a wide column. -/
def wide (text : List Char) : List Char := Decimal.padLeft 22 ' ' text

/-- A text in a narrow column. -/
def narrow (text : List Char) : List Char := Decimal.padLeft 12 ' ' text

/-- A rate and a median latency. -/
def rateText (rate median : Binary64) : List Char :=
  Decimal.fixed 0 rate ++ " (".toList ++ Decimal.fixed 3 median ++ [')']

/-- The header of the table. -/
def header : String :=
  String.ofList <|
    (columns.flatMap fun label => wide (label.key ++ " ops/sec").toList) ++
      wide "current ops/sec".toList ++ narrow "total ops".toList ++ narrow "TX BW/s".toList ++
      narrow "RX BW/s".toList

/-- The row of a period. -/
def rowText (row : PeriodFigures) : String :=
  String.ofList <|
    (columns.flatMap fun label => wide (rateText (row.rates.get label) (row.medians.get label))) ++
      wide (rateText row.totalRate row.totalMedian) ++ narrow (Decimal.natural row.counts.total) ++
      narrow (Rate.bytesText row.sentRate ++ "B/s".toList) ++
      narrow (Rate.bytesText row.receivedRate ++ "B/s".toList)

end LoadBench.Console
