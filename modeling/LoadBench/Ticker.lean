/-
  LoadBench.Ticker

  The ticker that divides a run into reporting periods.  It takes a first look at
  the counters when it starts and ends one period at each tick; every period
  starts at the counters of the row before.
-/

import LoadBench.Console

namespace LoadBench

/-- A ticker that waits for its next tick. -/
structure Ticker where
  /-- The counters at the start of the current period. -/
  previous : Counts
  deriving DecidableEq, Repr

namespace Ticker

/-- A ticker that starts now. -/
def start (ledger : Ledger) : Ticker := ⟨ledger.counts⟩

/-- One tick: ends a period of length `took`. -/
def tick (ticker : Ticker) (ledger : Ledger) (timestamp : UInt64) (took : TimeSpan) :
    Ticker × Ledger × PeriodFigures :=
  let (ledger, row) := ledger.endPeriod timestamp took ticker.previous
  (⟨row.counts⟩, ledger, row)

/-- A list of ticks with nothing recorded between them; the rows in order. -/
def ticks (ticker : Ticker) (ledger : Ledger) :
    List (UInt64 × TimeSpan) → Ledger × List PeriodFigures
  | [] => (ledger, [])
  | (timestamp, took) :: rest =>
    let (ticker, ledger, row) := ticker.tick ledger timestamp took
    let (ledger, rows) := ticker.ticks ledger rest
    (ledger, row :: rows)

/-- The lines a ticker prints: the header and one line for each row. -/
def lines (rows : List PeriodFigures) : List String := Console.header :: rows.map Console.rowText

end Ticker

end LoadBench
