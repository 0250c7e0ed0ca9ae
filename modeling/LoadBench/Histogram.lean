/-
  LoadBench.Histogram

  Latency histograms.  Latencies are whole microseconds.  Up to 2047 each has a
  slot of its own; above, the slots of one *bucket* are as wide as a power of
  two, so that a slot is never wider than a thousandth of its values.  A latency
  beyond the last slot is counted as one second.

  A histogram keeps the number of latencies in each slot that has any
  (`Histogram.counts`).  The value at a percentile is read off by walking the
  slots until enough latencies have been passed.
-/

import LoadBench.Binary64
import LoadBench.Table

namespace LoadBench

/-! ## Slots -/

namespace Slot

/-- The bucket of a value: how often its slot's width doubles. -/
def bucket (value : Nat) : Nat := value.log2 - 10

/-- The slot of a value. -/
def ofValue (value : Nat) : Nat := bucket value * 1024 + value / Nat.pow 2 (bucket value)

/-- The bucket of a slot. -/
def bucketOf (slot : Nat) : Nat := slot / 1024 - 1

/-- The least value of a slot. -/
def lowest (slot : Nat) : Nat := (slot - bucketOf slot * 1024) * Nat.pow 2 (bucketOf slot)

/-- The greatest value of a slot. -/
def highest (slot : Nat) : Nat := lowest slot + (Nat.pow 2 (bucketOf slot) - 1)

end Slot

/-! ## Histograms -/

/-- How many latencies each slot holds. -/
structure Histogram where
  counts : Table Nat Nat
  deriving DecidableEq, Repr

namespace Histogram

/-- A latency from here on has no slot of its own. -/
def bound : Nat := 1048576

/-- What a latency without a slot is counted as. -/
def ceiling : Nat := 1000000

/-- The histogram of no latencies. -/
def empty : Histogram := ⟨Table.empty⟩

instance : Inhabited Histogram := ⟨empty⟩

/-- The latency a latency is counted as. -/
def clamp (latency : Nat) : Nat := if latency < bound then latency else ceiling

/-- The slot a latency is counted in. -/
def slotOf (latency : Nat) : Nat := Slot.ofValue (clamp latency)

/-- Counts a latency. -/
def record (histogram : Histogram) (latency : Nat) : Histogram :=
  ⟨histogram.counts.alter (slotOf latency) fun before => before.getD 0 + 1⟩

/-- The histogram of a list of latencies. -/
def ofList (latencies : List Nat) : Histogram := latencies.foldl record empty

/-- How many latencies a slot holds. -/
def countAt (histogram : Histogram) (slot : Nat) : Nat := (histogram.counts.get? slot).getD 0

/-- How many latencies were counted. -/
def total (histogram : Histogram) : Nat := histogram.counts.values.foldr (· + ·) 0

/-- Whether no latency was counted. -/
def isEmpty (histogram : Histogram) : Bool := histogram.total = 0

/-! ## Percentiles -/

/-- The first slot at which `target` latencies have been passed, `passed` of them before. -/
def walk (target : Nat) : Nat → List (Nat × Nat) → Option Nat
  | _, [] => none
  | passed, (slot, count) :: rest =>
    if target ≤ passed + count then some slot else walk target (passed + count) rest

/-- The fraction of the latencies that a percentile asks for; never more than all. -/
def fraction (percentile : Binary64) : Binary64 :=
  let part := percentile / Binary64.ofNat 100
  if Binary64.lt (Binary64.ofNat 1) part then Binary64.ofNat 1 else part

/-- The rank a fraction of `total` latencies asks for; at least the first. -/
def rank (part : Binary64) (total : Nat) : Nat :=
  Nat.max 1 ((part * Binary64.ofNat total).ceilWithin (UInt64.size - 1))

/-- The latency at a percentile: of the slot reached, the least value for percentile zero and the
greatest for any other. -/
def valueAt (histogram : Histogram) (percentile : Binary64) : Nat :=
  let part := fraction percentile
  match walk (rank part histogram.total) 0 histogram.counts.entries with
  | none => 0
  -- Zero, with either sign, asks for the least latency.
  | some slot => if part.units = 0 && part.isFinite then Slot.lowest slot else Slot.highest slot

/-- The latency at a percentile in milliseconds; zero for no latencies. -/
def percentileMillis (histogram : Histogram) (percentile : Binary64) : Binary64 :=
  if histogram.isEmpty then Binary64.zero
  else Binary64.ofNat (histogram.valueAt percentile) / Binary64.ofNat 1000

end Histogram

/-! ## Quantiles -/

/-- The published quantiles of a histogram, in milliseconds. -/
structure Quantiles where
  q0 : Binary64
  q50 : Binary64
  q95 : Binary64
  q99 : Binary64
  q999 : Binary64
  q100 : Binary64
  deriving DecidableEq, Repr

/-- The median of a histogram in milliseconds. -/
def Histogram.medianMillis (histogram : Histogram) : Binary64 :=
  histogram.percentileMillis (Binary64.ofNat 50)

/-- The published quantiles; all zero for no latencies. -/
def Histogram.quantiles (histogram : Histogram) : Quantiles where
  q0 := histogram.percentileMillis Binary64.zero
  q50 := histogram.medianMillis
  q95 := histogram.percentileMillis (Binary64.ofNat 95)
  q99 := histogram.percentileMillis (Binary64.ofNat 99)
  q999 := histogram.percentileMillis (Binary64.ofNat 999 / Binary64.ofNat 10)
  q100 := histogram.percentileMillis (Binary64.ofNat 100)

end LoadBench
