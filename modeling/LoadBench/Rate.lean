/-
  LoadBench.Rate

  Rates, shares and byte counts as they are published.  A quotient that is not
  a finite number, such as a rate over no time, is published as minus one.
-/

import LoadBench.Decimal.Fixed
import LoadBench.TimeSpan

namespace LoadBench.Rate

/-- What is published in place of a number that is not finite. -/
def undefined : Binary64 := (Binary64.ofNat 1).neg

/-- A number as it is published. -/
def published (x : Binary64) : Binary64 := if x.isFinite then x else undefined

/-- The growth of a counter per second. -/
def perSecond (current previous : Nat) (took : TimeSpan) : Binary64 :=
  published ((Binary64.ofNat current - Binary64.ofNat previous) / took.toSeconds)

/-- The share of a part in a whole. -/
def share (part whole : Nat) : Binary64 :=
  published (Binary64.ofNat part / Binary64.ofNat whole)

/-! ## Byte counts -/

/-- The units of byte counts, each 1024 times the one before. -/
def byteUnits : List Char := ['B', 'K', 'M', 'G', 'T', 'P']

/-- Divides by 1024 while the number is at least that and a larger unit is left. -/
def scaleBytes : Binary64 → List Char → Binary64 × List Char
  | value, unit :: larger :: rest =>
    if Binary64.le (Binary64.ofNat 1024) value then
      scaleBytes (value / Binary64.ofNat 1024) (larger :: rest)
    else (value, [unit])
  | value, units => (value, units)

/-- A text without a final `.0`. -/
def dropZeroPlace (text : List Char) : List Char :=
  match text.reverse with
  | '0' :: '.' :: rest => rest.reverse
  | _ => text

/-- A byte count for a reader: one decimal place at most and a unit; a dash for what is no count. -/
def bytesText (bytes : Binary64) : List Char :=
  if !bytes.isFinite || Binary64.lt bytes Binary64.zero then ['-']
  else
    let (value, unit) := scaleBytes bytes byteUnits
    dropZeroPlace (Decimal.fixed 1 value) ++ unit

end LoadBench.Rate
