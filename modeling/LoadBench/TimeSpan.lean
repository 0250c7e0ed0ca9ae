/-
  LoadBench.TimeSpan

  Lengths of time in whole nanoseconds.  A span has fewer than 2⁶⁴ seconds;
  `ofSeconds?` has no answer for a number of seconds beyond that.
-/

import LoadBench.Binary64

namespace LoadBench

/-- A length of time. -/
structure TimeSpan where
  nanos : Nat
  deriving DecidableEq, Repr

namespace TimeSpan

/-- Nanoseconds in a second. -/
def nanosPerSecond : Nat := 1000000000

/-- No time at all. -/
def zero : TimeSpan := ⟨0⟩

instance : Inhabited TimeSpan := ⟨zero⟩

/-- A whole number of seconds and further nanoseconds. -/
def ofParts (seconds nanos : Nat) : TimeSpan := ⟨seconds * nanosPerSecond + nanos⟩

/-- A whole number of milliseconds. -/
def ofMillis (millis : Nat) : TimeSpan := ⟨millis * 1000000⟩

/-- The whole seconds of a span. -/
def seconds (span : TimeSpan) : Nat := span.nanos / nanosPerSecond

/-- The nanoseconds of a span beyond its whole seconds. -/
def subsecond (span : TimeSpan) : Nat := span.nanos % nanosPerSecond

/-- The whole milliseconds of a span. -/
def millis (span : TimeSpan) : Nat := span.nanos / 1000000

/-- Whether a span has as few seconds as a span can have. -/
def fits (span : TimeSpan) : Bool := span.seconds < UInt64.size

/-- Whether a span is no time at all. -/
def isZero (span : TimeSpan) : Bool := span.nanos = 0

/-- A span as a number of seconds: the whole seconds and the rest are rounded each, then their
sum. -/
def toSeconds (span : TimeSpan) : Binary64 :=
  Binary64.ofNat span.seconds + Binary64.ofNat span.subsecond / Binary64.ofNat nanosPerSecond

/-- The span nearest to a number of seconds, if the number is at least zero and fits. -/
def ofSeconds? : Binary64 → Option TimeSpan
  | .nan => none
  | .infinite _ => none
  | .finite negative mantissa exponent =>
    let units := mantissa * Nat.pow 2 exponent
    if negative && units != 0 then none
    else if UInt64.size * Binary64.one ≤ units then none
    else some ⟨nearestEven (units * nanosPerSecond) Binary64.one⟩

end TimeSpan

end LoadBench
