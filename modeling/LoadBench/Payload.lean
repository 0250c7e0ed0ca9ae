/-
  LoadBench.Payload

  Histograms as bytes, for merging outside the program.  A payload is a fixed
  header followed by the counts of all slots up to the last one used.  A run of
  empty slots is one negative number, every number is mapped to a natural one
  by zig-zag and written in groups of seven bits, at most nine bytes long.
-/

import LoadBench.Histogram

namespace LoadBench.Payload

/-! ## Numbers -/

/-- The natural number that stands for an integer: small magnitudes of either sign stay small. -/
def zigzag (n : Int) : Nat := if 0 ≤ n then 2 * n.toNat else 2 * (-n).toNat - 1

/-- Groups of seven bits, the lowest first, each marked if another follows; after `more` further
groups the last byte holds eight bits. -/
def groups : Nat → Nat → List UInt8
  | 0, n => [UInt8.ofNat n]
  | more + 1, n =>
    if n < 128 then [UInt8.ofNat n] else UInt8.ofNat (128 + n % 128) :: groups more (n / 128)

/-- The bytes of a count or of a run of empty slots. -/
def number (n : Int) : List UInt8 := groups 8 (zigzag n)

/-! ## Counts -/

/-- A run of empty slots: nothing for none, zero for one, the negated length for more. -/
def gap (length : Nat) : List Int :=
  if length = 0 then [] else if length = 1 then [0] else [-(length : Int)]

/-- The numbers that stand for the slots from `next` on. -/
def numbers : Nat → List (Nat × Nat) → List Int
  | _, [] => []
  | next, (slot, count) :: rest => gap (slot - next) ++ (count : Int) :: numbers (slot + 1) rest

/-- The numbers that stand for the counts of a histogram; the first slot is always written. -/
def runs (histogram : Histogram) : List Int :=
  if histogram.counts.isEmpty then [0] else numbers 0 histogram.counts.entries

/-! ## The whole payload -/

/-- A number in `width` bytes, the highest first. -/
def bigEndian : Nat → Nat → List UInt8
  | 0, _ => []
  | width + 1, n => bigEndian width (n / 256) ++ [UInt8.ofNat n]

/-- The marker at the front of a payload. -/
def cookie : Nat := 0x1c849313

/-- A histogram as bytes. -/
def encode (histogram : Histogram) : List UInt8 :=
  let counts := (runs histogram).flatMap number
  bigEndian 4 cookie ++ bigEndian 4 counts.length ++ bigEndian 4 0 ++ bigEndian 4 3 ++
    bigEndian 8 1 ++ bigEndian 8 Histogram.ceiling ++
    bigEndian 8 (Binary64.ofNat 1).toBits.toNat ++ counts

end LoadBench.Payload
