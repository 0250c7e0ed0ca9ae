/-
  LoadBench.Decimal.Shortest

  The fewest decimal digits that name a double.  The reals that round to a
  double form an interval around it, its *basin*; the basin contains its two
  ends exactly when the mantissa is even.  A decimal *grid* is the set of
  multiples of one power of ten.  The shortest name lies on the coarsest grid
  that meets the basin, and of the grid's points it is the one nearest to the
  double, a tie going to the even digit.

  Only the two grid points next to the double have to be looked at: if any
  point of a grid lies in the basin, so does one of these two.
-/

import LoadBench.Binary64

namespace LoadBench

/-- The decimal number `digits * 10 ^ exponent`. -/
structure Decimal where
  digits : Nat
  exponent : Int
  deriving DecidableEq, Repr

namespace Decimal

/-- The reals that round to a double, in quarters of a unit. -/
structure Basin where
  low : Nat
  value : Nat
  high : Nat
  /-- Whether the two ends belong to it. -/
  closed : Bool
  deriving Repr

/-- The basin of `mantissa * 2 ^ exponent` units. Below a power of two doubles lie twice as
close. -/
def Basin.of (mantissa exponent : Nat) : Basin where
  low := (4 * mantissa - if mantissa = Nat.pow 2 52 ∧ 0 < exponent then 1 else 2) *
    Nat.pow 2 exponent
  value := 4 * mantissa * Nat.pow 2 exponent
  high := (4 * mantissa + 2) * Nat.pow 2 exponent
  closed := mantissa % 2 = 0

/-- Whether `point / scale` quarter units lie in a basin. -/
def Basin.contains (basin : Basin) (point scale : Nat) : Bool :=
  if basin.closed then basin.low * scale ≤ point && point ≤ basin.high * scale
  else basin.low * scale < point && point < basin.high * scale

/-- The point of the grid of multiples of `10 ^ grid` that is nearest to the double and in its
basin. -/
def Basin.meet? (basin : Basin) (grid : Int) : Option Nat :=
  let scale := Nat.pow 10 (-grid).toNat
  let step := 4 * Binary64.one * Nat.pow 10 grid.toNat
  let value := basin.value * scale
  let below := value / step
  match basin.contains (below * step) scale, basin.contains ((below + 1) * step) scale with
  | false, false => none
  | true, false => some below
  | false, true => some (below + 1)
  -- Both neighbours name the double: the nearer one, and of two as near the even one.
  | true, true => some (nearestEven value step)

/-- A power of ten that is above a number of `units` units. -/
def gridAbove (units : Nat) : Int := ((units.log2 : Int) - 1073) * 30103 / 100000 + 2

/-- The grids searched, from coarse to fine. Seventeen digits always name a double. -/
def grids (units : Nat) : List Int := (List.range 24).map fun (step : Nat) => gridAbove units - step

/-- The shortest name of `mantissa * 2 ^ exponent` units. -/
def shortest (mantissa exponent : Nat) : Decimal :=
  let basin := Basin.of mantissa exponent
  let found := (grids (mantissa * Nat.pow 2 exponent)).findSome? fun grid =>
    (basin.meet? grid).map fun digits => ⟨digits, grid⟩
  found.getD ⟨0, 0⟩

end Decimal

end LoadBench
