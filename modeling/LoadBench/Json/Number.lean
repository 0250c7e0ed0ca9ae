/-
  LoadBench.Json.Number

  JSON numbers, kept as they are written.  A number is read as a whole number
  only if it is written as one and lies in the range asked for; it can always be
  read as a double, unless it is too large for one.

  The double of a number is not the nearest one: the first digits that fit 64
  bits are one whole number, which is multiplied or divided once by a power of
  ten.  Numbers of up to fifteen digits with small exponents are still exact to
  the last bit.
-/

import LoadBench.Binary64

namespace LoadBench.Json

/-- A number as it is written: its sign, its digits before and after the point, and the sign and
digits of its exponent. -/
structure Number where
  negative : Bool
  whole : List Char
  fraction : List Char
  exponent : Option (Bool × List Char)
  deriving DecidableEq, Repr

namespace Number

/-! ## Syntax -/

/-- The part after a point, which has at least one digit; no part without a point. -/
def scanFraction? : List Char → Option (List Char × List Char)
  | '.' :: rest =>
    let digits := rest.takeWhile Char.isDigit
    if digits.isEmpty then none else some (digits, rest.dropWhile Char.isDigit)
  | text => some ([], text)

/-- The sign of an exponent and what follows it. -/
def splitExponentSign : List Char → Bool × List Char
  | '-' :: rest => (true, rest)
  | '+' :: rest => (false, rest)
  | text => (false, text)

/-- The exponent, which has at least one digit, if there is one. -/
def scanExponent? : List Char → Option (Option (Bool × List Char) × List Char)
  | c :: rest =>
    if c = 'e' || c = 'E' then
      let (negative, body) := splitExponentSign rest
      let digits := body.takeWhile Char.isDigit
      if digits.isEmpty then none
      else some (some (negative, digits), body.dropWhile Char.isDigit)
    else some (none, c :: rest)
  | [] => some (none, [])

/-- The number at the front of a text, and what follows it. -/
def scan? (text : List Char) : Option (Number × List Char) :=
  let (negative, body) := match text with
    | '-' :: rest => (true, rest)
    | _ => (false, text)
  let whole := body.takeWhile Char.isDigit
  -- No zero stands in front of other digits.
  if whole.isEmpty || (whole.length != 1 && whole.head? == some '0') then none
  else
    match scanFraction? (body.dropWhile Char.isDigit) with
    | none => none
    | some (fraction, rest) =>
      match scanExponent? rest with
      | none => none
      | some (exponent, rest) => some (⟨negative, whole, fraction, exponent⟩, rest)

/-! ## Whole numbers -/

/-- Whether a number is written without a point and without an exponent. -/
def isWhole (number : Number) : Bool := number.fraction.isEmpty && number.exponent.isNone

/-- The digits before the point as a natural number. -/
def wholeValue (number : Number) : Nat := Nat.ofDigitChars 10 number.whole 0

/-- The whole number a number is written as, if 64 bits hold it. A zero with a minus sign is
none. -/
def integer? (number : Number) : Option Int :=
  let value := number.wholeValue
  if !number.isWhole then none
  else if number.negative then
    if 0 < value ∧ value ≤ Nat.pow 2 63 then some (-(value : Int)) else none
  else if value < UInt64.size then some (value : Int)
  else none

/-- The natural number below `2 ^ 64` a number is written as. -/
def natural? (number : Number) : Option UInt64 :=
  if number.isWhole && !number.negative && number.wholeValue < UInt64.size then
    some (UInt64.ofNat number.wholeValue)
  else none

/-- The whole number between `-2 ^ 63` and `2 ^ 63` a number is written as. -/
def int64? (number : Number) : Option Int64 :=
  match number.integer? with
  | none => none
  | some n => if n < Nat.pow 2 63 then some (Int64.ofInt n) else none

/-! ## Doubles -/

/-- The leading digits that fit 64 bits, the power of ten they are to be multiplied by, and whether
a digit has been left out already. -/
structure Leading where
  significand : Nat
  power : Int
  full : Bool
  deriving Repr

/-- The value of a digit. -/
def digitValue (c : Char) : Nat := c.toNat - 48

/-- One more digit before the point: from the first that does not fit on, each raises the power. -/
def Leading.whole (leading : Leading) (c : Char) : Leading :=
  let next := leading.significand * 10 + digitValue c
  if leading.full || UInt64.size ≤ next then ⟨leading.significand, leading.power + 1, true⟩
  else ⟨next, leading.power, false⟩

/-- One more digit behind the point: from the first that does not fit on, all are left out. -/
def Leading.fraction (leading : Leading) (c : Char) : Leading :=
  let next := leading.significand * 10 + digitValue c
  if leading.full || UInt64.size ≤ next then ⟨leading.significand, leading.power, true⟩
  else ⟨next, leading.power - 1, false⟩

/-- The leading digits of a number. -/
def leading (number : Number) : Leading :=
  let before := number.whole.foldl Leading.whole ⟨0, 0, false⟩
  number.fraction.foldl Leading.fraction ⟨before.significand, before.power, false⟩

/-- The exponent as a number. -/
def exponentValue (number : Number) : Int :=
  match number.exponent with
  | none => 0
  | some (negative, digits) =>
    let value : Int := Nat.ofDigitChars 10 digits 0
    if negative then -value else value

/-- Multiplies or divides by a power of ten; a power below `-308` is taken in steps, of which two
leave nothing of any number. -/
def scale : Nat → Binary64 → Int → Option Binary64
  | steps, value, power =>
    if 308 < power then if value.units = 0 then some value else none
    else if 0 ≤ power then
      let scaled := value * Binary64.ofNat (Nat.pow 10 power.toNat)
      if scaled.isFinite then some scaled else none
    else if -308 ≤ power then some (value / Binary64.ofNat (Nat.pow 10 (-power).toNat))
    else if value.units = 0 then some value
    else
      match steps with
      | 0 => some Binary64.zero
      | steps + 1 => scale steps (value / Binary64.ofNat (Nat.pow 10 308)) (power + 308)

/-- The double a number is read as; none for a number beyond the range. -/
def double? (number : Number) : Option Binary64 :=
  let magnitude :=
    match number.isWhole, decide (number.wholeValue < UInt64.size) with
    | true, true => some (Binary64.ofNat number.wholeValue)
    | _, _ =>
      let leading := number.leading
      scale 4 (Binary64.ofNat leading.significand) (leading.power + number.exponentValue)
  magnitude.map fun value => if number.negative then value.neg else value

end Number

end LoadBench.Json
