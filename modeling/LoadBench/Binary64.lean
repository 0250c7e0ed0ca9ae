/-
  LoadBench.Binary64

  Double precision numbers with exact meaning.  A finite number is a whole
  multiple of 2⁻¹⁰⁷⁴, its *units*: `finite negative mantissa exponent` stands for
  `± mantissa * 2 ^ exponent` units.  Every operation forms its exact result as
  a quotient of whole numbers of units and rounds once, by `Binary64.round`, to
  the nearest number that 53 significant bits can hold, ties to the even one.

  Numbers made by the operations are in normal form (`Binary64.Normal`): the
  mantissa has at most 53 bits, and exactly 53 unless the exponent is zero.
-/

import LoadBench.Rounding

namespace LoadBench

/-- A double precision number. -/
inductive Binary64 where
  /-- Not a number. -/
  | nan
  /-- Infinity, positive or negative. -/
  | infinite (negative : Bool)
  /-- `± mantissa * 2 ^ exponent` units of 2⁻¹⁰⁷⁴. -/
  | finite (negative : Bool) (mantissa exponent : Nat)
  deriving DecidableEq, Repr

namespace Binary64

/-- How many units make one. -/
def one : Nat := Nat.pow 2 1074

/-- The normal form: 53 bits at most, all of them used unless the exponent is zero. -/
def Normal : Binary64 → Prop
  | .finite _ mantissa exponent =>
    mantissa < Nat.pow 2 53 ∧ exponent ≤ 2045 ∧ (0 < exponent → Nat.pow 2 52 ≤ mantissa)
  | _ => True

/-! ## Rounding -/

/-- The exponent at which a number of `units` whole units has 53 bits. -/
def exponentOf (units : Nat) : Nat := units.log2 - 52

/-- The number nearest to `± num / den` units; beyond the range, infinity. -/
def round (negative : Bool) (num den : Nat) : Binary64 :=
  let exponent := exponentOf (num / den)
  let mantissa := nearestEven num (den * Nat.pow 2 exponent)
  -- Rounding has carried into the next power of two.
  if mantissa = Nat.pow 2 53 then
    if 2045 ≤ exponent then .infinite negative else .finite negative (Nat.pow 2 52) (exponent + 1)
  else if 2045 < exponent then .infinite negative
  else .finite negative mantissa exponent

/-- The number nearest to a whole number. -/
def ofNat (n : Nat) : Binary64 := round false (n * one) 1

/-- Positive zero. -/
def zero : Binary64 := .finite false 0 0

instance : Inhabited Binary64 := ⟨zero⟩

/-! ## The 64-bit pattern -/

/-- The number a 64-bit pattern stands for. -/
def ofBits (bits : UInt64) : Binary64 :=
  let word := bits.toNat
  let negative := Nat.pow 2 63 ≤ word
  let biased := word / Nat.pow 2 52 % Nat.pow 2 11
  let fraction := word % Nat.pow 2 52
  if biased = 2047 then
    if fraction = 0 then .infinite negative else .nan
  else if biased = 0 then .finite negative fraction 0
  else .finite negative (Nat.pow 2 52 + fraction) (biased - 1)

/-- The 64-bit pattern of a number in normal form. -/
def toBits : Binary64 → UInt64
  | .nan => 0x7ff8000000000000
  | .infinite negative => UInt64.ofNat ((if negative then Nat.pow 2 63 else 0) + 2047 * Nat.pow 2 52)
  | .finite negative mantissa exponent =>
    let magnitude :=
      if mantissa < Nat.pow 2 52 then mantissa
      else (exponent + 1) * Nat.pow 2 52 + (mantissa - Nat.pow 2 52)
    UInt64.ofNat ((if negative then Nat.pow 2 63 else 0) + magnitude)

/-! ## Views -/

/-- Whether a number is neither infinite nor NaN. -/
def isFinite : Binary64 → Bool
  | .finite .. => true
  | _ => false

/-- The magnitude of a finite number in units, and zero for the others. -/
def units : Binary64 → Nat
  | .finite _ mantissa exponent => mantissa * Nat.pow 2 exponent
  | _ => 0

/-- A magnitude with a sign. -/
def signed (negative : Bool) (magnitude : Nat) : Int :=
  if negative then -(magnitude : Int) else magnitude

/-- The place of a number on the line; infinities lie beyond every finite number. -/
def place : Binary64 → Int
  | .nan => 0
  | .infinite negative => signed negative (Nat.pow 2 2200)
  | .finite negative mantissa exponent => signed negative (mantissa * Nat.pow 2 exponent)

/-- Whether the first number is below the second; never so for NaN. -/
def lt : Binary64 → Binary64 → Bool
  | .nan, _ => false
  | _, .nan => false
  | x, y => decide (x.place < y.place)

/-- Whether the first number is at most the second; never so for NaN. -/
def le : Binary64 → Binary64 → Bool
  | .nan, _ => false
  | _, .nan => false
  | x, y => decide (x.place ≤ y.place)

/-- The smaller of two numbers; a number before NaN. -/
def min : Binary64 → Binary64 → Binary64
  | .nan, y => y
  | x, .nan => x
  | x, y => if lt y x then y else x

/-! ## Arithmetic -/

/-- The opposite number. -/
def neg : Binary64 → Binary64
  | .nan => .nan
  | .infinite negative => .infinite !negative
  | .finite negative mantissa exponent => .finite (!negative) mantissa exponent

/-- The sum, rounded once. A sum of zero is negative only if both terms are. -/
def add : Binary64 → Binary64 → Binary64
  | .nan, _ => .nan
  | _, .nan => .nan
  | .infinite s, .infinite t => if s = t then .infinite s else .nan
  | .infinite s, .finite .. => .infinite s
  | .finite .., .infinite t => .infinite t
  | .finite s m e, .finite t n f =>
    let sum := signed s (m * Nat.pow 2 e) + signed t (n * Nat.pow 2 f)
    if sum = 0 then .finite (s && t) 0 0 else round (decide (sum < 0)) sum.natAbs 1

/-- The difference, rounded once. -/
def sub (x y : Binary64) : Binary64 := add x y.neg

/-- The product, rounded once. -/
def mul : Binary64 → Binary64 → Binary64
  | .nan, _ => .nan
  | _, .nan => .nan
  | .infinite s, .infinite t => .infinite (s != t)
  | .infinite s, .finite t n _ => if n = 0 then .nan else .infinite (s != t)
  | .finite s m _, .infinite t => if m = 0 then .nan else .infinite (s != t)
  | .finite s m e, .finite t n f => round (s != t) (m * Nat.pow 2 e * (n * Nat.pow 2 f)) one

/-- The quotient, rounded once. -/
def div : Binary64 → Binary64 → Binary64
  | .nan, _ => .nan
  | _, .nan => .nan
  | .infinite _, .infinite _ => .nan
  | .infinite s, .finite t _ _ => .infinite (s != t)
  | .finite s _ _, .infinite t => .finite (s != t) 0 0
  | .finite s m e, .finite t n f =>
    if n = 0 then
      if m = 0 then .nan else .infinite (s != t)
    else round (s != t) (m * Nat.pow 2 e * one) (n * Nat.pow 2 f)

instance : Neg Binary64 := ⟨neg⟩
instance : Add Binary64 := ⟨add⟩
instance : Sub Binary64 := ⟨sub⟩
instance : Mul Binary64 := ⟨mul⟩
instance : Div Binary64 := ⟨div⟩

/-- The least whole number not below a number, kept between zero and `limit`; zero for NaN. -/
def ceilWithin (limit : Nat) : Binary64 → Nat
  | .nan => 0
  | .infinite negative => if negative then 0 else limit
  | .finite negative mantissa exponent =>
    if negative then 0 else Nat.min limit (ceilDiv (mantissa * Nat.pow 2 exponent) one)

end Binary64

end LoadBench
