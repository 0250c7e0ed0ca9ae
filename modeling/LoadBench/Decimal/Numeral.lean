/-
  LoadBench.Decimal.Numeral

  Decimal numerals as a user types them: an optional sign, then digits with at
  most one point among them and at least one digit.  The value is the double
  nearest to the numeral, however many digits it has.
-/

import LoadBench.Binary64

namespace LoadBench.Decimal

/-- A numeral split at its sign and its point. -/
structure Numeral where
  negative : Bool
  whole : List Char
  fraction : List Char
  deriving DecidableEq, Repr

namespace Numeral

/-- The sign of a text and what follows it. -/
def splitSign : List Char → Bool × List Char
  | '-' :: rest => (true, rest)
  | '+' :: rest => (false, rest)
  | text => (false, text)

/-- The digits after a point, if there is one and nothing else follows. -/
def fractionOf? : List Char → Option (List Char)
  | [] => some []
  | '.' :: rest => if rest.all Char.isDigit then some rest else none
  | _ => none

/-- Reads a numeral; refuses a text with anything else in it or without a digit. -/
def ofText? (text : List Char) : Option Numeral :=
  let (negative, body) := splitSign text
  let whole := body.takeWhile Char.isDigit
  match fractionOf? (body.dropWhile Char.isDigit) with
  | none => none
  | some fraction => if whole ++ fraction = [] then none else some ⟨negative, whole, fraction⟩

/-- The double nearest to a numeral. -/
def value (numeral : Numeral) : Binary64 :=
  Binary64.round numeral.negative
    (Nat.ofDigitChars 10 (numeral.whole ++ numeral.fraction) 0 * Binary64.one)
    (Nat.pow 10 numeral.fraction.length)

end Numeral

/-- The double a numeral names. -/
def number? (text : List Char) : Option Binary64 := (Numeral.ofText? text).map Numeral.value

end LoadBench.Decimal
