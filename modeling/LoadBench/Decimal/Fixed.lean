/-
  LoadBench.Decimal.Fixed

  Numbers with a fixed number of decimal places.  The exact value of the double
  is rounded once, a tie going to the even last digit, so the text never shows
  an error of its own.  A negative zero keeps its sign.
-/

import LoadBench.Binary64

namespace LoadBench.Decimal

/-- A text brought to a width by characters before it. -/
def padLeft (width : Nat) (fill : Char) (text : List Char) : List Char :=
  List.replicate (width - text.length) fill ++ text

/-- A text brought to a width by blanks behind it. -/
def padRight (width : Nat) (text : List Char) : List Char :=
  text ++ List.replicate (width - text.length) ' '

/-- A whole number in decimal digits. -/
def natural (n : Nat) : List Char := Nat.toDigits 10 n

/-- `scaled / 10 ^ places`, written with exactly that many places. -/
def point (places scaled : Nat) : List Char :=
  if places = 0 then natural scaled
  else
    natural (scaled / Nat.pow 10 places) ++
      '.' :: padLeft places '0' (natural (scaled % Nat.pow 10 places))

/-- A number with a fixed number of places. -/
def fixed (places : Nat) : Binary64 → List Char
  | .nan => ['N', 'a', 'N']
  | .infinite negative => (if negative then ['-'] else []) ++ ['i', 'n', 'f']
  | .finite negative mantissa exponent =>
    (if negative then ['-'] else []) ++
      point places (nearestEven (mantissa * Nat.pow 2 exponent * Nat.pow 10 places) Binary64.one)

end LoadBench.Decimal
