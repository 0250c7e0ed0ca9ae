/-
  LoadBench.Decimal.Integer

  Whole numbers as a user types them: an optional plus sign and at least one
  digit, within a limit.
-/

namespace LoadBench.Decimal

/-- The whole number a text of digits names; an empty text names none. -/
def natural? (text : List Char) : Option Nat :=
  if text.isEmpty || !text.all Char.isDigit then none else some (Nat.ofDigitChars 10 text 0)

/-- The whole number below `2 ^ 64` that a text names; a leading plus sign is allowed. -/
def word? (text : List Char) : Option UInt64 :=
  let body := match text with
    | '+' :: rest => rest
    | _ => text
  match natural? body with
  | none => none
  | some n => if n < UInt64.size then some (UInt64.ofNat n) else none

end LoadBench.Decimal
