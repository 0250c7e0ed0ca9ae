/-
  LoadBench.Json.Value

  JSON values by what they mean, and their two written forms: on one line, or
  over several lines with two blanks for each level.  A double is written with
  the fewest digits that name it, in place notation from 10⁻⁵ up to below 10¹⁶ and
  with an exponent otherwise; one that is not finite is written `null`.
-/

import LoadBench.Decimal.Fixed
import LoadBench.Decimal.Shortest
import LoadBench.Json.Tree
import LoadBench.Table

namespace LoadBench.Json

/-- A JSON value. -/
inductive Value where
  | null
  | bool (value : Bool)
  | integer (value : Int)
  | double (value : Binary64)
  | text (value : String)
  | list (items : List Value)
  | object (fields : List (String × Value))
  deriving Repr

namespace Value

instance : Inhabited Value := ⟨.null⟩

/-- A whole number as a value. -/
def natural (n : UInt64) : Value := .integer n.toNat

/-! ## Numbers -/

/-- A whole number. -/
def writeInteger (n : Int) : List Char :=
  (if n < 0 then ['-'] else []) ++ Decimal.natural n.natAbs

/-- `digits * 10 ^ power` with its point in place. -/
def placed (digits : List Char) (power : Int) : List Char :=
  if 0 ≤ power then digits ++ List.replicate power.toNat '0' ++ ['.', '0']
  else
    let places := (-power).toNat
    let padded := Decimal.padLeft (places + 1) '0' digits
    padded.take (padded.length - places) ++ '.' :: padded.drop (padded.length - places)

/-- A number with one digit before the point and its exponent. -/
def scientific (digits : List Char) (exponent : Int) : List Char :=
  let mantissa := match digits with
    | [] => []
    | [digit] => [digit]
    | digit :: rest => digit :: '.' :: rest
  mantissa ++ 'e' :: (if exponent < 0 then '-' else '+') :: Decimal.natural exponent.natAbs

/-- A double. -/
def writeDouble : Binary64 → List Char
  | .nan => ['n', 'u', 'l', 'l']
  | .infinite _ => ['n', 'u', 'l', 'l']
  | .finite negative mantissa exponent =>
    let sign := if negative then ['-'] else []
    if mantissa = 0 then sign ++ ['0', '.', '0']
    else
      let shortest := Decimal.shortest mantissa exponent
      let digits := Decimal.natural shortest.digits
      let leading := shortest.exponent + (digits.length : Int) - 1
      sign ++
        if -5 ≤ leading ∧ leading ≤ 15 then placed digits shortest.exponent
        else scientific digits leading

/-! ## Written forms -/

mutual

/-- A value on one line. -/
def compact : Value → List Char
  | .null => ['n', 'u', 'l', 'l']
  | .bool value => if value then ['t', 'r', 'u', 'e'] else ['f', 'a', 'l', 's', 'e']
  | .integer value => writeInteger value
  | .double value => writeDouble value
  | .text value => Text.write value
  | .list items => '[' :: compactItems items ++ [']']
  | .object fields => '\x7b' :: compactFields fields ++ ['\x7d']

/-- The items of a list on one line. -/
def compactItems : List Value → List Char
  | [] => []
  | item :: rest => compact item ++ (if rest.isEmpty then [] else [',']) ++ compactItems rest

/-- The fields of an object on one line. -/
def compactFields : List (String × Value) → List Char
  | [] => []
  | (key, value) :: rest =>
    Text.write key ++ ':' :: compact value ++ (if rest.isEmpty then [] else [',']) ++
      compactFields rest

end

/-- The start of a line at a level. -/
def newLine (level : Nat) : List Char := '\n' :: List.replicate (2 * level) ' '

mutual

/-- A value over several lines. -/
def pretty (level : Nat) : Value → List Char
  | .null => ['n', 'u', 'l', 'l']
  | .bool value => if value then ['t', 'r', 'u', 'e'] else ['f', 'a', 'l', 's', 'e']
  | .integer value => writeInteger value
  | .double value => writeDouble value
  | .text value => Text.write value
  | .list items =>
    if items.isEmpty then ['[', ']']
    else '[' :: prettyItems (level + 1) items ++ newLine level ++ [']']
  | .object fields =>
    if fields.isEmpty then ['\x7b', '\x7d']
    else '\x7b' :: prettyFields (level + 1) fields ++ newLine level ++ ['\x7d']

/-- The items of a list, each on a line of its own. -/
def prettyItems (level : Nat) : List Value → List Char
  | [] => []
  | item :: rest =>
    newLine level ++ pretty level item ++ (if rest.isEmpty then [] else [',']) ++
      prettyItems level rest

/-- The fields of an object, each on a line of its own. -/
def prettyFields (level : Nat) : List (String × Value) → List Char
  | [] => []
  | (key, value) :: rest =>
    newLine level ++ Text.write key ++ ':' :: ' ' :: pretty level value ++
      (if rest.isEmpty then [] else [',']) ++ prettyFields level rest

end

/-! ## Meaning of a written value -/

/-- What a number means: a whole number if it is written as one that 64 bits hold, else a double. -/
def ofNumber? (number : Number) : Option Value :=
  match number.integer? with
  | some n => some (.integer n)
  | none => number.double?.map .double

mutual

/-- What a written value means: numbers lie in range, texts are whole, the fields of an object are
in order and the last of several with one name stays. -/
def ofTree? : Tree → Option Value
  | .null => some .null
  | .bool value => some (.bool value)
  | .number number => ofNumber? number
  | .text raw => (Text.string? raw).map .text
  | .list items => (ofTrees? items).map .list
  | .object fields => (ofFields? fields).map fun fields => .object (Table.ofList fields).entries

/-- What the items of a list mean. -/
def ofTrees? : List Tree → Option (List Value)
  | [] => some []
  | item :: rest =>
    match ofTree? item, ofTrees? rest with
    | some item, some rest => some (item :: rest)
    | _, _ => none

/-- What the fields of an object mean, in the order in which they are written. -/
def ofFields? : List (List Char × Tree) → Option (List (String × Value))
  | [] => some []
  | (raw, value) :: rest =>
    match Text.string? raw, ofTree? value, ofFields? rest with
    | some key, some value, some rest => some ((key, value) :: rest)
    | _, _, _ => none

end

end Value

end LoadBench.Json
