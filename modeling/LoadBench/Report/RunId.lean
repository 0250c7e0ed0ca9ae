/-
  LoadBench.Report.RunId

  The text of a report's identity: 32 hexadecimal digits with hyphens behind the
  8th, 12th, 16th and 20th.  It is read with or without the hyphens; with them it
  may stand in braces or behind `urn:uuid:`.  Upper and lower case are the same.
-/

import LoadBench.Json.Text
import LoadBench.Report

namespace LoadBench.RunId

/-- The lengths of the groups between the hyphens. -/
def groups : List Nat := [8, 4, 4, 4, 12]

/-- Digits cut into groups with hyphens between them. -/
def hyphenate : List Nat → List Char → List Char
  | [], _ => []
  | [length], digits => digits.take length
  | length :: others, digits =>
    digits.take length ++ '-' :: hyphenate others (digits.drop length)

/-- The text of an identity. -/
def text (id : RunId) : String :=
  String.ofList (hyphenate groups (Decimal.padLeft 32 '0' (Nat.toDigits 16 id.bits.toNat)))

/-- The digits of a text cut into groups with hyphens between them. -/
def dehyphenate? : List Nat → List Char → Option (List Char)
  | [], rest => if rest.isEmpty then some [] else none
  | [length], rest => if rest.length = length then some rest else none
  | length :: others, rest =>
    match rest.drop length with
    | '-' :: more => (dehyphenate? others more).map fun digits => rest.take length ++ digits
    | _ => none

/-- The identity of 32 hexadecimal digits. -/
def ofDigits? (digits : List Char) : Option RunId :=
  if digits.length = 32 then
    (digits.mapM Json.Text.hexValue?).map fun values =>
      ⟨BitVec.ofNat 128 (values.foldl (fun sum value => sum * 16 + value) 0)⟩
  else none

/-- The identity of a text with hyphens. -/
def ofHyphenated? (text : List Char) : Option RunId := (dehyphenate? groups text).bind ofDigits?

/-- The identity a text stands for. -/
def ofText? (text : List Char) : Option RunId :=
  match text.length with
  | 32 => ofDigits? text
  | 36 => ofHyphenated? text
  | 38 =>
    if text.head? = some '\x7b' ∧ text.getLast? = some '\x7d' then
      ofHyphenated? ((text.drop 1).take 36)
    else none
  | 45 =>
    if (text.take 9).map Char.toLower = "urn:uuid:".toList then ofHyphenated? (text.drop 9)
    else none
  | _ => none

end LoadBench.RunId
