/-
  LoadBench.Text.Quoted

  Text between quotation marks, as error messages show what they complain
  about.  Quotation marks and backslashes are marked by a backslash, the four
  common controls have letters, and every other character that cannot be shown
  stands as its number in braces.
-/

import LoadBench.Text.Unprintable

namespace LoadBench.Text

/-- A character by its number: `\u` and the lower-case hexadecimal digits in braces. -/
def numbered (c : Char) : List Char :=
  ['\\', 'u', '\x7b'] ++ Nat.toDigits 16 c.toNat ++ ['\x7d']

/-- One character as it stands inside quotation marks. -/
def quotedChar (c : Char) : List Char :=
  if c = '"' then ['\\', '"']
  else if c = '\\' then ['\\', '\\']
  else if c = '\n' then ['\\', 'n']
  else if c = '\r' then ['\\', 'r']
  else if c = '\t' then ['\\', 't']
  else if c.toNat = 0 then ['\\', '0']
  else if isUnprintable c then numbered c
  else [c]

/-- A text between quotation marks. -/
def quoted (text : List Char) : String :=
  String.ofList ('"' :: text.flatMap quotedChar ++ ['"'])

end LoadBench.Text
