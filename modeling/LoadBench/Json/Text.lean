/-
  LoadBench.Json.Text

  JSON text values.  `escape` writes the characters between the quotation
  marks; `scan?` finds the end of a text and checks its form; `unescape?` gives
  the characters it stands for, and refuses one half of a surrogate pair
  without the other.
-/

namespace LoadBench.Json.Text

/-! ## Writing -/

/-- A number in four hexadecimal digits. -/
def hex4 (n : Nat) : List Char :=
  let digits := Nat.toDigits 16 n
  List.replicate (4 - digits.length) '0' ++ digits

/-- One character between quotation marks. -/
def escapeChar (c : Char) : List Char :=
  if c = '"' then ['\\', '"']
  else if c = '\\' then ['\\', '\\']
  else if c.toNat = 8 then ['\\', 'b']
  else if c = '\t' then ['\\', 't']
  else if c = '\n' then ['\\', 'n']
  else if c.toNat = 12 then ['\\', 'f']
  else if c = '\r' then ['\\', 'r']
  else if c.toNat < 32 then '\\' :: 'u' :: hex4 c.toNat
  else [c]

/-- The characters between quotation marks. -/
def escape (text : List Char) : List Char := text.flatMap escapeChar

/-- A text with its quotation marks. -/
def write (text : String) : List Char := '"' :: escape text.toList ++ ['"']

/-! ## Reading -/

/-- The value of a hexadecimal digit. -/
def hexValue? (c : Char) : Option Nat :=
  if '0' ≤ c ∧ c ≤ '9' then some (c.toNat - 48)
  else if 'a' ≤ c ∧ c ≤ 'f' then some (c.toNat - 87)
  else if 'A' ≤ c ∧ c ≤ 'F' then some (c.toNat - 55)
  else none

/-- The number in four hexadecimal digits. -/
def hexValue4? (a b c d : Char) : Option Nat := do
  return (((← hexValue? a) * 16 + (← hexValue? b)) * 16 + (← hexValue? c)) * 16 + (← hexValue? d)

/-- The character a letter behind a backslash stands for. -/
def letter? (c : Char) : Option Char :=
  if c = '"' || c = '\\' || c = '/' then some c
  else if c = 'b' then some (Char.ofNat 8)
  else if c = 'f' then some (Char.ofNat 12)
  else if c = 'n' then some '\n'
  else if c = 'r' then some '\r'
  else if c = 't' then some '\t'
  else none

/-- The characters up to the closing quotation mark, as they are written, and what follows it. -/
def scan? : List Char → Option (List Char × List Char)
  | [] => none
  | '"' :: rest => some ([], rest)
  | '\\' :: 'u' :: a :: b :: c :: d :: rest =>
    if (hexValue4? a b c d).isNone then none
    else (scan? rest).map fun found => ('\\' :: 'u' :: a :: b :: c :: d :: found.1, found.2)
  | '\\' :: c :: rest =>
    if (letter? c).isNone then none
    else (scan? rest).map fun found => ('\\' :: c :: found.1, found.2)
  | c :: rest =>
    if c.toNat < 32 || c = '\\' then none
    else (scan? rest).map fun found => (c :: found.1, found.2)

/-- Whether a number is the first half of a surrogate pair. -/
def isHigh (n : Nat) : Bool := 0xD800 ≤ n && n < 0xDC00

/-- Whether a number is the second half of a surrogate pair. -/
def isLow (n : Nat) : Bool := 0xDC00 ≤ n && n < 0xE000

/-- The characters a written text stands for. -/
def unescape? : List Char → Option (List Char)
  | [] => some []
  | '\\' :: 'u' :: a :: b :: c :: d :: rest =>
    match hexValue4? a b c d with
    | none => none
    | some n =>
      if isLow n then none
      else if isHigh n then
        match rest with
        | '\\' :: 'u' :: a :: b :: c :: d :: rest =>
          match hexValue4? a b c d with
          | none => none
          | some m =>
            if isLow m then
              (unescape? rest).map (Char.ofNat (0x10000 + (n - 0xD800) * 1024 + (m - 0xDC00)) :: ·)
            else none
        | _ => none
      else (unescape? rest).map (Char.ofNat n :: ·)
  | '\\' :: c :: rest =>
    match letter? c with
    | none => none
    | some plain => (unescape? rest).map (plain :: ·)
  | c :: rest => (unescape? rest).map (c :: ·)

/-- The string a written text stands for. -/
def string? (raw : List Char) : Option String := (unescape? raw).map String.ofList

end LoadBench.Json.Text
