/-
  LoadBench.Lines.Reader

  Items from a stream, one for each line that is not blank.  A line is counted
  when it has been taken from the stream, also a blank one; its line feed and the
  carriage returns in front of it do not belong to the item.  A line beyond the
  length limit is refused, and the rest of it is taken for a line of its own.
-/

import LoadBench.Fault
import LoadBench.Lines.Source

namespace LoadBench

/-- A stream of which lines are taken. -/
structure LineReader where
  source : Source
  /-- How many lines have been taken, blank ones included. -/
  lineNumber : Nat
  /-- How many bytes an item has at most. -/
  limit : UInt64
  deriving Repr

/-- Why a stream gives no item. -/
inductive LineFault where
  | unreadable (message : String)
  /-- No end of the line within the limit. -/
  | endless (line limit : Nat)
  /-- The item has more bytes than the limit. -/
  | tooLong (line bytes limit : Nat)
  deriving DecidableEq, Repr

/-- A stream that gives no item, as a fault. -/
def LineFault.fault : LineFault → Fault
  | .unreadable message => ⟨.io, message⟩
  | .endless line limit =>
    ⟨.decode, "line " ++ Nat.repr line ++ " is longer than the " ++ Nat.repr limit ++
      " byte limit"⟩
  | .tooLong line bytes limit =>
    ⟨.decode, "line " ++ Nat.repr line ++ " is " ++ Nat.repr bytes ++ " bytes, longer than the " ++
      Nat.repr limit ++ " byte limit"⟩

namespace LineReader

/-- The limit where none is chosen. -/
def standardLimit : UInt64 := 67108864

/-- A reader at the start of a stream. -/
def start (source : Source) (limit : UInt64) : LineReader := ⟨source, 0, limit⟩

/-- How many bytes are taken for one line at most: the longest item and its line end. -/
def budget (limit : UInt64) : Nat := limit.toNat + 2

/-- Whether 64 bits hold the number of bytes taken for one line at most. Whoever reads a line under
a greater limit panics. -/
def isReadable (limit : UInt64) : Bool := budget limit < UInt64.size

/-- Whether a byte belongs to the end of a line. -/
def isLineEnd (byte : UInt8) : Bool := byte = 10 || byte = 13

/-- A line without the line feeds and carriage returns at its end. -/
def stripEnd (line : List UInt8) : List UInt8 := (line.reverse.dropWhile isLineEnd).reverse

/-- What a taken line is: an item, nothing, or a fault. -/
def judge (limit : UInt64) (lineNumber : Nat) (line : List UInt8) :
    Except LineFault (Option (List UInt8)) :=
  -- The budget has run out before the line did.
  if line.length = budget limit ∧ line.getLast? ≠ some Source.lineFeed then
    .error (.endless lineNumber limit.toNat)
  else
    let item := stripEnd line
    if item.isEmpty then .ok none
    else if limit.toNat < item.length then .error (.tooLong lineNumber item.length limit.toNat)
    else .ok (some item)

/-- The next item, none at the end of the stream. -/
def next (reader : LineReader) : LineReader × Except LineFault (Option (List UInt8)) :=
  match h : Source.readLine (budget reader.limit) reader.source with
  | .failed message rest => ({ reader with source := rest }, .error (.unreadable message))
  | .taken line rest =>
    if hline : line = [] then ({ reader with source := rest }, .ok none)
    else
      have _shorter := Source.size_lt_of_readLine h hline
      let behind : LineReader :=
        { reader with source := rest, lineNumber := reader.lineNumber + 1 }
      match judge reader.limit behind.lineNumber line with
      | .error fault => (behind, .error fault)
      | .ok (some item) => (behind, .ok (some item))
      | .ok none => next behind
  termination_by Source.size reader.source

end LineReader

end LoadBench
