/-
  LoadBench.Lines.Workload

  Playing the lines of an input on a system under load.
-/

import LoadBench.Lines.Reader
import LoadBench.Row.Playback
import LoadBench.Run
import LoadBench.Storage

namespace LoadBench

/-- An input of lines. -/
structure LineInput where
  reader : LineReader
  /-- How many bytes are read ahead at most. -/
  buffer : Nat
  /-- The stream from its start, where it can be had again. -/
  reopened : Option (Except Fault Source)
  deriving Repr

namespace LineInput

/-- Bytes that are read once. -/
def ofBytes (bytes : List UInt8) (limit : UInt64) : LineInput :=
  ⟨LineReader.start [.bytes bytes] limit, 0, none⟩

/-- A stream that can be had again, read through a buffer. -/
def ofSource (source : Source) (buffer : Nat) (limit : UInt64) : LineInput :=
  let source := source.through buffer
  ⟨LineReader.start source limit, buffer, some (.ok source)⟩

/-- The bytes of a file, read through a buffer. -/
def ofFile (bytes : List UInt8) (buffer : Nat) (limit : UInt64) : LineInput :=
  ofSource [.bytes bytes] buffer limit

/-- A file that cannot be opened, as a fault. -/
def openFault (path : String) (fault : StorageFault) : Fault :=
  ⟨.io, "cannot open " ++ path ++ ": " ++ fault.message⟩

/-- The file at a path, read through a buffer. -/
def ofPath (path : String) (buffer : Nat) (limit : UInt64) : Except Fault LineInput :=
  match Storage.open? path with
  | .error fault => .error (openFault path fault)
  | .ok source => .ok (ofSource source buffer limit)

/-- The next line. -/
def next (input : LineInput) : LineInput × Reading (List UInt8) :=
  if LineReader.isReadable input.reader.limit then
    match input.reader.next with
    | (reader, .ok (some line)) => ({ input with reader }, .item line)
    | (reader, .ok none) => ({ input with reader }, .ended)
    | (reader, .error fault) => ({ input with reader }, .unreadable fault.fault)
  else (input, .panicked)

/-- The input from its start; whether it can be had again. -/
def again (input : LineInput) : LineInput × Except Fault Bool :=
  match input.reopened with
  | none => (input, .ok false)
  | some (.error fault) => (input, .error fault)
  | some (.ok source) =>
    ({ input with reader := LineReader.start source input.reader.limit }, .ok true)

/-- How many lines one pass gives at most: no more than there are bytes and pieces. -/
def lines (input : LineInput) : Nat :=
  Nat.max (Source.size input.reader.source)
    (match input.reopened with
    | some (.ok source) => Source.size source
    | _ => 0)

end LineInput

/-- The lines of an input are played on a system under load, the queues taking turns. -/
def lineWorkload {ω : Type} (target : Target ω) (lenient : Bool) (room : Nat)
    (configuration : Table String Json.Value) :
    Workload (List UInt8) Seat Playback ω LineInput where
  room := room
  buffer := LineInput.buffer
  routing := Routing.inTurn
  handler := Row.handler target lenient
  next := LineInput.next
  again := LineInput.again
  configuration := configuration.insert "continueOnError" (.bool lenient)

end LoadBench
