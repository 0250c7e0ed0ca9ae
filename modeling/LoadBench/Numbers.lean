/-
  LoadBench.Numbers

  A workload without a system under load.  Its input is a text of whole
  numbers, and each number is measured as if it had been a command: it takes as
  many microseconds and sends as many bytes as it says.  Chosen numbers and
  workers fail, so that the way a run ends can be tried out.
-/

import LoadBench.Decimal.Integer
import LoadBench.Run
import LoadBench.Text.Blank

namespace LoadBench

/-! ## The input -/

/-- An input of words that stand for numbers. -/
structure NumberInput where
  words : List (List Char)
  /-- How many bytes are read ahead at most. -/
  buffer : Nat
  /-- The words from the start, where they can be had again. -/
  reopened : Option (List (List Char))
  deriving DecidableEq, Repr

namespace NumberInput

/-- A text that is read once. -/
def ofText (text : List Char) : NumberInput := ⟨Text.words text, 0, none⟩

/-- The text of a file. It is read as a whole, past its buffer. -/
def ofFile (text : List Char) (buffer : Nat) : NumberInput :=
  ⟨Text.words text, buffer, some (Text.words text)⟩

/-- A word that is no number, as a fault. -/
def wordFault (word : List Char) : Fault := ⟨.decode, "not a number: " ++ String.ofList word⟩

/-- The next number. -/
def next (input : NumberInput) : NumberInput × Reading Nat :=
  match input.words with
  | [] => (input, .ended)
  | word :: rest =>
    ({ input with words := rest },
      match Decimal.word? word with
      | some number => .item number.toNat
      | none => .unreadable (wordFault word))

/-- The words from the start; whether they can be had again. -/
def again (input : NumberInput) : NumberInput × Except Fault Bool :=
  match input.reopened with
  | some words => ({ input with words }, .ok true)
  | none => (input, .ok false)

end NumberInput

/-! ## The work -/

/-- Which numbers and which worker fail. -/
structure NumberRules where
  /-- The number that is rejected. -/
  rejected : Option Nat
  /-- The number that makes its worker panic. -/
  panicking : Option Nat
  /-- The worker that cannot be prepared. -/
  refusing : Option Nat
  deriving DecidableEq, Repr

/-- The numbers of a batch, and the label they are measured under. -/
structure NumberJob where
  label : String
  numbers : List Nat
  deriving DecidableEq, Repr

namespace NumberRules

/-- What one number measures. -/
def sample (label : String) (number : Nat) : Sample :=
  { Sample.plain label "Q" 7 (UInt64.ofNat number) with
    received := 2
    sent := UInt64.ofNat number }

/-- Measures numbers, behind what has been measured already. -/
def measure (rules : NumberRules) (label : String) :
    Measurements → List Nat → Progress NumberJob
  | measured, [] => .done measured
  | measured, number :: rest =>
    if rules.panicking = some number then .panicked
    else if rules.rejected = some number then
      .failed ⟨.execution, "item " ++ Nat.repr number ++ " rejected"⟩
    else measure rules label (measured.add (sample label number)) rest

/-- Measures batches of numbers. The posts at which workers were prepared are noted, the last one
first. -/
def handler (rules : NumberRules) : Handler Nat Unit NumberJob (List Post) where
  idle := ()
  prepare _ post posts :=
    (post :: posts, (),
      if rules.refusing = some post.worker then
        some ⟨.setup, "worker " ++ Nat.repr post.worker ++ " refused"⟩
      else none)
  start _ batch _ limited := ⟨(if limited then Label.read else Label.write).name, batch.items⟩
  step _ job surroundings :=
    (surroundings, rules.measure job.label Measurements.empty job.numbers)
  finish _ posts := (posts, ())

/-- Numbers are measured, each going to the queue that a routing chooses. -/
def workload (rules : NumberRules) (routing : Nat → Routing Nat) :
    Workload Nat Unit NumberJob (List Post) NumberInput where
  room := 0
  buffer := NumberInput.buffer
  routing := routing
  handler := rules.handler
  next := NumberInput.next
  again := NumberInput.again
  configuration := Table.empty

end NumberRules

end LoadBench
