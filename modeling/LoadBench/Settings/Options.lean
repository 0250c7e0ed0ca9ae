/-
  LoadBench.Settings.Options

  The texts a user gives for settings: lengths of time and queue policies.

  A length of time is a number with a unit behind it, `ms`, `s`, `m` or `h`;
  seconds are meant where no unit stands.  The number is read as a double, and
  the length is the one nearest to it.
-/

import LoadBench.Decimal.Integer
import LoadBench.Decimal.Numeral
import LoadBench.Settings
import LoadBench.Text.Blank
import LoadBench.Text.Quoted

namespace LoadBench

/-! ## Lengths of time -/

/-- Why a text is no length of time. -/
inductive DurationFault where
  /-- The text does not start with a number that is at least zero. -/
  | invalid (text : List Char)
  | unknownUnit (unit text : List Char)
  /-- No span of time is that long: reading such a text ends the program at once. -/
  | tooLong
  deriving DecidableEq, Repr

/-- What a user is told about a text that is no length of time. -/
def DurationFault.message : DurationFault → String
  | .invalid text => "invalid duration: " ++ Text.quoted text
  | .unknownUnit unit text =>
    "unknown duration unit " ++ Text.quoted unit ++ " in " ++ Text.quoted text
  | .tooLong => "duration too long"

/-- Whether a character can start a unit. -/
def isLetter (c : Char) : Bool := ('a' ≤ c && c ≤ 'z') || ('A' ≤ c && c ≤ 'Z')

/-- A number and the unit behind it; seconds if there is none. -/
def splitUnit (text : List Char) : List Char × List Char :=
  match text.dropWhile fun c => !isLetter c with
  | [] => (text, ['s'])
  | unit => (text.takeWhile fun c => !isLetter c, unit)

/-- A number in a unit as a number of seconds. -/
def inSeconds? (value : Binary64) (unit : List Char) : Option Binary64 :=
  if unit = ['m', 's'] then some (value / Binary64.ofNat 1000)
  else if unit = ['s'] then some value
  else if unit = ['m'] then some (value * Binary64.ofNat 60)
  else if unit = ['h'] then some (value * Binary64.ofNat 3600)
  else none

/-- Reads a length of time. -/
def TimeSpan.ofText (text : List Char) : Except DurationFault TimeSpan :=
  let text := Text.trim text
  let (number, unit) := splitUnit text
  match Decimal.number? (Text.trim number) with
  | none => .error (.invalid text)
  | some value =>
    if !value.isFinite || Binary64.lt value Binary64.zero then .error (.invalid text)
    else
      match inSeconds? value unit with
      | none => .error (.unknownUnit unit text)
      | some seconds =>
        match TimeSpan.ofSeconds? seconds with
        | none => .error .tooLong
        | some span => .ok span

/-! ## Queue policies -/

/-- A text that is no queue policy. -/
structure QueuePolicyFault where
  text : List Char
  deriving DecidableEq, Repr

/-- What a user is told about a text that is no queue policy. -/
def QueuePolicyFault.message (fault : QueuePolicyFault) : String :=
  "invalid work queue setting: " ++ Text.quoted fault.text

/-- Reads a queue policy: a word or a number of queues. One queue is a shared one, and no queue
stands for one for each worker. -/
def QueuePolicy.ofText (text : List Char) : Except QueuePolicyFault QueuePolicy :=
  if text = "shared".toList ∨ text = ['1'] then .ok .shared
  else if text = "per-worker".toList ∨ text = ['0'] then .ok .perWorker
  else
    match Decimal.word? text with
    | some queues => .ok (.count queues.toNat)
    | none => .error ⟨text⟩

end LoadBench
