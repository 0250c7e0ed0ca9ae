/-
  LoadBench.Settings.Flags

  Settings from command line flags.  A flag is `--name value` or `--name=value`,
  each flag at most once.  A value in an argument of its own is only looked at
  when the argument behind it has been found to be in place, so of two faults
  the later one may win: an unknown argument is reported before the bad value in
  front of it.
-/

import LoadBench.Settings.Options

namespace LoadBench

/-- A setting that can be given as a flag. -/
inductive Flag where
  | workers
  | limit
  | batchSize
  | loadEnabled
  | reportingPeriod
  | input
  | readBufferSize
  | maxRate
  | reportFile
  | metadata
  | queues
  | duration
  | burnIn
  deriving DecidableEq, Repr

namespace Flag

/-- The names of the flags; one flag has two. -/
def names : List (String × Flag) :=
  [("workers", .workers), ("requests", .limit), ("limit", .limit), ("batch-size", .batchSize),
    ("do-benchmark", .loadEnabled), ("reporting-period", .reportingPeriod), ("input", .input),
    ("read-buffer-size", .readBufferSize), ("max-rps", .maxRate), ("json-out-file", .reportFile),
    ("metadata-string", .metadata), ("work-queues", .queues), ("duration", .duration),
    ("burn-in", .burnIn)]

/-- The flag of a name. -/
def ofName? (name : List Char) : Option Flag :=
  (names.find? fun entry => entry.1.toList == name).map Prod.snd

end Flag

/-- Why flags are refused. -/
inductive FlagFault where
  /-- An argument that is neither a flag nor the value of one. -/
  | unknownArgument
  /-- A flag without a value, a word that is no truth value, or an empty path. -/
  | invalidValue
  /-- A value that does not denote a number, a length of time or a queue policy. -/
  | unreadableValue
  /-- A flag given twice. -/
  | repeated
  /-- A value for a flag that takes none. -/
  | surplusValue
  /-- The user asked how the program is used. -/
  | helpWanted
  /-- The program ends at once, because no span of time is as long as one that was given. -/
  | durationTooLong
  deriving DecidableEq, Repr

/-- The name a refusal is reported under. -/
def FlagFault.name : FlagFault → String
  | .unknownArgument => "UnknownArgument"
  | .invalidValue => "InvalidValue"
  | .unreadableValue => "ValueValidation"
  | .repeated => "ArgumentConflict"
  | .surplusValue => "TooManyValues"
  | .helpWanted => "DisplayHelp"
  | .durationTooLong => "DurationTooLong"

namespace Flags

/-! ## Values -/

/-- A truth value. -/
def truth (text : List Char) : Except FlagFault Bool :=
  if text = "true".toList then .ok true
  else if text = "false".toList then .ok false
  else .error .invalidValue

/-- A number. -/
def number (text : List Char) : Except FlagFault Nat :=
  match Decimal.word? text with
  | some n => .ok n.toNat
  | none => .error .unreadableValue

/-- A length of time. -/
def span (text : List Char) : Except FlagFault TimeSpan :=
  match TimeSpan.ofText text with
  | .ok span => .ok span
  | .error .tooLong => .error .durationTooLong
  | .error _ => .error .unreadableValue

/-- A path. -/
def path (text : List Char) : Except FlagFault String :=
  if text.isEmpty then .error .invalidValue else .ok (String.ofList text)

/-- A queue policy. -/
def policy (text : List Char) : Except FlagFault QueuePolicy :=
  match QueuePolicy.ofText text with
  | .ok policy => .ok policy
  | .error _ => .error .unreadableValue

/-- The settings with the value of one flag. -/
def set (settings : Settings) (flag : Flag) (text : List Char) : Except FlagFault Settings :=
  match flag with
  | .workers => (number text).map fun n => { settings with workers := n }
  | .limit => (number text).map fun n => { settings with limit := n }
  | .batchSize => (number text).map fun n => { settings with batchSize := n }
  | .loadEnabled => (truth text).map fun b => { settings with loadEnabled := b }
  | .reportingPeriod => (span text).map fun t => { settings with reportingPeriod := t }
  | .input => (path text).map fun p => { settings with input := some p }
  | .readBufferSize => (number text).map fun n => { settings with readBufferSize := n }
  | .maxRate => (number text).map fun n => { settings with maxRate := n }
  | .reportFile => (path text).map fun p => { settings with reportFile := some p }
  | .metadata => .ok { settings with metadata := String.ofList text }
  | .queues => (policy text).map fun p => { settings with queues := p }
  | .duration => (span text).map fun t => { settings with duration := some t }
  | .burnIn => (number text).map fun n => { settings with burnIn := n }

/-! ## Arguments -/

/-- A flag whose value has not been looked at. -/
structure Pending where
  flag : Flag
  value : Option (List Char)
  deriving DecidableEq, Repr

/-- What has been made of the arguments so far. -/
structure State where
  settings : Settings
  /-- The flags whose values have been taken. -/
  given : List Flag
  pending : Option Pending
  /-- Whether a bare `--` has been seen, behind which nothing is a flag. -/
  closed : Bool
  deriving DecidableEq, Repr

/-- Takes the value of a flag: it must have one, must not have been given before, and must be
readable, in this order. -/
def State.take (state : State) (flag : Flag) (value : Option (List Char)) :
    Except FlagFault State :=
  match value with
  | none => .error .invalidValue
  | some text =>
    if state.given.contains flag then .error .repeated
    else
      (set state.settings flag text).map fun settings =>
        -- A flag counts as given only once its value has been read.
        { state with settings := settings, given := flag :: state.given, pending := none }

/-- Takes the value that is still pending. -/
def State.settle (state : State) : Except FlagFault State :=
  match state.pending with
  | none => .ok state
  | some pending => State.take { state with pending := none } pending.flag pending.value

/-- Refuses an argument. The pending value is looked at before, and only its length can matter. -/
def State.refuse (state : State) (fault : FlagFault) : Except FlagFault State :=
  match state.settle with
  | .error .durationTooLong => .error .durationTooLong
  | _ => .error fault

/-- Asks for help, if all before is in order. -/
def State.help (state : State) : Except FlagFault State :=
  match state.settle with
  | .error fault => .error fault
  | .ok _ => .error .helpWanted

/-- An argument that starts with two hyphens, cut at its first equals sign. -/
def State.long (state : State) (name : List Char) (value : Option (List Char)) :
    Except FlagFault State :=
  match Flag.ofName? name with
  | some flag =>
    match state.settle with
    | .error fault => .error fault
    | .ok state =>
      match value with
      | some text => state.take flag (some text)
      | none => .ok { state with pending := some ⟨flag, none⟩ }
  | none =>
    if name = "help".toList then
      match value with
      | some _ => state.refuse .surplusValue
      | none => state.help
    else state.refuse .unknownArgument

/-- An argument that is no flag: the value of the flag before it, or out of place. -/
def State.plain (state : State) (text : List Char) : Except FlagFault State :=
  match state.pending with
  | some ⟨flag, none⟩ => .ok { state with pending := some ⟨flag, some text⟩ }
  | _ => state.refuse .unknownArgument

/-- The part before the first equals sign, and the part behind it if there is one. -/
def cut (text : List Char) : List Char × Option (List Char) :=
  match text.dropWhile (· != '=') with
  | '=' :: value => (text.takeWhile (· != '='), some value)
  | _ => (text, none)

/-- One argument. -/
def State.argument (state : State) (argument : List Char) : Except FlagFault State :=
  if state.closed then state.refuse .unknownArgument
  else
    match argument with
    | ['-', '-'] => .ok { state with closed := true }
    | '-' :: '-' :: body => state.long (cut body).1 (cut body).2
    | ['-'] => state.plain argument
    | '-' :: 'h' :: _ => state.help
    | '-' :: _ => state.refuse .unknownArgument
    | _ => state.plain argument

/-- All arguments, one after another. -/
def State.arguments (state : State) : List (List Char) → Except FlagFault State
  | [] => state.settle
  | argument :: rest =>
    match state.argument argument with
    | .error fault => .error fault
    | .ok state => state.arguments rest

/-- Settings from flags, and whether the number of workers was among them. -/
def settings (workers : Nat) (arguments : List String) : Except FlagFault (Settings × Bool) :=
  (State.arguments ⟨Settings.standard workers, [], none, false⟩ (arguments.map String.toList)).map
    fun state => (state.settings, state.given.contains .workers)

end Flags

end LoadBench
