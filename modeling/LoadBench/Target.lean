/-
  LoadBench.Target

  The system under load, as its users see it.  Each worker opens a connection of
  its own and issues calls on it: a command is executed, or the next page of the
  results of a command is read.
-/

import LoadBench.Fault
import LoadBench.Row.Command

namespace LoadBench

/-- What is asked of the system under load. -/
inductive Call where
  | execute (command : Command)
  /-- The page of the results of a command that a cursor stands for. -/
  | readCursor (command : Command) (cursor : UInt64)
  deriving DecidableEq, Repr

namespace Call

/-- The command a call belongs to. -/
def command : Call → Command
  | .execute command => command
  | .readCursor command _ => command

/-- A call as it is listed. -/
def display : Call → String
  | .execute command => command.display
  | .readCursor command cursor =>
    "cursor " ++ Nat.repr cursor.toNat ++ " of " ++ command.name

end Call

/-- What the system under load answers. -/
structure Response where
  /-- How many bytes were received. -/
  received : UInt64
  /-- Whether the system gave up. -/
  timedOut : Bool
  /-- A cursor for more results. -/
  cursor : Option UInt64
  deriving DecidableEq, Repr

namespace Response

/-- A response without anything in it. -/
def empty : Response := ⟨0, false, none⟩

/-- The cursor of the next page. Cursor zero means that there is none. -/
def next? (response : Response) : Option UInt64 := response.cursor.filter (· ≠ 0)

end Response

/-- What comes of a call. -/
inductive CallOutcome where
  | answered (response : Response)
  | failed (fault : Fault)
  /-- The worker that made the call is gone. -/
  | panicked
  deriving DecidableEq, Repr

/-- A system under load, with what it remembers as `ω`. Each worker has a number. -/
structure Target (ω : Type) where
  /-- Opens the connection of a worker, or says why not. -/
  connect : Nat → ω → ω × Option Fault
  /-- A call on the connection of a worker. -/
  call : Nat → Call → ω → ω × CallOutcome
  /-- Closes the connection of a worker. -/
  close : Nat → ω → ω

end LoadBench
