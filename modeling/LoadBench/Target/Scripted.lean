/-
  LoadBench.Target.Scripted

  A system under load that answers from tables: a command by its name, a page by
  its cursor.  It lists the calls made of it.
-/

import LoadBench.Table
import LoadBench.Target

namespace LoadBench

/-- The answers of a system under load. -/
structure ScriptedTarget where
  /-- What comes of commands with certain names. -/
  replies : Table String CallOutcome
  /-- What comes of all other commands. -/
  default : CallOutcome
  /-- What comes of reading certain cursors, the others giving an empty page; nothing if the system
  knows no cursors. Such a system does not care about being closed either. -/
  pages : Option (Table UInt64 CallOutcome)
  /-- The workers that get no connection, and why. -/
  refused : Table Nat Fault
  deriving DecidableEq, Repr

/-- What a scripted system has seen. -/
structure CallLog where
  /-- The calls, the last one first. -/
  calls : List Call
  /-- How many connections were asked for. -/
  connects : Nat
  /-- How many connections were closed. -/
  closed : Nat
  deriving DecidableEq, Repr

namespace CallLog

/-- Nothing seen. -/
def empty : CallLog := ⟨[], 0, 0⟩

/-- One more call. -/
def add (log : CallLog) (call : Call) : CallLog := { log with calls := call :: log.calls }

/-- The calls as they are listed, in order. -/
def lines (log : CallLog) : List String := log.calls.reverse.map Call.display

end CallLog

namespace ScriptedTarget

/-- What reading a cursor comes to where cursors are not known. -/
def noCursors (command : Command) : CallOutcome :=
  .failed ⟨.execution, command.name ++ " does not support cursors"⟩

/-- What comes of a call. -/
def outcome (script : ScriptedTarget) : Call → CallOutcome
  | .execute command => (script.replies.get? command.name).getD script.default
  | .readCursor command cursor =>
    match script.pages with
    | some pages => (pages.get? cursor).getD (.answered Response.empty)
    | none => noCursors command

/-- Whether a call is listed. -/
def lists (script : ScriptedTarget) : Call → Bool
  | .execute _ => true
  | .readCursor _ _ => script.pages.isSome

/-- The system under load. -/
def target (script : ScriptedTarget) : Target CallLog where
  connect worker log :=
    ({ log with connects := log.connects + 1 }, script.refused.get? worker)
  call _ call log := (if script.lists call then log.add call else log, script.outcome call)
  close _ log := if script.pages.isSome then { log with closed := log.closed + 1 } else log

/-- How many calls one command takes at most, if it takes finitely many: no cursor is read twice. -/
def callsPerCommand (script : ScriptedTarget) : Nat :=
  match script.pages with
  | some pages => pages.size + 3
  | none => 2

/-- How many steps a job of `rows` rows takes at most: leave and call, and one step for the end. -/
def stepsFor (script : ScriptedTarget) (rows : Nat) : Nat :=
  2 * rows * script.callsPerCommand + 1

end ScriptedTarget

end LoadBench
