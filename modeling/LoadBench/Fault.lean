/-
  LoadBench.Fault

  Failures of a run.  A fault says whose failure it is (its kind) and what went
  wrong (its context).  The modules of the library name the causes they can
  meet as inductive types of their own and turn a cause into a fault with one
  function, so the wording of a message stands in one place.
-/

namespace LoadBench

/-- Whose failure a fault is. -/
inductive FaultKind where
  /-- The settings cannot run. -/
  | config
  /-- A file, a stream or a stored report could not be read or written. -/
  | io
  /-- The input does not denote commands. -/
  | decode
  /-- The system under load refused or failed a command. -/
  | execution
  /-- A worker could not be prepared. -/
  | setup
  /-- A rule of the dispatch itself was broken. -/
  | internal
  deriving DecidableEq, Repr

namespace FaultKind

/-- Every kind, in the order of the declaration. -/
def all : List FaultKind := [.config, .io, .decode, .execution, .setup, .internal]

/-- The name a kind is reported under. -/
def name : FaultKind → String
  | .config => "Config"
  | .io => "Io"
  | .decode => "Decode"
  | .execution => "Execution"
  | .setup => "Setup"
  | .internal => "Internal"

/-- The kind reported under a name. -/
def ofName? (text : String) : Option FaultKind :=
  all.find? fun kind => kind.name == text

end FaultKind

/-- One failure: whose it is, and what went wrong. -/
structure Fault where
  kind : FaultKind
  context : String
  deriving DecidableEq, Repr

/-- A fault as it is shown to a user: its kind, a colon and its context. -/
def Fault.display (fault : Fault) : String := fault.kind.name ++ ": " ++ fault.context

end LoadBench
