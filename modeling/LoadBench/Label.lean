/-
  LoadBench.Label

  The seven groups measured commands are accounted under.  A command carries
  free text as its label; `Label.ofName` sorts that text into a group, and every
  text that names no group goes to `other`.
-/

namespace LoadBench

/-- A group of measured commands. -/
inductive Label where
  | setupWrite
  | write
  | read
  | cursorRead
  | update
  | delete
  | other
  deriving DecidableEq, Repr

namespace Label

/-- Every group, in the order of the published tables. -/
def all : List Label := [.setupWrite, .write, .read, .cursorRead, .update, .delete, .other]

/-- The text a command carries to be accounted under a group. -/
def name : Label → String
  | .setupWrite => "SETUP_WRITE"
  | .write => "WRITE"
  | .read => "READ"
  | .cursorRead => "CURSOR_READ"
  | .update => "UPDATE"
  | .delete => "DELETE"
  | .other => "OTHER"

/-- The group of a command's label text; unknown texts are `other`. -/
def ofName (text : String) : Label :=
  if text = "SETUP_WRITE" then .setupWrite
  else if text = "WRITE" then .write
  else if text = "READ" then .read
  else if text = "CURSOR_READ" then .cursorRead
  else if text = "UPDATE" then .update
  else if text = "DELETE" then .delete
  else .other

/-- The key of a group among the rates, quantiles and series of a report. -/
def key : Label → String
  | .setupWrite => "setupWrite"
  | .write => "write"
  | .read => "read"
  | .cursorRead => "readCursor"
  | .update => "update"
  | .delete => "delete"
  | .other => "other"

/-- The key of a group among the totals of a report. -/
def totalKey : Label → String
  | .setupWrite => "SetupWrites"
  | .write => "Writes"
  | .read => "Reads"
  | .cursorRead => "ReadsCursor"
  | .update => "Updates"
  | .delete => "Deletes"
  | .other => "Others"

/-- The name of a group as a JSON text value. -/
def jsonName : Label → String
  | .setupWrite => "SetupWrite"
  | .write => "Write"
  | .read => "Read"
  | .cursorRead => "CursorRead"
  | .update => "Update"
  | .delete => "Delete"
  | .other => "Other"

/-- The name of a group in the summary of a run. -/
def title : Label → String
  | .setupWrite => "Setup Writes"
  | .write => "Writes"
  | .read => "Reads"
  | .cursorRead => "Cursor Reads"
  | .update => "Updates"
  | .delete => "Deletes"
  | .other => "Other"

/-- The place of a group in `Label.all`. -/
def index : Label → Nat
  | .setupWrite => 0
  | .write => 1
  | .read => 2
  | .cursorRead => 3
  | .update => 4
  | .delete => 5
  | .other => 6

/-- `index` is the place in `all`. -/
theorem all_getElem?_index (label : Label) : all[label.index]? = some label := by
  cases label <;> rfl

theorem mem_all (label : Label) : label ∈ all := List.mem_of_getElem? (all_getElem?_index label)

/-- A group's own name leads back to it. -/
theorem ofName_name (label : Label) : ofName label.name = label := by
  cases label <;> rfl

end Label

end LoadBench
