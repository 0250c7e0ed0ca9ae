/-
  LoadBench.Row.Command

  Commands from rows.  The first three fields of a row are the label the command
  is accounted under, the query it belongs to and its name; the others are its
  arguments.
-/

import LoadBench.Fault
import LoadBench.Row.Record
import LoadBench.Text.Quoted
import LoadBench.Text.Utf8

namespace LoadBench

/-- A command to be issued. -/
structure Command where
  label : String
  query : String
  name : String
  args : List String
  /-- How many bytes the command counts as: the bytes of its row without those of its label. -/
  size : Nat
  deriving DecidableEq, Repr

/-- A command as a user would type it: its name and its arguments. -/
def Command.display (command : Command) : String :=
  command.args.foldl (fun text arg => text ++ " " ++ arg) command.name

/-- Why a row is no command. -/
inductive RowFault where
  /-- There is no row. -/
  | empty
  /-- A field, counted from zero, is no text from a byte on. -/
  | notText (field byte : Nat)
  /-- The row has fewer than three fields. -/
  | tooShort (row : List UInt8)
  deriving DecidableEq, Repr

/-- What a user is told about a row that is no command. -/
def RowFault.message : RowFault → String
  | .empty => "empty row"
  | .notText field byte =>
    "CSV error: CSV parse error: record 0 (line 1, field: " ++ Nat.repr field ++
      ", byte: 0): invalid utf-8: invalid UTF-8 in field " ++ Nat.repr field ++
      " near byte index " ++ Nat.repr byte
  | .tooShort row =>
    "row needs at least a label, a query id and a command: " ++
      Text.quoted (Utf8.decodeLossy row)

/-- A row that is no command, as a fault. -/
def RowFault.fault (fault : RowFault) : Fault := ⟨.decode, fault.message⟩

namespace Row

/-- The texts of fields, the first of which is number `index`. -/
def texts : Nat → List (List UInt8) → Except RowFault (List String)
  | _, [] => .ok []
  | index, field :: rest =>
    match Utf8.decode field with
    | .error byte => .error (.notText index byte)
    | .ok text =>
      match texts (index + 1) rest with
      | .error fault => .error fault
      | .ok others => .ok (String.ofList text :: others)

/-- The command a row stands for. -/
def command (row : List UInt8) : Except RowFault Command :=
  match record? row with
  | none => .error .empty
  | some fields =>
    match texts 0 fields with
    | .error fault => .error fault
    | .ok (label :: query :: name :: args) =>
      .ok ⟨label, query, name, args, row.length - Nat.min (Utf8.size label) row.length⟩
    | .ok _ => .error (.tooShort row)

end Row

end LoadBench
