/-
  LoadBench.Json.Reader

  Reading a document into the types of the library.  A record is read from an
  object with each of its fields exactly once, in any order and among others, or
  from a list of its fields in order.  A record that takes in the fields of
  another one is read from an object only.
-/

import LoadBench.Json.Value

namespace LoadBench.Json

/-- How deep lists and objects may lie in what is read. -/
def depthLimit : Nat := 127

namespace Tree

/-- A natural number below `2 ^ 64`. -/
def natural? : Tree → Option UInt64
  | .number n => n.natural?
  | _ => none

/-- A whole number of 64 bits with a sign. -/
def int64? : Tree → Option Int64
  | .number n => n.int64?
  | _ => none

/-- A double; a whole number is one too. -/
def double? : Tree → Option Binary64
  | .number n => n.double?
  | _ => none

/-- A truth value. -/
def bool? : Tree → Option Bool
  | .bool value => some value
  | _ => none

/-- A text. -/
def string? : Tree → Option String
  | .text raw => Text.string? raw
  | _ => none

/-- The items of a list. -/
def items? : Tree → Option (List Tree)
  | .list items => some items
  | _ => none

/-- The fields of an object by name, as they are written. -/
def fields? : Tree → Option (List (String × Tree))
  | .object fields => fields.mapM fun field => (Text.string? field.1).map fun key => (key, field.2)
  | _ => none

/-- The one field of a name. -/
def field? (fields : List (String × Tree)) (name : String) : Option Tree :=
  match fields.filter fun field => field.1 == name with
  | [field] => some field.2
  | _ => none

/-- The fields of a record by their names, in the order of the names. -/
def record? (names : List String) : Tree → Option (List Tree)
  | .list items => if items.length = names.length then some items else none
  | tree =>
    match tree.fields? with
    | none => none
    | some fields => names.mapM (field? fields)

/-- The fields of a record that takes in others: those with names, then the others. -/
def openRecord? (names : List String) (tree : Tree) : Option (List Tree × List (String × Tree)) :=
  match tree.fields? with
  | none => none
  | some fields =>
    (names.mapM (field? fields)).map fun named =>
      (named, fields.filter fun field => !names.contains field.1)

/-- The entries of an object as a table; the last of several with one name stays. -/
def table? {ν : Type} (read : Tree → Option ν) (tree : Tree) : Option (Table String ν) :=
  match tree.fields? with
  | none => none
  | some fields =>
    (fields.mapM fun field => (read field.2).map fun value => (field.1, value)).map Table.ofList

/-- A number written as the name of a field. -/
def key? (raw : List Char) : Option UInt64 :=
  match Number.scan? raw with
  | some (n, []) => n.natural?
  | _ => none

/-- The entries of an object whose names are numbers. -/
def numberedTable? {ν : Type} (read : Tree → Option ν) : Tree → Option (Table UInt64 ν)
  | .object fields =>
    (fields.mapM fun (field : List Char × Tree) =>
      match key? field.1, read field.2 with
      | some key, some value => some (key, value)
      | _, _ => none).map Table.ofList
  | _ => none

end Tree

end LoadBench.Json
