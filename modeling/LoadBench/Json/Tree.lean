/-
  LoadBench.Json.Tree

  JSON documents as they are written.  Numbers and texts keep their spelling,
  because what a spelling means depends on who reads it: a number may be wanted
  whole or as a double, and a value that nobody reads only has to be written
  correctly.
-/

import LoadBench.Json.Number
import LoadBench.Json.Text

namespace LoadBench.Json

/-- A JSON value as it is written; texts without their quotation marks. -/
inductive Tree where
  | null
  | bool (value : Bool)
  | number (number : Number)
  | text (raw : List Char)
  | list (items : List Tree)
  | object (fields : List (List Char × Tree))
  deriving Repr

namespace Tree

instance : Inhabited Tree := ⟨.null⟩

/-- Whether a character separates the parts of a document. -/
def isSpace (c : Char) : Bool := c = ' ' || c = '\n' || c = '\t' || c = '\r'

/-- A source without the separators at its front. -/
def skip (source : List Char) : List Char := source.dropWhile isSpace

/-- The rest of a source behind a word. -/
def after? : List Char → List Char → Option (List Char)
  | [], source => some source
  | c :: word, d :: source => if c = d then after? word source else none
  | _ :: _, [] => none

mutual

/-- The value at the front of a text, and what follows it. -/
def scan? : Nat → List Char → Option (Tree × List Char)
  | 0, _ => none
  | fuel + 1, source =>
    match skip source with
    | '[' :: rest =>
      match skip rest with
      | ']' :: rest => some (.list [], rest)
      | rest => (scanItems? fuel rest).map fun found => (.list found.1, found.2)
    | '\x7b' :: rest =>
      match skip rest with
      | '\x7d' :: rest => some (.object [], rest)
      | rest => (scanFields? fuel rest).map fun found => (.object found.1, found.2)
    | '"' :: rest => (Text.scan? rest).map fun found => (.text found.1, found.2)
    | 'n' :: rest => (after? ['u', 'l', 'l'] rest).map fun rest => (.null, rest)
    | 't' :: rest => (after? ['r', 'u', 'e'] rest).map fun rest => (.bool true, rest)
    | 'f' :: rest => (after? ['a', 'l', 's', 'e'] rest).map fun rest => (.bool false, rest)
    | rest => (Number.scan? rest).map fun found => (.number found.1, found.2)

/-- The items up to the closing bracket, and what follows it. -/
def scanItems? : Nat → List Char → Option (List Tree × List Char)
  | 0, _ => none
  | fuel + 1, source =>
    match scan? fuel source with
    | none => none
    | some (item, rest) =>
      match skip rest with
      | ']' :: rest => some ([item], rest)
      | ',' :: rest => (scanItems? fuel rest).map fun found => (item :: found.1, found.2)
      | _ => none

/-- The fields up to the closing brace, and what follows it. -/
def scanFields? : Nat → List Char → Option (List (List Char × Tree) × List Char)
  | 0, _ => none
  | fuel + 1, source =>
    match skip source with
    | '"' :: rest =>
      match Text.scan? rest with
      | none => none
      | some (key, rest) =>
        match skip rest with
        | ':' :: rest =>
          match scan? fuel rest with
          | none => none
          | some (value, rest) =>
            match skip rest with
            | '\x7d' :: rest => some ([(key, value)], rest)
            | ',' :: rest =>
              (scanFields? fuel rest).map fun found => ((key, value) :: found.1, found.2)
            | _ => none
        | _ => none
    | _ => none

end

/-- The value a whole source is written as. Every two steps of the scan pass a character. -/
def ofText? (source : List Char) : Option Tree :=
  match scan? (2 * source.length + 2) source with
  | none => none
  | some (tree, rest) => if (skip rest).isEmpty then some tree else none

mutual

/-- How many lists and objects lie around each other. -/
def depth : Tree → Nat
  | .list items => depthItems items + 1
  | .object fields => depthFields fields + 1
  | _ => 0

/-- The greatest depth of the items of a list. -/
def depthItems : List Tree → Nat
  | [] => 0
  | item :: rest => Nat.max (depth item) (depthItems rest)

/-- The greatest depth of the values of an object. -/
def depthFields : List (List Char × Tree) → Nat
  | [] => 0
  | (_, value) :: rest => Nat.max (depth value) (depthFields rest)

end

end Tree

end LoadBench.Json
