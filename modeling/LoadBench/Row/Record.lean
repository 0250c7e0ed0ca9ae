/-
  LoadBench.Row.Record

  The fields of a row.  Fields are separated by commas; a row ends at the first
  line feed or carriage return outside quotation marks.  A field that starts with
  a quotation mark is quoted: within it commas and line ends are plain bytes, and
  a quotation mark is written twice.  Behind the closing mark the field goes on
  unquoted.  Anywhere else a quotation mark is a plain byte.
-/

namespace LoadBench.Row

/-- Where in a field a byte stands. -/
inductive Place where
  /-- At its start. -/
  | start
  /-- Behind its first byte, or behind its quoted part. -/
  | bare
  /-- Within its quoted part. -/
  | quoted
  /-- Behind a quotation mark that may end the quoted part. -/
  | closing
  deriving DecidableEq, Repr

/-- The comma. -/
def comma : UInt8 := 44

/-- The quotation mark. -/
def quote : UInt8 := 34

/-- Whether a byte ends a row. -/
def isEnd (byte : UInt8) : Bool := byte = 10 || byte = 13

/-- The rest of the field at a place, and the fields behind it. -/
def fields : Place → List UInt8 → List UInt8 × List (List UInt8)
  | _, [] => ([], [])
  | .quoted, byte :: rest =>
    if byte = quote then fields .closing rest
    else
      let (field, others) := fields .quoted rest
      (byte :: field, others)
  | place, byte :: rest =>
    if byte = quote ∧ place = .start then fields .quoted rest
    -- A mark behind a mark: the two stand for one, and the quoted part goes on.
    else if byte = quote ∧ place = .closing then
      let (field, others) := fields .quoted rest
      (byte :: field, others)
    else if byte = comma then
      let (field, others) := fields .start rest
      ([], field :: others)
    else if isEnd byte then ([], [])
    else
      let (field, others) := fields .bare rest
      (byte :: field, others)

/-- Bytes without a byte order mark at their start. -/
def dropMark : List UInt8 → List UInt8
  | 0xEF :: 0xBB :: 0xBF :: rest => rest
  | bytes => bytes

/-- The fields of the first row that is not empty. -/
def record? (bytes : List UInt8) : Option (List (List UInt8)) :=
  match (dropMark bytes).dropWhile isEnd with
  | [] => none
  | body =>
    let (field, others) := fields .start body
    some (field :: others)

end LoadBench.Row
