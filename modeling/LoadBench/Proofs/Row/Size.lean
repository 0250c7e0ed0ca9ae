/-
  LoadBench.Proofs.Row.Size

  The bytes of a row and those of its fields.  Every byte of a row is taken into a field
  once, separates two fields, or is left out: so the fields and the commas between them
  are never longer than the row, whatever is quoted and whatever is left out in front of
  the record or behind it (`size_le_of_record?`).  A label is thus at least two bytes
  shorter than its row, and what a command counts as is exactly what is left of the row
  (`sized_of_command`).
-/

import LoadBench.Proofs.Row.Whole
import Mathlib.Algebra.GroupWithZero.Nat

namespace LoadBench.Row

/-! ## Fields -/

/-- The bytes of fields with commas between them. -/
def size (fields : List (List UInt8)) : Nat := (fields.map List.length).sum + (fields.length - 1)

@[simp] theorem size_cons (field : List UInt8) (others : List (List UInt8)) :
    size (field :: others) = field.length + (others.map List.length).sum + others.length := rfl

/-- The rest of a field and the fields behind it are no longer than the bytes they are read from. -/
theorem size_fields_le (place : Place) (bytes : List UInt8) :
    size ((fields place bytes).1 :: (fields place bytes).2) ≤ bytes.length := by
  rw [size_cons]
  -- A quotation mark that opens or may close a quoted part is left out; of two marks that stand
  -- for one, it is the first that has been left out.
  fun_induction fields place bytes with
  | case1 => exact Nat.le_refl 0
  | case2 rest ih | case4 _ _ rest _ _ ih => exact Nat.le_succ_of_le ih
  | case3 _ rest _ field others hread ih | case5 _ _ rest _ _ _ field others hread ih
  | case8 _ _ rest _ _ _ _ _ field others hread ih =>
    simp only [hread] at ih
    simp only [List.length_cons]
    omega
  | case6 _ rest _ field others hread _ _ ih =>
    simp only [hread] at ih
    simp only [List.length_nil, List.map_cons, List.sum_cons, List.length_cons]
    omega
  | case7 => exact Nat.zero_le _

theorem length_dropMark_le (bytes : List UInt8) : (dropMark bytes).length ≤ bytes.length := by
  unfold dropMark
  split
  · next rest => exact Nat.le_add_right rest.length 3
  · exact Nat.le_refl _

/-- What a row is read as is no longer than the row. -/
theorem size_le_of_record? {row : List UInt8} {fields : List (List UInt8)}
    (h : record? row = some fields) : size fields ≤ row.length := by
  have hbody : ((dropMark row).dropWhile isEnd).length ≤ row.length :=
    Nat.le_trans (List.length_dropWhile_le ..) (length_dropMark_le row)
  unfold record? at h
  split at h
  · cases h
  · obtain rfl := Option.some.inj h
    exact Nat.le_trans (size_fields_le .start _) hbody

/-! ## Commands -/

/-- Whether the bytes of a row cover what is read of it, and all of them but for the label's are
counted. -/
structure Sized (row : List UInt8) (command : Command) : Prop where
  /-- The texts of the command, with commas between them, are no longer than the row. -/
  texts_le : (command.texts.map Utf8.size).sum + (command.texts.length - 1) ≤ row.length
  /-- The label is shorter than the row by two commas at least. -/
  label_le : Utf8.size command.label + 2 ≤ row.length
  /-- So the row is long enough to take the label from it. -/
  min_eq : Nat.min (Utf8.size command.label) row.length = Utf8.size command.label
  size_eq : command.size = row.length - Utf8.size command.label
  /-- The texts behind the label, and the comma before each of them, are counted. -/
  le_size : Utf8.size command.query + Utf8.size command.name +
    (command.args.map Utf8.size).sum + (2 + command.args.length) ≤ command.size

/-- Every row that is read as a command covers its texts, and is counted without its label. -/
theorem sized_of_command {row : List UInt8} {command : Command}
    (h : Row.command row = .ok command) : Sized row command := by
  obtain ⟨hrecord, hsize⟩ := command_eq_ok_iff.mp h
  have htexts : (command.texts.map Utf8.size).sum + (command.texts.length - 1) ≤ row.length := by
    have hle := size_le_of_record? hrecord
    rwa [size, List.length_map, List.map_map] at hle
  -- The label is the first text, and there are at least two others.
  have hfirst : Utf8.size command.label + (Utf8.size command.query + Utf8.size command.name +
      (command.args.map Utf8.size).sum + (2 + command.args.length)) ≤ row.length := by
    simp only [Command.texts, List.map_cons, List.sum_cons, List.length_cons] at htexts
    omega
  have hlabel : Utf8.size command.label + 2 ≤ row.length := by omega
  have hmin : Nat.min (Utf8.size command.label) row.length = Utf8.size command.label :=
    Nat.min_eq_left (Nat.le_trans (Nat.le_add_right _ 2) hlabel)
  rw [hmin] at hsize
  exact
    { texts_le := htexts
      label_le := hlabel
      min_eq := hmin
      size_eq := hsize
      le_size := by omega }

/-- A row behind a byte order mark and a blank line, and in front of another row; its label has a
comma and a doubled mark in a quoted part, and goes on behind it. -/
def framedRow : List UInt8 := mark ++ Utf8.ofString "\r\n\"RE,\"\"A\"D,R1,GET,\"k\"\r\nWRITE,W1"

theorem sized_framedRow :
    Row.command framedRow = .ok ⟨"RE,\"AD", "R1", "GET", ["k"], 29⟩ ∧
      Sized framedRow ⟨"RE,\"AD", "R1", "GET", ["k"], 29⟩ := by
  have hcommand : Row.command framedRow = .ok ⟨"RE,\"AD", "R1", "GET", ["k"], 29⟩ :=
    command_eq_ok_iff.mpr ⟨by decide, by decide⟩
  exact ⟨hcommand, sized_of_command hcommand⟩

end LoadBench.Row
