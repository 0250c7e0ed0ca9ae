/-
  LoadBench.Proofs.Row.Whole

  How much of a line gets into its command.  A row without quotation marks is read from
  the first byte that ends no row up to the next one that does (`body`), and split at the
  commas (`record?_eq`); so the texts of its command, joined by commas, are these bytes
  (`joined_of_command`).  The reader of lines lets carriage returns through, which end a
  row but no line.  What is behind one is left out, and without any nothing is
  (`readsBody_of_next`).
-/

import LoadBench.Proofs.Lines.Reader
import LoadBench.Proofs.Row.Written

namespace LoadBench

/-- The texts of a command in the order in which they stand in its row. -/
def Command.texts (command : Command) : List String :=
  command.label :: command.query :: command.name :: command.args

/-- The bytes of a command's texts with commas between them. -/
def Command.joined (command : Command) : List UInt8 :=
  [Row.comma].intercalate (command.texts.map Utf8.ofString)

namespace Row

/-! ## Rows without quotation marks -/

/-- Whether a row goes on behind a byte. -/
def isInner (byte : UInt8) : Bool := !isEnd byte

/-- What is read of a row without quotation marks. -/
def body (row : List UInt8) : List UInt8 := (row.dropWhile isEnd).takeWhile isInner

/-- The byte order mark. -/
def mark : List UInt8 := [0xEF, 0xBB, 0xBF]

/-- Bytes without quotation marks are split at the commas. -/
theorem fields_eq_splitOn {place : Place} (hplace : place = .start ∨ place = .bare)
    {bytes : List UInt8} (hquote : quote ∉ bytes) :
    (fields place bytes).1 :: (fields place bytes).2 = (bytes.takeWhile isInner).splitOn comma := by
  -- By induction on the bytes: a comma opens a field, a line end closes the last one.
  induction bytes generalizing place with
  | nil => rcases hplace with rfl | rfl <;> rfl
  | cons byte rest ih =>
    obtain ⟨hbyte, hrest⟩ := not_or.mp (mt List.mem_cons.mpr hquote)
    have hplain : byte ≠ quote := Ne.symm hbyte
    by_cases hcomma : byte = comma
    · subst hcomma
      have hread : fields place (comma :: rest) =
          ([], (fields .start rest).1 :: (fields .start rest).2) := by
        rcases hplace with rfl | rfl <;> rfl
      rw [hread, ih (Or.inl rfl) hrest, List.takeWhile_cons_of_pos rfl,
        List.splitOn_cons_eq_if_modifyHead, if_pos (beq_self_eq_true comma)]
    · by_cases hend : isEnd byte = true
      · have hread : fields place (byte :: rest) = ([], []) := by
          rcases hplace with rfl | rfl <;> simp [fields, hplain, hcomma, hend]
        have hstops : ¬ isInner byte = true := by simp [isInner, hend]
        rw [hread, List.takeWhile_cons_of_neg hstops]
        rfl
      · have hread : fields place (byte :: rest) =
            (byte :: (fields .bare rest).1, (fields .bare rest).2) := by
          rcases hplace with rfl | rfl <;> simp [fields, hplain, hcomma, hend]
        have hinner : isInner byte = true := by simp [isInner, hend]
        rw [hread, List.takeWhile_cons_of_pos hinner, List.splitOn_cons_eq_if_modifyHead,
          if_neg (mt beq_iff_eq.mp hcomma), ← ih (Or.inr rfl) hrest]
        rfl

theorem dropMark_eq {row : List UInt8} (h : ¬ mark <+: row) : dropMark row = row := by
  unfold dropMark
  split
  · next rest => exact absurd (List.prefix_append mark rest) h
  · rfl

/-- The record of a row that is not blank is its body, split at the commas. -/
theorem record?_eq {row : List UInt8} (hquote : quote ∉ row) (hmark : ¬ mark <+: row) :
    record? row =
      if row.dropWhile isEnd = [] then none else some ((body row).splitOn comma) := by
  unfold record?
  rw [dropMark_eq hmark]
  split
  · next hblank => rw [if_pos hblank]
  · next hbody =>
    have hsuffix : quote ∉ row.dropWhile isEnd :=
      fun hmem => hquote ((List.dropWhile_suffix isEnd).mem hmem)
    rw [if_neg hbody, body, ← fields_eq_splitOn (Or.inl rfl) hsuffix]

/-! ## Commands -/

/-- Fields are read as the texts that they are the bytes of, and as no others. -/
theorem eq_map_of_texts {index : Nat} {fields : List (List UInt8)} {result : List String}
    (h : texts index fields = .ok result) : fields = result.map Utf8.ofString := by
  induction fields generalizing index result with
  | nil =>
    obtain rfl := Except.ok.inj h
    rfl
  | cons field rest ih =>
    unfold texts at h
    split at h
    · cases h
    · next text htext =>
      split at h
      · cases h
      · next others hothers =>
        obtain rfl := Except.ok.inj h
        rw [List.map_cons, Utf8.ofString, String.toList_ofList, Utf8.encode_of_decode htext,
          ih hothers]

/-- A row is read as a command exactly if its record is made of the command's texts. -/
theorem command_eq_ok_iff {row : List UInt8} {command : Command} :
    Row.command row = .ok command ↔
      record? row = some (command.texts.map Utf8.ofString) ∧
        command.size = row.length - Nat.min (Utf8.size command.label) row.length := by
  refine ⟨fun h => ?_, fun ⟨hrecord, hsize⟩ => ?_⟩
  · unfold Row.command at h
    split at h
    · cases h
    · next fields hrecord =>
      split at h
      · cases h
      · next label query name args htexts =>
        obtain rfl := Except.ok.inj h
        exact ⟨hrecord.trans (congrArg some (eq_map_of_texts htexts)), rfl⟩
      · cases h
  · unfold Row.command
    rw [hrecord]
    dsimp only
    rw [texts_ofString, Command.texts]
    dsimp only
    rw [← hsize]

/-- The rows `READ,a,GET`, one that is no command, and `WRITE,b,SET`. -/
def threeRows : List (List UInt8) :=
  [[82, 69, 65, 68, 44, 97, 44, 71, 69, 84], [68, 82, 79, 80],
    [87, 82, 73, 84, 69, 44, 98, 44, 83, 69, 84]]

theorem command_threeRows :
    Row.command [82, 69, 65, 68, 44, 97, 44, 71, 69, 84] = .ok ⟨"READ", "a", "GET", [], 6⟩ ∧
      (∃ fault, Row.command [68, 82, 79, 80] = .error fault) ∧
      Row.command [87, 82, 73, 84, 69, 44, 98, 44, 83, 69, 84] =
        .ok ⟨"WRITE", "b", "SET", [], 6⟩ := by
  refine ⟨command_eq_ok_iff.mpr ⟨by decide, by decide⟩, ?_,
    command_eq_ok_iff.mpr ⟨by decide, by decide⟩⟩
  cases hrow : Row.command [68, 82, 79, 80] with
  | error fault => exact ⟨fault, rfl⟩
  | ok command =>
    -- A command has three texts at least, and this row is a single field.
    have hfields : record? [68, 82, 79, 80] = some [[68, 82, 79, 80]] := by decide
    have htexts := Option.some.inj (hfields.symm.trans (command_eq_ok_iff.mp hrow).1)
    have hlength := congrArg List.length htexts
    rw [List.length_map, Command.texts] at hlength
    exact absurd (Nat.succ.inj hlength) (Nat.succ_ne_zero _).symm

/-! ## Lines -/

variable {row : List UInt8}

/-- The texts of a command are the body of its row. -/
theorem joined_of_command (hquote : quote ∉ row) (hmark : ¬ mark <+: row) {command : Command}
    (h : Row.command row = .ok command) : command.joined = body row := by
  obtain ⟨hrecord, -⟩ := command_eq_ok_iff.mp h
  rw [record?_eq hquote hmark] at hrecord
  split at hrecord
  · cases hrecord
  · rw [Command.joined, ← Option.some.inj hrecord]
    exact List.intercalate_splitOn comma

/-- A row is a command exactly if its body is made of three texts or more. -/
theorem exists_command_iff (hquote : quote ∉ row) (hmark : ¬ mark <+: row) :
    (∃ command, Row.command row = .ok command) ↔
      ∃ texts : List String, 3 ≤ texts.length ∧
        (body row).splitOn comma = texts.map Utf8.ofString := by
  refine ⟨fun ⟨command, h⟩ => ?_, fun ⟨texts, hlength, hbody⟩ => ?_⟩
  · refine ⟨command.texts, Nat.le_add_left 3 _, ?_⟩
    obtain ⟨hrecord, -⟩ := command_eq_ok_iff.mp h
    rw [record?_eq hquote hmark] at hrecord
    split at hrecord
    · cases hrecord
    · exact Option.some.inj hrecord
  · -- A blank row has an empty body, which is a single field.
    have hnonblank : row.dropWhile isEnd ≠ [] := by
      intro hblank
      have hone := congrArg List.length hbody
      rw [body, hblank, List.length_map] at hone
      have hsingle : (([] : List UInt8).takeWhile isInner).splitOn comma = [[]] := rfl
      rw [hsingle, List.length_singleton] at hone
      omega
    match texts, hlength with
    | label :: query :: name :: args, _ =>
      refine ⟨⟨label, query, name, args, row.length - Nat.min (Utf8.size label) row.length⟩,
        command_eq_ok_iff.mpr ⟨?_, rfl⟩⟩
      rw [record?_eq hquote hmark, if_neg hnonblank, hbody]
      rfl

/-- The body of a line is the line itself if there is no carriage return in it, and only then. -/
theorem body_eq_iff (hfeed : Source.lineFeed ∉ row) :
    body row = row ↔ LineReader.carriageReturn ∉ row := by
  refine ⟨fun h hmem => ?_, fun h => ?_⟩
  · -- A carriage return in the line would be in its body, where no row goes on behind it.
    rw [← h] at hmem
    exact absurd (List.mem_takeWhile_imp hmem) (by decide)
  · have hend : ∀ byte ∈ row, isEnd byte = false := by
      intro byte hbyte
      rw [isEnd, Bool.or_eq_false_iff, decide_eq_false_iff_not, decide_eq_false_iff_not]
      refine ⟨?_, ?_⟩
      · rintro rfl
        exact hfeed hbyte
      · rintro rfl
        exact h hbyte
    have hstart : row.dropWhile isEnd = row := by
      cases row with
      | nil => rfl
      | cons byte rest =>
        have hbyte := hend byte List.mem_cons_self
        exact List.dropWhile_cons_of_neg (Bool.eq_false_iff.mp hbyte)
    rw [body, hstart, List.takeWhile_eq_self_iff]
    intro byte hbyte
    rw [isInner, hend byte hbyte]
    rfl

/-- Whether a row is read up to its first line end, but for those it starts with. -/
structure ReadsBody (row : List UInt8) : Prop where
  /-- The texts of the command are what lies between these line ends. -/
  joined_eq : ∀ command, Row.command row = .ok command → command.joined = body row
  /-- They are all of the row if there is no carriage return in it, and only then. -/
  whole_iff : ∀ command, Row.command row = .ok command →
    (command.joined = row ↔ LineReader.carriageReturn ∉ row)
  /-- There is a command exactly if three texts or more lie between the line ends. -/
  accepted_iff : (∃ command, Row.command row = .ok command) ↔
    ∃ texts : List String, 3 ≤ texts.length ∧
      (body row).splitOn comma = texts.map Utf8.ofString

/-- A line without quotation marks and without a byte order mark is read up to its first carriage
return, but for those it starts with. -/
theorem readsBody_of_next {reader rest : LineReader} {line : List UInt8}
    (h : reader.next = (rest, .ok (some line))) (hquote : quote ∉ line) (hmark : ¬ mark <+: line) :
    ReadsBody line where
  joined_eq _ hcommand := joined_of_command hquote hmark hcommand
  whole_iff _ hcommand := by
    rw [joined_of_command hquote hmark hcommand]
    exact body_eq_iff (LineReader.lineFeed_notMem_of_next h)
  accepted_iff := exists_command_iff hquote hmark

/-- A stream of one piece that has only lines within the limit gives its first item. -/
theorem exists_next (bytes : List UInt8) (limit : UInt64)
    (h : ∀ line ∈ LineReader.linesOf bytes, LineReader.Fits limit line) :
    ∃ rest, (LineReader.start [.bytes bytes] limit).next =
      (rest, .ok (LineReader.itemsOf bytes).head?) := by
  have hcontent : Source.content [.bytes bytes] = bytes := List.append_nil bytes
  have hgives : (LineReader.start [.bytes bytes] limit).Gives (LineReader.itemsOf bytes) := by
    refine ⟨fun message hmem => ?_, ?_, ?_⟩
    · cases List.mem_singleton.mp hmem
    · exact hcontent.symm ▸ h
    · exact congrArg LineReader.itemsOf hcontent
  obtain ⟨rest, hnext, -⟩ := hgives.next
  exact ⟨rest, hnext⟩

/-- A line with a line feed behind it. -/
theorem readsBody_oneLine :
    ∃ rest, (LineReader.start [.bytes (Utf8.ofString "READ,R1,GET,k\n")] 64).next =
        (rest, .ok (some (Utf8.ofString "READ,R1,GET,k"))) ∧
      ReadsBody (Utf8.ofString "READ,R1,GET,k") := by
  obtain ⟨rest, hnext⟩ := exists_next (Utf8.ofString "READ,R1,GET,k\n") 64 (by decide)
  have hitem : (LineReader.itemsOf (Utf8.ofString "READ,R1,GET,k\n")).head? =
      some (Utf8.ofString "READ,R1,GET,k") := by decide
  rw [hitem] at hnext
  exact ⟨rest, hnext, readsBody_of_next hnext (by decide) (by decide)⟩

/-- A line that a carriage return cuts in two: its command ends there. -/
theorem not_whole_behindReturn :
    ∃ rest, (LineReader.start [.bytes (Utf8.ofString "READ,R1,GET,k\rjunk\n")] 64).next =
        (rest, .ok (some (Utf8.ofString "READ,R1,GET,k\rjunk"))) ∧
      ∃ command, Row.command (Utf8.ofString "READ,R1,GET,k\rjunk") = .ok command ∧
        command.args = ["k"] ∧ command.joined ≠ Utf8.ofString "READ,R1,GET,k\rjunk" := by
  obtain ⟨rest, hnext⟩ := exists_next (Utf8.ofString "READ,R1,GET,k\rjunk\n") 64 (by decide)
  have hitem : (LineReader.itemsOf (Utf8.ofString "READ,R1,GET,k\rjunk\n")).head? =
      some (Utf8.ofString "READ,R1,GET,k\rjunk") := by decide
  rw [hitem] at hnext
  have hcommand : Row.command (Utf8.ofString "READ,R1,GET,k\rjunk") =
      .ok ⟨"READ", "R1", "GET", ["k"], 14⟩ := command_eq_ok_iff.mpr ⟨by decide, by decide⟩
  exact ⟨rest, hnext, _, hcommand, rfl, by decide⟩

end Row

end LoadBench
