/-
  LoadBench.Proofs.Row.Written

  Commands written as rows.  A field is written in quotation marks, with those in it
  doubled, or as it is (`Field.written`); the second is for texts that cannot be taken
  for anything else (`Field.Writable`).  Whatever was chosen for each field, the row is
  read as the command that was written (`command_bytes`).
-/

import LoadBench.Proofs.Text.Utf8
import LoadBench.Row.Command

namespace LoadBench.Row

/-! ## Writing -/

/-- A field, and how it is written. -/
structure Field where
  text : String
  isQuoted : Bool
  deriving DecidableEq, Repr

namespace Field

/-- The characters a character is written as in a quoted field. -/
def escape (c : Char) : List Char := if c = '"' then ['"', '"'] else [c]

/-- What is written for a field. -/
def written (field : Field) : List Char :=
  if field.isQuoted then '"' :: field.text.toList.flatMap escape ++ ['"'] else field.text.toList

/-- Whether a field may be written in the way chosen for it. -/
structure Writable (field : Field) : Prop where
  lineFeed : '\n' ∉ field.text.toList
  comma : field.isQuoted = false → ',' ∉ field.text.toList
  carriageReturn : field.isQuoted = false → '\r' ∉ field.text.toList
  quote : field.isQuoted = false → field.text.toList.head? ≠ some '"'

instance (field : Field) : Decidable field.Writable :=
  decidable_of_iff
    ('\n' ∉ field.text.toList ∧ (field.isQuoted = false →
      ',' ∉ field.text.toList ∧ '\r' ∉ field.text.toList ∧ field.text.toList.head? ≠ some '"'))
    ⟨fun h => ⟨h.1, fun hbare => (h.2 hbare).1, fun hbare => (h.2 hbare).2.1,
      fun hbare => (h.2 hbare).2.2⟩,
    fun h => ⟨h.lineFeed, fun hbare => ⟨h.comma hbare, h.carriageReturn hbare, h.quote hbare⟩⟩⟩

end Field

/-- A row to be written. -/
structure Draft where
  label : Field
  query : Field
  name : Field
  args : List Field
  deriving DecidableEq, Repr

namespace Draft

/-- The fields in their order. -/
def fields (draft : Draft) : List Field := draft.label :: draft.query :: draft.name :: draft.args

/-- What is written: the fields with commas between them. -/
def written (draft : Draft) : List Char := [','].intercalate (draft.fields.map Field.written)

/-- The bytes of the row. -/
def bytes (draft : Draft) : List UInt8 := Utf8.encode draft.written

/-- The command that is meant. -/
def command (draft : Draft) : Command where
  label := draft.label.text
  query := draft.query.text
  name := draft.name.text
  args := draft.args.map Field.text
  size := draft.bytes.length - Utf8.size draft.label.text

/-- Whether the fields may be written in the ways chosen for them. A byte order mark at the start of
the row would not be part of the first one. -/
structure Writable (draft : Draft) : Prop where
  fields : ∀ field ∈ draft.fields, field.Writable
  mark : draft.label.isQuoted = false →
    draft.label.text.toList.head? ≠ some (Char.ofNat 0xFEFF)

instance (draft : Draft) : Decidable draft.Writable :=
  decidable_of_iff
    ((∀ field ∈ draft.fields, field.Writable) ∧ (draft.label.isQuoted = false →
      draft.label.text.toList.head? ≠ some (Char.ofNat 0xFEFF)))
    ⟨fun h => ⟨h.1, h.2⟩, fun h => ⟨h.fields, h.mark⟩⟩

end Draft

/-! ## Reading the bytes of one field -/

/-- The fields behind a field: none at the end of the row. -/
def behind : List UInt8 → List (List UInt8)
  | [] => []
  | _ :: more => (fields .start more).1 :: (fields .start more).2

/-- Whether a field is at its end. -/
def Ends (bytes : List UInt8) : Prop := bytes = [] ∨ ∃ more, bytes = comma :: more

theorem Ends.fields_eq {tail : List UInt8} (h : Ends tail) {place : Place}
    (hplace : place ≠ .quoted) : fields place tail = ([], behind tail) := by
  obtain rfl | ⟨more, rfl⟩ := h
  · cases place <;> rfl
  · cases place with
    | quoted => exact absurd rfl hplace
    | _ => rfl

/-- Bytes that are neither separators nor line ends are taken as they are. -/
theorem fields_bare {field : List UInt8} (hcomma : comma ∉ field)
    (hend : ∀ byte ∈ field, isEnd byte = false) {tail : List UInt8} (htail : Ends tail) :
    fields .bare (field ++ tail) = (field, behind tail) := by
  induction field with
  | nil => exact htail.fields_eq (by decide)
  | cons byte rest ih =>
    obtain ⟨hbyte, hrest⟩ := not_or.mp (mt List.mem_cons.mpr hcomma)
    obtain ⟨hbyteEnd, hrestEnd⟩ := List.forall_mem_cons.mp hend
    have hread : fields .bare (byte :: (rest ++ tail)) =
        (byte :: (fields .bare (rest ++ tail)).1, (fields .bare (rest ++ tail)).2) := by
      simp [fields, Ne.symm hbyte, hbyteEnd]
    rw [List.cons_append, hread, ih hrest hrestEnd]

/-- So they are at the start of a field, if the first of them is no quotation mark. -/
theorem fields_start {field : List UInt8} (hcomma : comma ∉ field)
    (hend : ∀ byte ∈ field, isEnd byte = false) (hquote : field.head? ≠ some quote)
    {tail : List UInt8} (htail : Ends tail) :
    fields .start (field ++ tail) = (field, behind tail) := by
  cases field with
  | nil => exact htail.fields_eq (by decide)
  | cons byte rest =>
    obtain ⟨hbyte, hrest⟩ := not_or.mp (mt List.mem_cons.mpr hcomma)
    obtain ⟨hbyteEnd, hrestEnd⟩ := List.forall_mem_cons.mp hend
    have hplain : byte ≠ quote := fun heq => hquote (congrArg some heq)
    have hread : fields .start (byte :: (rest ++ tail)) =
        (byte :: (fields .bare (rest ++ tail)).1, (fields .bare (rest ++ tail)).2) := by
      simp [fields, hplain, Ne.symm hbyte, hbyteEnd]
    rw [List.cons_append, hread, fields_bare hrest hrestEnd htail]

/-- The bytes a byte is written as in a quoted field. -/
def escapeByte (byte : UInt8) : List UInt8 := if byte = quote then [quote, quote] else [byte]

/-- Behind a quotation mark any bytes are taken up to the closing mark, and two marks for one. -/
theorem fields_quoted (field : List UInt8) {tail : List UInt8} (htail : Ends tail) :
    fields .quoted (field.flatMap escapeByte ++ quote :: tail) = (field, behind tail) := by
  induction field with
  | nil => exact htail.fields_eq (by decide)
  | cons byte rest ih =>
    rw [List.flatMap_cons, List.append_assoc, escapeByte]
    by_cases hquote : byte = quote
    · subst hquote
      -- The first mark may close the field, and the second says that it does not.
      have hread : ∀ more, fields .quoted (quote :: quote :: more) =
          (quote :: (fields .quoted more).1, (fields .quoted more).2) := fun _ => rfl
      rw [if_pos rfl, List.cons_append, List.cons_append, List.nil_append, hread, ih]
    · have hread : ∀ more, fields .quoted (byte :: more) =
          (byte :: (fields .quoted more).1, (fields .quoted more).2) := by
        intro more
        simp [fields, hquote]
      rw [if_neg hquote, List.cons_append, List.nil_append, hread, ih]

/-! ## Reading a written field -/

theorem encode_flatMap_escape (text : List Char) :
    Utf8.encode (text.flatMap Field.escape) = (Utf8.encode text).flatMap escapeByte := by
  induction text with
  | nil => rfl
  | cons c rest ih =>
    rw [List.flatMap_cons, Utf8.encode_append, ih, Utf8.encode_cons, List.flatMap_append]
    congr 1
    by_cases hquote : c = '"'
    · subst hquote
      rfl
    · -- No other character has a quotation mark among its bytes.
      have hplain : ∀ byte ∈ Utf8.encodeChar c, escapeByte byte = [byte] := by
        intro byte hbyte
        refine if_neg fun heq => hquote ?_
        have hmem : byte ∈ Utf8.encode [c] := List.mem_append_left _ hbyte
        have hchar := Utf8.mem_encode_ascii (by rw [heq]; decide) hmem
        rw [heq] at hchar
        exact (List.mem_singleton.mp hchar).symm
      rw [Field.escape, if_neg hquote, List.flatMap_congr hplain, List.flatMap_singleton']
      exact List.append_nil _

theorem fields_written {field : Field} (h : field.Writable) {tail : List UInt8}
    (htail : Ends tail) :
    fields .start (Utf8.encode field.written ++ tail) =
      (Utf8.encode field.text.toList, behind tail) := by
  unfold Field.written
  cases hquoted : field.isQuoted with
  | true =>
    have hopen : ∀ more, fields .start (quote :: more) = fields .quoted more := fun _ => rfl
    have hmark : ∀ text, Utf8.encode ('"' :: text) = quote :: Utf8.encode text := fun _ => rfl
    rw [if_pos rfl, List.cons_append, hmark, Utf8.encode_append, encode_flatMap_escape,
      List.cons_append, hopen, List.append_assoc]
    exact fields_quoted _ htail
  | false =>
    rw [if_neg Bool.false_ne_true]
    refine fields_start ?_ ?_ ?_ htail
    · exact fun hmem => h.comma hquoted (Utf8.mem_encode_ascii (by decide) hmem)
    · intro byte hbyte
      rw [isEnd, Bool.or_eq_false_iff, decide_eq_false_iff_not, decide_eq_false_iff_not]
      refine ⟨?_, ?_⟩
      · rintro rfl
        exact h.lineFeed (Utf8.mem_encode_ascii (by decide) hbyte)
      · rintro rfl
        exact h.carriageReturn hquoted (Utf8.mem_encode_ascii (by decide) hbyte)
    · exact fun hhead => h.quote hquoted (Utf8.head?_encode_ascii (by decide) hhead)

theorem fields_intercalate (first : Field) (others : List Field)
    (h : ∀ field ∈ first :: others, field.Writable) :
    fields .start (Utf8.encode ([','].intercalate ((first :: others).map Field.written))) =
      (Utf8.encode first.text.toList, others.map fun field => Utf8.encode field.text.toList) := by
  induction others generalizing first with
  | nil =>
    have hfirst := fields_written (h first (List.mem_singleton_self _)) (Or.inl rfl)
    rw [List.append_nil] at hfirst
    rw [List.map_singleton, List.intercalate_singleton]
    exact hfirst
  | cons second others ih =>
    obtain ⟨hfirst, hothers⟩ := List.forall_mem_cons.mp h
    have hcomma : ∀ text, Utf8.encode ([','] ++ text) = comma :: Utf8.encode text := fun _ => rfl
    rw [List.map_cons, List.map_cons, List.intercalate_cons_cons, List.append_assoc,
      Utf8.encode_append, hcomma, fields_written hfirst (Or.inr ⟨_, rfl⟩), ← List.map_cons,
      behind, ih second hothers]
    rfl

/-! ## Reading a written row -/

namespace Draft

variable {draft : Draft}

/-- A row starts with a quotation mark, with a comma, or with its label. -/
theorem head?_written {c : Char} (h : draft.written.head? = some c) :
    c = '"' ∨ c = ',' ∨
      draft.label.isQuoted = false ∧ draft.label.text.toList.head? = some c := by
  rw [written, fields, List.map_cons, List.map_cons, List.intercalate_cons_cons] at h
  unfold Field.written at h
  cases hquoted : draft.label.isQuoted with
  | true =>
    rw [hquoted, if_pos rfl] at h
    exact Or.inl (Option.some.inj h).symm
  | false =>
    rw [hquoted, if_neg Bool.false_ne_true] at h
    cases htext : draft.label.text.toList with
    | nil =>
      rw [htext] at h
      exact Or.inr (Or.inl (Option.some.inj h).symm)
    | cons first rest =>
      rw [htext] at h
      exact Or.inr (Or.inr ⟨rfl, h⟩)

theorem written_ne_nil (draft : Draft) : draft.written ≠ [] := by
  rw [written, fields, List.map_cons, List.map_cons, List.intercalate_cons_cons]
  simp

theorem bytes_ne_nil (draft : Draft) : draft.bytes ≠ [] := by
  intro hempty
  have hread := Utf8.read_encode draft.written
  rw [show Utf8.encode draft.written = [] from hempty, Utf8.read] at hread
  exact draft.written_ne_nil (Utf8.Reading.mk.inj hread).1.symm

theorem Writable.dropMark_bytes (h : draft.Writable) : dropMark draft.bytes = draft.bytes := by
  unfold dropMark
  split
  · next rest hmark =>
    have hhead := Utf8.head?_of_mark hmark
    rcases head?_written hhead with hquote | hcomma | ⟨hbare, hlabel⟩
    · exact absurd hquote (by decide)
    · exact absurd hcomma (by decide)
    · exact absurd hlabel (h.mark hbare)
  · rfl

/-- A row does not start with a line end. -/
theorem Writable.dropWhile_bytes (h : draft.Writable) :
    draft.bytes.dropWhile isEnd = draft.bytes := by
  have hlabel := h.fields draft.label (List.mem_cons_self ..)
  cases hbytes : draft.bytes with
  | nil => rfl
  | cons byte rest =>
    refine List.dropWhile_cons_of_neg fun hend => ?_
    rw [isEnd, Bool.or_eq_true, decide_eq_true_eq, decide_eq_true_eq] at hend
    have hsmall : byte.toNat < 0x80 := by rcases hend with rfl | rfl <;> decide
    have hfirst : (Utf8.encode draft.written).head? = some byte := congrArg List.head? hbytes
    have hhead := Utf8.head?_encode_ascii hsmall hfirst
    rcases head?_written hhead with hquote | hcomma | ⟨hbare, hstart⟩
    · rcases hend with rfl | rfl <;> exact absurd hquote (by decide)
    · rcases hend with rfl | rfl <;> exact absurd hcomma (by decide)
    · have hmem := List.mem_of_mem_head? hstart
      rcases hend with rfl | rfl
      · exact hlabel.lineFeed hmem
      · exact hlabel.carriageReturn hbare hmem

theorem Writable.record?_bytes (h : draft.Writable) :
    record? draft.bytes = some (draft.fields.map fun field => Utf8.encode field.text.toList) := by
  unfold record?
  rw [h.dropMark_bytes, h.dropWhile_bytes]
  have hread := fields_intercalate _ _ h.fields
  cases hbytes : draft.bytes with
  | nil => exact absurd hbytes draft.bytes_ne_nil
  | cons byte rest =>
    dsimp only
    rw [← hbytes]
    show some ((Row.fields .start (Utf8.encode draft.written)).1 ::
      (Row.fields .start (Utf8.encode draft.written)).2) = _
    rw [show Row.fields .start (Utf8.encode draft.written) = _ from hread]
    rfl

end Draft

/-- Texts are read back from their bytes. -/
theorem texts_ofString (index : Nat) (result : List String) :
    texts index (result.map Utf8.ofString) = .ok result := by
  induction result generalizing index with
  | nil => rfl
  | cons text others ih =>
    rw [List.map_cons, texts, Utf8.ofString, Utf8.decode_encode]
    dsimp only
    rw [ih, String.ofList_toList]

theorem texts_encode (index : Nat) (fields : List Field) :
    texts index (fields.map fun field => Utf8.encode field.text.toList) =
      .ok (fields.map Field.text) := by
  have hread := texts_ofString index (fields.map Field.text)
  rwa [List.map_map] at hread

theorem Field.size_le (field : Field) :
    Utf8.size field.text ≤ (Utf8.encode field.written).length := by
  have hescape : ∀ text : List Char,
      (Utf8.encode text).length ≤ (Utf8.encode (text.flatMap Field.escape)).length := by
    intro text
    induction text with
    | nil => exact Nat.le_refl _
    | cons c rest ih =>
      unfold Field.escape at ih ⊢
      rw [List.flatMap_cons, Utf8.encode_append, Utf8.encode_cons, List.length_append,
        List.length_append]
      by_cases hquote : c = '"'
      · rw [if_pos hquote, Utf8.encode_cons, List.length_append, hquote]
        omega
      · rw [if_neg hquote, Utf8.encode_cons, List.length_append]
        omega
  unfold Utf8.size Utf8.ofString Field.written
  cases field.isQuoted with
  | true =>
    rw [if_pos rfl, List.cons_append, Utf8.encode_cons, Utf8.encode_append, List.length_append,
      List.length_append]
    have hle := hescape field.text.toList
    omega
  | false =>
    refine Nat.le_of_eq ?_
    rw [if_neg Bool.false_ne_true]

namespace Draft

variable {draft : Draft}

/-- The label is a part of the row. -/
theorem size_label_le (draft : Draft) : Utf8.size draft.label.text ≤ draft.bytes.length := by
  refine Nat.le_trans draft.label.size_le ?_
  rw [bytes, written, fields, List.map_cons, List.map_cons, List.intercalate_cons_cons,
    Utf8.encode_append, Utf8.encode_append, List.append_assoc, List.length_append]
  exact Nat.le_add_right _ _

/-- A written row is read as the command that is meant. -/
theorem Writable.command_bytes (h : draft.Writable) :
    Row.command draft.bytes = .ok draft.command := by
  unfold Row.command
  rw [h.record?_bytes]
  dsimp only
  rw [texts_encode]
  show Except.ok (Command.mk _ _ _ _ (draft.bytes.length -
    Nat.min (Utf8.size draft.label.text) draft.bytes.length)) = _
  rw [show Nat.min (Utf8.size draft.label.text) draft.bytes.length = _ from
    Nat.min_eq_left draft.size_label_le]
  rfl

end Draft

/-! ## A written row as a line -/

theorem mem_intercalate {c : Char} {texts : List (List Char)} (h : c ∈ [','].intercalate texts) :
    c = ',' ∨ ∃ text ∈ texts, c ∈ text := by
  induction texts with
  | nil => cases h
  | cons first rest ih =>
    cases rest with
    | nil =>
      rw [List.intercalate_singleton] at h
      exact Or.inr ⟨first, List.mem_singleton_self _, h⟩
    | cons second others =>
      rw [List.intercalate_cons_cons, List.mem_append, List.mem_append, List.mem_singleton] at h
      rcases h with (hfirst | hcomma) | hrest
      · exact Or.inr ⟨first, List.mem_cons_self .., hfirst⟩
      · exact Or.inl hcomma
      · refine (ih hrest).imp_right ?_
        rintro ⟨text, htext, hin⟩
        exact ⟨text, List.mem_cons_of_mem _ htext, hin⟩

theorem getLast?_intercalate {c : Char} {texts : List (List Char)}
    (h : ([','].intercalate texts).getLast? = some c) :
    c = ',' ∨ ∃ text ∈ texts, text.getLast? = some c := by
  induction texts with
  | nil => cases h
  | cons first rest ih =>
    cases rest with
    | nil =>
      rw [List.intercalate_singleton] at h
      exact Or.inr ⟨first, List.mem_singleton_self _, h⟩
    | cons second others =>
      rw [List.intercalate_cons_cons, List.getLast?_append] at h
      cases hrest : ([','].intercalate (second :: others)).getLast? with
      | none =>
        rw [hrest, Option.none_or, List.getLast?_concat] at h
        exact Or.inl (Option.some.inj h).symm
      | some last =>
        rw [hrest, Option.some_or] at h
        refine (ih (hrest.trans h)).imp_right ?_
        rintro ⟨text, htext, hin⟩
        exact ⟨text, List.mem_cons_of_mem _ htext, hin⟩

namespace Field

variable {field : Field} {c : Char}

theorem mem_written (h : c ∈ field.written) : c = '"' ∨ c ∈ field.text.toList := by
  unfold written at h
  cases hquoted : field.isQuoted with
  | true =>
    rw [hquoted, if_pos rfl, List.cons_append, List.mem_cons, List.mem_append, List.mem_singleton,
      List.mem_flatMap] at h
    rcases h with hquote | ⟨char, hchar, hescape⟩ | hquote
    · exact Or.inl hquote
    · unfold escape at hescape
      split at hescape
      · simp only [List.mem_cons, List.not_mem_nil, or_false, or_self] at hescape
        exact Or.inl hescape
      · rw [List.mem_singleton.mp hescape]
        exact Or.inr hchar
    · exact Or.inl hquote
  | false =>
    rw [hquoted, if_neg Bool.false_ne_true] at h
    exact Or.inr h

/-- A field ends with a quotation mark or with its text. -/
theorem getLast?_written (h : field.written.getLast? = some c) :
    c = '"' ∨ field.isQuoted = false ∧ c ∈ field.text.toList := by
  unfold written at h
  cases hquoted : field.isQuoted with
  | true =>
    rw [hquoted, if_pos rfl, List.getLast?_concat] at h
    exact Or.inl (Option.some.inj h).symm
  | false =>
    rw [hquoted, if_neg Bool.false_ne_true] at h
    exact Or.inr ⟨rfl, List.mem_of_getLast? h⟩

end Field

namespace Draft.Writable

variable {draft : Draft} (h : draft.Writable)

include h

/-- A row is one line. -/
theorem not_mem_bytes : (10 : UInt8) ∉ draft.bytes := by
  intro hmem
  have hchar : '\n' ∈ draft.written := Utf8.mem_encode_ascii (by decide) hmem
  rcases mem_intercalate hchar with hcomma | ⟨text, htext, hin⟩
  · exact absurd hcomma (by decide)
  · obtain ⟨field, hfield, rfl⟩ := List.mem_map.mp htext
    rcases Field.mem_written hin with hquote | hin
    · exact absurd hquote (by decide)
    · exact (h.fields field hfield).lineFeed hin

/-- A row does not end with a carriage return: that of its line end is not part of it. -/
theorem getLast?_bytes : draft.bytes.getLast? ≠ some 13 := by
  intro hlast
  have hchar : draft.written.getLast? = some '\r' := Utf8.getLast?_encode_ascii (by decide) hlast
  rcases getLast?_intercalate hchar with hcomma | ⟨text, htext, hin⟩
  · exact absurd hcomma (by decide)
  · obtain ⟨field, hfield, rfl⟩ := List.mem_map.mp htext
    rcases Field.getLast?_written hin with hquote | ⟨hbare, hin⟩
    · exact absurd hquote (by decide)
    · exact (h.fields field hfield).carriageReturn hbare hin

end Draft.Writable

end LoadBench.Row
