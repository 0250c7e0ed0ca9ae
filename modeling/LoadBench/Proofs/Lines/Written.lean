/-
  LoadBench.Proofs.Lines.Written

  Rows that are written into lines are read back as the commands that were meant
  (`commands_of_sheet`), in whatever pieces the bytes arrive, and with either line
  end behind each row.

  This needs a line limit under which lines can be read (`LineReader.isReadable`).
  Under the two greatest limits the first read panics, although no row is too long.
-/

import LoadBench.Lines.Workload
import LoadBench.Proofs.Lines.Totals
import LoadBench.Proofs.Row.Written

namespace LoadBench

open Row (Draft)

/-! ## Rows in lines -/

/-- What stands behind a row. -/
inductive LineEnd where
  | feed
  | returnAndFeed
  deriving DecidableEq, Repr

/-- The bytes of a line end. -/
def LineEnd.bytes : LineEnd → List UInt8
  | .feed => [10]
  | .returnAndFeed => [13, 10]

/-- Rows to be written, each with its line end; behind the last row there may be none. -/
structure Sheet where
  ended : List (Draft × LineEnd)
  last : Option Draft
  deriving DecidableEq, Repr

namespace Sheet

/-- The rows in their order. -/
def drafts (sheet : Sheet) : List Draft := sheet.ended.map Prod.fst ++ sheet.last.toList

/-- What is written. -/
def bytes (sheet : Sheet) : List UInt8 :=
  (sheet.ended.flatMap fun row => row.1.bytes ++ row.2.bytes) ++ sheet.last.elim [] Draft.bytes

end Sheet

/-! ## Lines of rows -/

section

variable {draft : Draft} (h : draft.Writable)

include h

theorem item?_bytes : LineReader.item? draft.bytes = some draft.bytes := by
  have hkept : draft.bytes.rdropWhile (· == LineReader.carriageReturn) = draft.bytes := by
    apply List.rdropWhile_eq_self_iff.mpr
    intro hne hreturn
    apply h.getLast?_bytes
    rw [List.getLast?_eq_some_getLast hne, beq_iff_eq.mp hreturn]
    rfl
  rw [LineReader.item?, hkept, if_neg draft.bytes_ne_nil]

theorem fits_bytes {limit : UInt64} (hlimit : draft.bytes.length ≤ limit.toNat) :
    LineReader.Fits limit draft.bytes := by
  have hlast : draft.bytes.getLast? ≠ some LineReader.carriageReturn := h.getLast?_bytes
  unfold LineReader.Fits
  rwa [if_neg hlast]

/-- A row and what stands behind it up to the line feed are a line whose item is the row. -/
theorem exists_line_bytes (lineEnd : LineEnd) :
    ∃ line, draft.bytes ++ lineEnd.bytes = line ++ [Source.lineFeed] ∧ Source.lineFeed ∉ line ∧
      LineReader.item? line = some draft.bytes ∧
      ∀ limit : UInt64, draft.bytes.length ≤ limit.toNat → LineReader.Fits limit line := by
  cases lineEnd with
  | feed =>
    exact ⟨draft.bytes, rfl, h.not_mem_bytes, item?_bytes h, fun _ hlimit => fits_bytes h hlimit⟩
  | returnAndFeed =>
    refine ⟨draft.bytes ++ [LineReader.carriageReturn], ?_, ?_, ?_, ?_⟩
    · rw [List.append_assoc]
      rfl
    · intro hmem
      rcases List.mem_append.mp hmem with hbytes | hreturn
      · exact h.not_mem_bytes hbytes
      · exact absurd (List.mem_singleton.mp hreturn) (by decide)
    · have hdropped := List.rdropWhile_concat_pos (· == LineReader.carriageReturn) draft.bytes
        LineReader.carriageReturn (beq_self_eq_true _)
      have hitem := item?_bytes h
      unfold LineReader.item? at hitem ⊢
      rwa [hdropped]
    · intro limit hlimit
      unfold LineReader.Fits
      rwa [if_pos List.getLast?_concat, List.dropLast_concat]

end

namespace Sheet

/-- The items of a sheet are its rows, and its lines are within a limit that all rows are within. -/
theorem items_bytes (sheet : Sheet) (h : ∀ draft ∈ sheet.drafts, draft.Writable) {limit : UInt64}
    (hlimit : ∀ draft ∈ sheet.drafts, draft.bytes.length ≤ limit.toNat) :
    LineReader.itemsOf sheet.bytes = sheet.drafts.map Draft.bytes ∧
      ∀ line ∈ LineReader.linesOf sheet.bytes, LineReader.Fits limit line := by
  obtain ⟨ended, last⟩ := sheet
  induction ended with
  | nil =>
    cases last with
    | none =>
      refine ⟨rfl, fun line hline => ?_⟩
      obtain rfl := List.mem_singleton.mp hline
      exact Nat.zero_le _
    | some draft =>
      have hwritable := h draft (List.mem_singleton_self _)
      have hline := hwritable.not_mem_bytes
      refine ⟨?_, fun line hmem => ?_⟩
      · show LineReader.itemsOf draft.bytes = [draft.bytes]
        rw [LineReader.itemsOf_last hline, item?_bytes hwritable]
        rfl
      · change line ∈ LineReader.linesOf draft.bytes at hmem
        rw [LineReader.linesOf_last hline, List.mem_singleton] at hmem
        rw [hmem]
        exact fits_bytes hwritable (hlimit draft (List.mem_singleton_self _))
  | cons row rest ih =>
    obtain ⟨draft, lineEnd⟩ := row
    have hdrafts : (Sheet.mk ((draft, lineEnd) :: rest) last).drafts =
        draft :: (Sheet.mk rest last).drafts := rfl
    rw [hdrafts] at h hlimit
    obtain ⟨hwritable, hothers⟩ := List.forall_mem_cons.mp h
    obtain ⟨hfits, hotherLimits⟩ := List.forall_mem_cons.mp hlimit
    obtain ⟨hitems, hlines⟩ := ih hothers hotherLimits
    obtain ⟨line, hbytes, hline, hitem, hlineFits⟩ := exists_line_bytes hwritable lineEnd
    have hsplit : (Sheet.mk ((draft, lineEnd) :: rest) last).bytes =
        line ++ Source.lineFeed :: (Sheet.mk rest last).bytes := by
      rw [bytes, List.flatMap_cons, hbytes, List.append_assoc, List.append_assoc]
      rfl
    rw [hsplit, LineReader.itemsOf_line hline, LineReader.linesOf_line hline, hitem, hitems,
      hdrafts]
    exact ⟨rfl, List.forall_mem_cons.mpr ⟨hlineFits limit hfits, hlines⟩⟩

end Sheet

/-! ## Commands of lines -/

/-- Whether an input gives certain commands, each as the row in one item, and then its end. -/
inductive LineInput.Commands : LineInput → List Command → Prop where
  | ended {input after : LineInput} (hnext : input.next = (after, .ended)) :
    input.Commands []
  | row {input after : LineInput} {line : List UInt8} {command : Command} {rest : List Command}
    (hnext : input.next = (after, .item line)) (hcommand : Row.command line = .ok command)
    (hrest : after.Commands rest) : input.Commands (command :: rest)

theorem LineInput.Holds.commands {drafts : List Draft} (h : ∀ draft ∈ drafts, draft.Writable)
    {input : LineInput} (hholds : input.Holds (drafts.map Draft.bytes)) :
    input.Commands (drafts.map Draft.command) := by
  induction drafts generalizing input with
  | nil =>
    obtain ⟨after, hnext, -⟩ := hholds.next
    exact .ended hnext
  | cons draft rest ih =>
    obtain ⟨hdraft, hrest⟩ := List.forall_mem_cons.mp h
    obtain ⟨after, hnext, hafter⟩ := hholds.next
    exact .row hnext hdraft.command_bytes (ih hrest hafter)

/-- Written rows are read back: from any stream of their bytes, under any limit that no row is
beyond, come the commands that were meant, each with the bytes of its row but those of its label,
and then the end.  Only if 64 bits do not hold the bytes taken for one line, nothing comes: the first
read panics. -/
theorem commands_of_sheet {sheet : Sheet} (h : ∀ draft ∈ sheet.drafts, draft.Writable)
    {source : Source} (hreliable : source.Reliable) (hcontent : source.content = sheet.bytes)
    {limit : UInt64} (hlimit : ∀ draft ∈ sheet.drafts, draft.bytes.length ≤ limit.toNat)
    (buffer : Nat) :
    (LineReader.isReadable limit = true →
      LineInput.Commands ⟨LineReader.start source limit, buffer, none⟩
        (sheet.drafts.map Draft.command)) ∧
    (∀ draft ∈ sheet.drafts,
      draft.command.size + Utf8.size draft.command.label = draft.bytes.length) ∧
    (LineReader.isReadable limit = false →
      (LineInput.mk (LineReader.start source limit) buffer none).next =
        (LineInput.mk (LineReader.start source limit) buffer none, .panicked)) := by
  obtain ⟨hitems, hlines⟩ := sheet.items_bytes h hlimit
  refine ⟨fun hreadable => ?_, fun draft _ => ?_, fun hunreadable => ?_⟩
  · apply LineInput.Holds.commands h
    refine ⟨rfl, hreadable, hreliable, ?_, ?_⟩
    · show ∀ line ∈ LineReader.linesOf source.content, LineReader.Fits limit line
      rw [hcontent]
      exact hlines
    · show LineReader.itemsOf source.content = _
      rw [hcontent]
      exact hitems
  · exact Nat.sub_add_cancel draft.size_label_le
  · have hnot : ¬ LineReader.isReadable limit = true := by
      rw [hunreadable]
      exact Bool.false_ne_true
    exact if_neg hnot

/-- The rows `READ,"R,1",GET,"say ""hi"" "`, with a carriage return in place of the last blank, and
`é,,a"b`, the second without a line end. -/
def twoRows : Sheet :=
  ⟨[(⟨⟨"READ", false⟩, ⟨"R,1", true⟩, ⟨"GET", false⟩, [⟨"say \"hi\"\r", true⟩]⟩, .returnAndFeed)],
    some ⟨⟨"é", false⟩, ⟨"", false⟩, ⟨"a\"b", false⟩, []⟩⟩

/-- The two rows in two pieces. -/
def twoPieces : Source := [.bytes (twoRows.bytes.take 7), .bytes (twoRows.bytes.drop 7)]

theorem commands_twoRows :
    LineInput.Commands ⟨LineReader.start twoPieces 64, 0, none⟩
        (twoRows.drafts.map Draft.command) ∧
      (LineInput.mk (LineReader.start twoPieces 18446744073709551615) 0 none).next =
        (LineInput.mk (LineReader.start twoPieces 18446744073709551615) 0 none, .panicked) := by
  have hwritable : ∀ draft ∈ twoRows.drafts, draft.Writable := by decide
  have hreliable : twoPieces.Reliable := by
    intro message hmem
    simp [twoPieces] at hmem
  have hcontent : twoPieces.content = twoRows.bytes := by
    show twoRows.bytes.take 7 ++ (twoRows.bytes.drop 7 ++ []) = _
    rw [List.append_nil, List.take_append_drop]
  have hlimit : ∀ draft ∈ twoRows.drafts, draft.bytes.length ≤ (64 : UInt64).toNat := by decide
  have hgreatest : ∀ draft ∈ twoRows.drafts,
      draft.bytes.length ≤ (18446744073709551615 : UInt64).toNat := by
    intro draft hdraft
    exact Nat.le_trans (hlimit draft hdraft) (by decide)
  exact ⟨(commands_of_sheet hwritable hreliable hcontent hlimit 0).1 (by decide),
    (commands_of_sheet hwritable hreliable hcontent hgreatest 0).2.2 (by decide)⟩

end LoadBench
