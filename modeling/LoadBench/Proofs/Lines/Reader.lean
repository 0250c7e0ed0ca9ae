/-
  LoadBench.Proofs.Lines.Reader

  What a reader makes of its bytes.  It takes the line with which they begin, as
  far as its budget allows, and gives what `verdict` says of the line
  (`next_of_begins`).  The pieces in which the bytes arrive do not matter, as long
  as the stream does not fail.

  If all lines are within the limit, the reader gives the lines of its bytes, split
  at the line feeds, without the carriage returns at their ends and without those
  that are then blank (`LineReader.itemsOf`).
-/

import LoadBench.Lines.Reader
import Mathlib.Data.List.DropRight

namespace LoadBench

/-! ## Bytes in pieces -/

namespace Source

/-- Whether a stream never fails. -/
def Reliable (source : Source) : Prop := ∀ message, Piece.failed message ∉ source

/-- The first bytes, up to and including the first line feed, but no more than a budget. -/
def cut : Nat → List UInt8 → List UInt8
  | 0, _ => []
  | _ + 1, [] => []
  | budget + 1, byte :: rest => if byte = lineFeed then [byte] else byte :: cut budget rest

theorem Reliable.tail {piece : Piece} {rest : Source} (h : Reliable (piece :: rest)) :
    Reliable rest :=
  fun message hmem => h message (List.mem_cons_of_mem _ hmem)

@[simp] theorem cut_nil (budget : Nat) : cut budget [] = [] := by
  cases budget <;> rfl

/-- A line feed within the budget ends what is taken. -/
theorem cut_of_lineEndFrom? {before budget length : Nat} {chunk : List UInt8} (more : List UInt8)
    (h : lineEndFrom? before budget chunk = some length) :
    cut budget (chunk ++ more) = chunk.take (length - before) ∧ before < length := by
  fun_induction lineEndFrom? before budget chunk with
  | case1 => cases h
  | case2 => cases h
  | case3 before budget rest =>
    obtain rfl := Option.some.inj h
    rw [List.cons_append, cut, if_pos rfl, Nat.add_sub_cancel_left]
    exact ⟨rfl, Nat.lt_succ_self before⟩
  | case4 before budget byte rest hbyte ih =>
    obtain ⟨hcut, hlt⟩ := ih h
    have hlength : length - before = length - (before + 1) + 1 := by omega
    rw [List.cons_append, cut, if_neg hbyte, hcut, hlength, List.take_succ_cons]
    exact ⟨rfl, by omega⟩

/-- Without a line feed within the budget, taking goes on behind a piece with what is left of the
budget. -/
theorem cut_of_lineEndFrom?_none {before budget : Nat} {chunk : List UInt8} (more : List UInt8)
    (h : lineEndFrom? before budget chunk = none) :
    cut budget (chunk ++ more) = chunk.take budget ++ cut (budget - chunk.length) more := by
  fun_induction lineEndFrom? before budget chunk with
  | case1 =>
    rw [Nat.zero_sub]
    rfl
  | case2 => rfl
  | case3 => cases h
  | case4 before budget byte rest hbyte ih =>
    rw [List.cons_append, cut, if_neg hbyte, ih h, List.take_succ_cons, List.length_cons,
      Nat.succ_sub_succ, List.cons_append]

/-- What is taken from a stream that does not fail depends on its bytes only. -/
theorem readLine_eq {source : Source} (h : source.Reliable) (budget : Nat) :
    ∃ rest, readLine budget source = .taken (cut budget source.content) rest ∧ rest.Reliable ∧
      cut budget source.content ++ rest.content = source.content := by
  fun_induction readLine budget source with
  | case1 source => exact ⟨source, rfl, h, rfl⟩
  | case2 => exact ⟨[], rfl, h, rfl⟩
  | case3 budget rest ih => exact ih h.tail
  | case4 budget message rest => exact absurd List.mem_cons_self (h message)
  | case5 budget chunk rest length hlength =>
    -- The piece has a line feed within the budget, and what is behind it is kept.
    obtain ⟨hcut, -⟩ := cut_of_lineEndFrom? (content rest) hlength
    have hchunk : chunk.take length ++ (chunk.drop length ++ content rest) =
        chunk ++ content rest := by
      rw [← List.append_assoc, List.take_append_drop]
    refine ⟨.bytes (chunk.drop length) :: rest, ?_, ?_, ?_⟩
    · rw [content, hcut]
      rfl
    · rintro message (_ | ⟨_, hmem⟩)
      exact h.tail message hmem
    · rw [content, content, hcut]
      exact hchunk
  | case6 budget chunk rest hnone hlong =>
    -- The budget ends within this piece, and nothing is left of it for the next one.
    have hcut := cut_of_lineEndFrom?_none (content rest) hnone
    rw [Nat.sub_eq_zero_of_le (Nat.le_of_lt hlong), cut, List.append_nil] at hcut
    have hchunk : chunk.take (budget + 1) ++ (chunk.drop (budget + 1) ++ content rest) =
        chunk ++ content rest := by
      rw [← List.append_assoc, List.take_append_drop]
    refine ⟨.bytes (chunk.drop (budget + 1)) :: rest, ?_, ?_, ?_⟩
    · rw [content, hcut]
    · rintro message (_ | ⟨_, hmem⟩)
      exact h.tail message hmem
    · rw [content, content, hcut]
      exact hchunk
  | case7 budget chunk rest hnone hshort ih =>
    -- The whole piece is taken, and what is left of the budget is taken from the others.
    obtain ⟨behind, hread, hreliable, hcontent⟩ := ih h.tail
    have hcut := cut_of_lineEndFrom?_none (content rest) hnone
    rw [List.take_of_length_le (Nat.le_of_not_lt hshort)] at hcut
    refine ⟨behind, ?_, hreliable, ?_⟩
    · rw [hread, content, hcut]
      rfl
    · rw [content, hcut, List.append_assoc, hcontent]

/-- A line that is within the budget is taken with its line feed. -/
theorem cut_line {budget : Nat} {line : List UInt8} (hline : lineFeed ∉ line)
    (hbudget : line.length < budget) (more : List UInt8) :
    cut budget (line ++ lineFeed :: more) = line ++ [lineFeed] := by
  induction line generalizing budget with
  | nil =>
    obtain ⟨less, rfl⟩ := Nat.exists_eq_succ_of_ne_zero (Nat.ne_of_gt hbudget)
    rw [List.nil_append, cut, if_pos rfl]
    rfl
  | cons byte rest ih =>
    obtain ⟨less, rfl⟩ := Nat.exists_eq_succ_of_ne_zero (Nat.ne_zero_of_lt hbudget)
    obtain ⟨hbyte, hrest⟩ := not_or.mp (mt List.mem_cons.mpr hline)
    rw [List.length_cons, Nat.succ_lt_succ_iff] at hbudget
    rw [List.cons_append, cut, if_neg (Ne.symm hbyte), ih hrest hbudget]
    rfl

/-- A last line without a line feed is taken to the end. -/
theorem cut_last {budget : Nat} {line : List UInt8} (hline : lineFeed ∉ line)
    (hbudget : line.length ≤ budget) : cut budget line = line := by
  induction line generalizing budget with
  | nil => exact cut_nil budget
  | cons byte rest ih =>
    obtain ⟨less, rfl⟩ := Nat.exists_eq_succ_of_ne_zero (Nat.ne_zero_of_lt hbudget)
    obtain ⟨hbyte, hrest⟩ := not_or.mp (mt List.mem_cons.mpr hline)
    rw [List.length_cons, Nat.succ_le_succ_iff] at hbudget
    rw [cut, if_neg (Ne.symm hbyte), ih hrest hbudget]

/-- A line that the budget does not reach beyond is cut off. -/
theorem cut_long {budget : Nat} {line : List UInt8} (hline : lineFeed ∉ line)
    (hbudget : budget ≤ line.length) (more : List UInt8) :
    cut budget (line ++ more) = line.take budget := by
  induction line generalizing budget with
  | nil =>
    obtain rfl := Nat.le_zero.mp hbudget
    rfl
  | cons byte rest ih =>
    obtain ⟨hbyte, hrest⟩ := not_or.mp (mt List.mem_cons.mpr hline)
    cases budget with
    | zero => rfl
    | succ budget =>
      rw [List.length_cons, Nat.succ_le_succ_iff] at hbudget
      rw [List.cons_append, cut, if_neg (Ne.symm hbyte), ih hrest hbudget, List.take_succ_cons]

theorem length_cut_le (budget : Nat) (bytes : List UInt8) : (cut budget bytes).length ≤ budget := by
  induction bytes generalizing budget with
  | nil => rw [cut_nil]; exact Nat.zero_le _
  | cons byte rest ih =>
    cases budget with
    | zero => exact Nat.le_refl 0
    | succ budget =>
      rw [cut]
      split
      · exact Nat.succ_le_succ (Nat.zero_le _)
      · exact Nat.succ_le_succ (ih budget)

theorem cut_ne_nil {budget : Nat} {bytes : List UInt8} (hbudget : 0 < budget) (hne : bytes ≠ []) :
    cut budget bytes ≠ [] := by
  obtain ⟨byte, rest, rfl⟩ := List.exists_cons_of_ne_nil hne
  obtain ⟨budget, rfl⟩ := Nat.exists_eq_succ_of_ne_zero (Nat.ne_of_gt hbudget)
  rw [cut]
  split <;> exact List.cons_ne_nil _ _

/-- What is taken of bytes is at most one line, with or without its line feed. -/
theorem cut_cases (budget : Nat) (bytes : List UInt8) :
    ∃ line, lineFeed ∉ line ∧
      (cut budget bytes = line ++ [lineFeed] ∨ cut budget bytes = line) := by
  induction bytes generalizing budget with
  | nil => exact ⟨[], List.not_mem_nil, Or.inr (cut_nil budget)⟩
  | cons byte rest ih =>
    cases budget with
    | zero => exact ⟨[], List.not_mem_nil, Or.inr rfl⟩
    | succ budget =>
      rw [cut]
      by_cases hbyte : byte = lineFeed
      · rw [if_pos hbyte, hbyte]
        exact ⟨[], List.not_mem_nil, Or.inl rfl⟩
      · obtain ⟨line, hline, hcut⟩ := ih budget
        rw [if_neg hbyte]
        refine ⟨byte :: line, ?_, ?_⟩
        · exact fun hmem => (List.mem_cons.mp hmem).elim (Ne.symm hbyte) hline
        · exact hcut.imp (congrArg (byte :: ·)) (congrArg (byte :: ·))

theorem cut_cut (budget : Nat) (bytes : List UInt8) :
    cut budget (cut budget bytes) = cut budget bytes := by
  induction bytes generalizing budget with
  | nil => rw [cut_nil, cut_nil]
  | cons byte rest ih =>
    cases budget with
    | zero => rfl
    | succ budget =>
      by_cases hbyte : byte = lineFeed
      · rw [cut, if_pos hbyte, cut, if_pos hbyte]
      · rw [cut, if_neg hbyte, cut, if_neg hbyte, ih]

/-- What is taken from a stream, even from one that fails later, is what is taken of bytes. -/
theorem cut_of_readLine {budget : Nat} {source rest : Source} {bytes : List UInt8}
    (h : readLine budget source = .taken bytes rest) : cut budget bytes = bytes := by
  fun_induction readLine budget source generalizing bytes rest with
  | case1 source =>
    cases h
    rfl
  | case2 =>
    cases h
    rfl
  | case3 budget rest ih => exact ih h
  | case4 budget message rest => cases h
  | case5 budget chunk rest length hlength =>
    obtain ⟨hcut, -⟩ := cut_of_lineEndFrom? [] hlength
    cases h
    rw [List.append_nil] at hcut
    exact hcut ▸ cut_cut (budget + 1) chunk
  | case6 budget chunk rest hnone hlong =>
    have hcut := cut_of_lineEndFrom?_none [] hnone
    rw [List.append_nil, cut_nil, List.append_nil] at hcut
    cases h
    exact hcut ▸ cut_cut (budget + 1) chunk
  | case7 budget chunk others hnone hshort ih =>
    cases hmore : readLine (budget + 1 - chunk.length) others with
    | failed message left =>
      rw [hmore] at h
      cases h
    | taken more left =>
      have hcut := cut_of_lineEndFrom?_none more hnone
      rw [hmore] at h
      cases h
      rw [hcut, ih hmore, List.take_of_length_le (Nat.le_of_not_lt hshort)]

end Source

/-! ## Lines -/

namespace LineReader

open Source (lineFeed)

/-- The carriage return. -/
def carriageReturn : UInt8 := 13

/-- The lines of bytes, without their line feeds. -/
def linesOf (bytes : List UInt8) : List (List UInt8) := bytes.splitOn lineFeed

/-- The items of bytes: the lines without the carriage returns at their ends, but for those that
are blank. -/
def itemsOf (bytes : List UInt8) : List (List UInt8) :=
  ((linesOf bytes).map fun line => line.rdropWhile (· == carriageReturn)).filter (!·.isEmpty)

/-- Whether a line is within a limit. A carriage return in front of its line feed does not count. -/
def Fits (limit : UInt64) (line : List UInt8) : Prop :=
  (if line.getLast? = some carriageReturn then line.dropLast else line).length ≤ limit.toNat

instance (limit : UInt64) (line : List UInt8) : Decidable (Fits limit line) :=
  inferInstanceAs (Decidable (_ ≤ _))

/-! ### One line -/

/-- A line without its last carriage return is not much shorter than the line. -/
theorem Fits.length_le {limit : UInt64} {line : List UInt8} (h : Fits limit line) :
    line.length ≤ limit.toNat + 1 := by
  unfold Fits at h
  split at h
  · rw [List.length_dropLast] at h
    omega
  · exact Nat.le_succ_of_le h

/-- The item of a line that is within the limit is so, too. -/
theorem Fits.item_le {limit : UInt64} {line : List UInt8} (h : Fits limit line) :
    (line.rdropWhile (· == carriageReturn)).length ≤ limit.toNat := by
  unfold Fits at h
  -- A carriage return at the end of the line does not count, and is not in the item either.
  split at h
  · next hreturn =>
    obtain ⟨front, rfl⟩ := List.getLast?_eq_some_iff.mp hreturn
    rw [List.dropLast_concat] at h
    rw [List.rdropWhile_concat, beq_self_eq_true, if_pos rfl]
    exact Nat.le_trans (List.rdropWhile_prefix _ front).length_le h
  · exact Nat.le_trans (List.rdropWhile_prefix _ line).length_le h

/-- At the end of a line only its carriage returns are left out. -/
theorem stripEnd_eq {line : List UInt8} (hline : lineFeed ∉ line) :
    stripEnd line = line.rdropWhile (· == carriageReturn) := by
  induction line using List.reverseRecOn with
  | nil => rfl
  | append_singleton front byte ih =>
    rw [List.mem_append, List.mem_singleton, not_or] at hline
    -- The line has no line feed, so a line end is a carriage return.
    have hend : isLineEnd byte = (byte == carriageReturn) := by
      have hne : decide (byte = 10) = false := decide_eq_false (Ne.symm hline.2)
      rw [isLineEnd, hne, Bool.false_or]
      rfl
    have hconcat : stripEnd (front ++ [byte]) =
        if isLineEnd byte = true then stripEnd front else front ++ [byte] :=
      List.rdropWhile_concat isLineEnd front byte
    rw [hconcat, List.rdropWhile_concat, hend, ih hline.1]

theorem stripEnd_concat (line : List UInt8) : stripEnd (line ++ [lineFeed]) = stripEnd line :=
  List.rdropWhile_concat_pos isLineEnd line lineFeed rfl

/-- It does not matter whether the line feed was taken with the line. -/
theorem stripEnd_of_taken {line taken : List UInt8} (hline : lineFeed ∉ line)
    (htaken : taken = line ++ [lineFeed] ∨ taken = line) :
    stripEnd taken = line.rdropWhile (· == carriageReturn) := by
  rcases htaken with rfl | rfl
  · rw [stripEnd_concat, stripEnd_eq hline]
  · exact stripEnd_eq hline

/-- The item of a line, if it is not blank. -/
def item? (line : List UInt8) : Option (List UInt8) :=
  let item := line.rdropWhile (· == carriageReturn)
  if item = [] then none else some item

/-- What comes of the line of a number: its item, nothing, or a fault. -/
def verdict (limit : UInt64) (number : Nat) (line : List UInt8) :
    Except LineFault (Option (List UInt8)) :=
  let item := line.rdropWhile (· == carriageReturn)
  if limit.toNat + 1 < line.length then .error (.endless number limit.toNat)
  else if limit.toNat < item.length then .error (.tooLong number item.length limit.toNat)
  else .ok (item? line)

/-- A line that is within the limit is judged to be its item. -/
theorem Fits.verdict_eq {limit : UInt64} {line : List UInt8} (h : Fits limit line) (number : Nat) :
    verdict limit number line = .ok (item? line) := by
  unfold verdict
  rw [if_neg (Nat.not_lt.mpr h.length_le)]
  rw [if_neg (Nat.not_lt.mpr h.item_le)]

section

variable {limit : UInt64} {line : List UInt8}

/-- A verdict that is no fault is about a line that the budget is enough for. -/
theorem length_le_of_verdict {number : Nat} {item : Option (List UInt8)}
    (h : verdict limit number line = .ok item) : line.length ≤ limit.toNat + 1 := by
  unfold verdict at h
  by_cases hlong : limit.toNat + 1 < line.length
  · rw [if_pos hlong] at h
    cases h
  · exact Nat.le_of_not_lt hlong

/-- A line that is taken whole, with its line feed or at the end, is judged by what it is. -/
theorem judge_whole (hline : lineFeed ∉ line) (hlength : line.length ≤ limit.toNat + 1)
    {taken : List UInt8} (htaken : taken = line ++ [lineFeed] ∨ taken = line) (number : Nat) :
    judge limit number taken = verdict limit number line := by
  -- A line that was cut off fills the budget, and this one is shorter or has its line feed.
  have hended : ¬(taken.length = budget limit ∧ taken.getLast? ≠ some lineFeed) := by
    rintro ⟨hfull, hlast⟩
    rcases htaken with rfl | rfl
    · exact hlast List.getLast?_concat
    · rw [budget] at hfull
      omega
  unfold judge verdict item?
  rw [if_neg hended, stripEnd_of_taken hline htaken, if_neg (Nat.not_lt.mpr hlength)]
  dsimp only
  by_cases hblank : line.rdropWhile (· == carriageReturn) = []
  · rw [hblank]
    rfl
  · rw [if_neg hblank, if_neg (mt List.isEmpty_iff.mp hblank)]

/-- A line that is cut off is judged to have no end. -/
theorem judge_cut (hline : lineFeed ∉ line) (hlength : limit.toNat + 1 < line.length)
    (number : Nat) : judge limit number (line.take (budget limit)) = verdict limit number line := by
  have hfull : (line.take (budget limit)).length = budget limit := List.length_take_of_le hlength
  have hlast : (line.take (budget limit)).getLast? ≠ some lineFeed :=
    fun hfeed => hline (List.mem_of_mem_take (List.mem_of_getLast? hfeed))
  unfold judge verdict
  rw [if_pos ⟨hfull, hlast⟩, if_pos hlength]

end

theorem item?_toList (line : List UInt8) :
    [line.rdropWhile (· == carriageReturn)].filter (!·.isEmpty) = (item? line).toList := by
  unfold item?
  cases hblank : line.rdropWhile (· == carriageReturn) <;> rfl

theorem linesOf_line {line : List UInt8} (hline : lineFeed ∉ line) (more : List UInt8) :
    linesOf (line ++ lineFeed :: more) = line :: linesOf more :=
  List.splitOn_append_cons_self_of_not_mem hline more

theorem linesOf_last {line : List UInt8} (hline : lineFeed ∉ line) : linesOf line = [line] :=
  List.splitOn_eq_singleton hline

theorem itemsOf_line {line : List UInt8} (hline : lineFeed ∉ line) (more : List UInt8) :
    itemsOf (line ++ lineFeed :: more) = (item? line).toList ++ itemsOf more := by
  rw [itemsOf, linesOf_line hline, List.map_cons, ← List.singleton_append, List.filter_append,
    item?_toList]
  rfl

theorem itemsOf_last {line : List UInt8} (hline : lineFeed ∉ line) :
    itemsOf line = (item? line).toList := by
  rw [itemsOf, linesOf_last hline, List.map_singleton, item?_toList]

/-! ### The first line -/

/-- Whether bytes begin with a line, which a line feed ends or else the bytes do, and more follow. -/
structure Begins (bytes line more : List UInt8) : Prop where
  line_eq : lineFeed ∉ line
  bytes_eq : bytes = line ++ lineFeed :: more ∨ bytes = line ∧ more = []

theorem exists_begins (bytes : List UInt8) : ∃ line more, Begins bytes line more := by
  by_cases hmem : lineFeed ∈ bytes
  · obtain ⟨line, more, rfl, hline⟩ := List.eq_append_cons_of_mem hmem
    exact ⟨line, more, hline, Or.inl rfl⟩
  · exact ⟨bytes, [], hmem, Or.inr ⟨rfl, rfl⟩⟩

namespace Begins

variable {bytes line more : List UInt8} (h : Begins bytes line more)

include h

theorem itemsOf_eq : itemsOf bytes = (item? line).toList ++ itemsOf more := by
  obtain ⟨hline, rfl | ⟨rfl, rfl⟩⟩ := h
  · exact itemsOf_line hline more
  · rw [itemsOf_last hline]
    exact (List.append_nil _).symm

/-- What holds of all lines holds of the first one and of those that follow. -/
theorem forall_linesOf {P : List UInt8 → Prop} (hnil : P []) (hall : ∀ line ∈ linesOf bytes, P line) :
    P line ∧ ∀ line ∈ linesOf more, P line := by
  obtain ⟨hline, rfl | ⟨rfl, rfl⟩⟩ := h
  · rw [linesOf_line hline] at hall
    exact List.forall_mem_cons.mp hall
  · rw [linesOf_last hline] at hall
    exact ⟨List.forall_mem_singleton.mp hall, List.forall_mem_singleton.mpr hnil⟩

theorem length_lt (hne : bytes ≠ []) : more.length < bytes.length := by
  rcases h.bytes_eq with rfl | ⟨rfl, rfl⟩
  · rw [List.length_append, List.length_cons]
    omega
  · exact List.length_pos_iff.mpr hne

variable {limit : UInt64}

/-- What is taken of the first line, whole or cut off, is judged by what the line is. -/
theorem judge_eq (number : Nat) :
    judge limit number (Source.cut (budget limit) bytes) = verdict limit number line := by
  obtain ⟨hline, hbytes⟩ := h
  by_cases hlength : line.length ≤ limit.toNat + 1
  · have hwithin : line.length < budget limit := Nat.lt_succ_of_le hlength
    rcases hbytes with rfl | ⟨rfl, -⟩
    · rw [Source.cut_line hline hwithin]
      exact judge_whole hline hlength (Or.inl rfl) number
    · rw [Source.cut_last hline (Nat.le_of_lt hwithin)]
      exact judge_whole hline hlength (Or.inr rfl) number
  · have hlong : limit.toNat + 1 < line.length := Nat.lt_of_not_le hlength
    have hcut : ∀ behind, Source.cut (budget limit) (line ++ behind) = line.take (budget limit) :=
      Source.cut_long hline hlong
    rw [← judge_cut hline hlong]
    rcases hbytes with rfl | ⟨rfl, -⟩
    · rw [hcut]
    · rw [← hcut [], List.append_nil]

/-- The first line is taken whole if the budget is enough for it. -/
theorem cut_eq {left : List UInt8} (hlength : line.length ≤ limit.toNat + 1)
    (hcut : Source.cut (budget limit) bytes ++ left = bytes) :
    left = more ∧ (Source.cut (budget limit) bytes = line ++ [lineFeed] ∨ more = []) := by
  obtain ⟨hline, hbytes⟩ := h
  have hwithin : line.length < budget limit := Nat.lt_succ_of_le hlength
  rcases hbytes with rfl | ⟨rfl, rfl⟩
  · rw [Source.cut_line hline hwithin] at hcut ⊢
    rw [← List.append_cons] at hcut
    exact ⟨(List.cons.inj (List.append_cancel_left hcut)).2, Or.inl rfl⟩
  · rw [Source.cut_last hline (Nat.le_of_lt hwithin)] at hcut
    exact ⟨List.append_right_eq_self.mp hcut, Or.inr rfl⟩

end Begins

/-! ### The next item -/

/-- A reader takes the first line of its bytes, or as much of it as its budget allows, and goes on as
the verdict on the line says. -/
theorem next_of_begins {reader : LineReader} {line more : List UInt8}
    (hreliable : reader.source.Reliable) (h : Begins reader.source.content line more)
    (hne : reader.source.content ≠ []) :
    ∃ behind taken,
      (behind.limit = reader.limit ∧ behind.lineNumber = reader.lineNumber + 1 ∧
        behind.source.Reliable) ∧
      (reader.source.content = taken ++ behind.source.content ∧
        taken.length ≤ budget reader.limit) ∧
      (line.length ≤ reader.limit.toNat + 1 →
        behind.source.content = more ∧ (taken = line ++ [lineFeed] ∨ more = [])) ∧
      reader.next =
        match verdict reader.limit (reader.lineNumber + 1) line with
        | .error fault => (behind, .error fault)
        | .ok (some item) => (behind, .ok (some item))
        | .ok none => behind.next := by
  obtain ⟨left, hread, hleft, hcontent⟩ := Source.readLine_eq hreliable (budget reader.limit)
  refine ⟨⟨left, reader.lineNumber + 1, reader.limit⟩, _, ⟨rfl, rfl, hleft⟩,
    ⟨hcontent.symm, Source.length_cut_le _ _⟩, fun hlength => h.cut_eq hlength hcontent, ?_⟩
  rw [LineReader.next]
  split
  · next message found hfound =>
    rw [hread] at hfound
    cases hfound
  · next taken found hfound =>
    obtain ⟨rfl, rfl⟩ := Source.Attempt.taken.inj (hread.symm.trans hfound)
    have htaken : Source.cut (budget reader.limit) reader.source.content ≠ [] :=
      Source.cut_ne_nil (Nat.succ_pos _) hne
    rw [← h.judge_eq]
    exact dif_neg htaken

/-- At the end of its bytes a reader gives nothing. -/
theorem next_of_content_nil {reader : LineReader} (hreliable : reader.source.Reliable)
    (hnil : reader.source.content = []) :
    ∃ left, reader.next = ({ reader with source := left }, .ok none) ∧ left.Reliable ∧
      left.content = [] := by
  obtain ⟨left, hread, hleft, hcontent⟩ := Source.readLine_eq hreliable (budget reader.limit)
  rw [hnil, Source.cut_nil] at hread hcontent
  refine ⟨left, ?_, hleft, hcontent⟩
  rw [LineReader.next]
  split
  · next message found hfound =>
    rw [hread] at hfound
    cases hfound
  · next taken found hfound =>
    obtain ⟨rfl, rfl⟩ := Source.Attempt.taken.inj (hread.symm.trans hfound)
    rw [dif_pos rfl]

theorem lineFeed_notMem_of_judge {limit : UInt64} {number budget : Nat} {taken item : List UInt8}
    (htaken : Source.cut budget taken = taken)
    (h : judge limit number taken = .ok (some item)) : lineFeed ∉ item := by
  obtain ⟨line, hline, hcut⟩ := Source.cut_cases budget taken
  rw [htaken] at hcut
  have hitem : item = stripEnd taken := by
    unfold judge at h
    dsimp only at h
    split at h
    · cases h
    · split at h
      · cases h
      · split at h
        · cases h
        · cases h
          rfl
  rw [hitem, stripEnd_of_taken hline hcut]
  exact fun hmem => hline ((List.rdropWhile_prefix _ line).mem hmem)

/-- An item has no line feed, whatever else the stream does. -/
theorem lineFeed_notMem_of_next {reader rest : LineReader} {item : List UInt8}
    (h : reader.next = (rest, .ok (some item))) : lineFeed ∉ item := by
  fun_induction LineReader.next reader with
  | case1 => cases h
  | case2 => cases h
  | case3 => cases (Prod.mk.inj h).2
  | case4 reader line left hread hne _ behind found hjudge =>
    cases (Prod.mk.inj h).2
    exact lineFeed_notMem_of_judge (Source.cut_of_readLine hread) hjudge
  | case5 reader line left hread hne _ behind hjudge ih => exact ih h

/-! ### All items -/

/-- What a reader still gives, if its stream does not fail and all lines are within its limit. -/
structure Gives (reader : LineReader) (items : List (List UInt8)) : Prop where
  reliable : reader.source.Reliable
  fits : ∀ line ∈ linesOf reader.source.content, Fits reader.limit line
  items_eq : itemsOf reader.source.content = items

/-- A reader gives the items of its bytes one by one, and nothing behind the last one. -/
theorem Gives.next {reader : LineReader} {items : List (List UInt8)} (h : reader.Gives items) :
    ∃ rest, reader.next = (rest, .ok items.head?) ∧ rest.Gives items.tail ∧
      rest.limit = reader.limit := by
  -- By induction on the bytes: the reader skips a blank line and goes on behind it.
  induction hsize : reader.source.content.length using Nat.strong_induction_on
    generalizing reader items with
  | _ size ih =>
  subst hsize
  obtain ⟨hreliable, hfits, rfl⟩ := h
  by_cases hnil : reader.source.content = []
  · obtain ⟨left, hnext, hleft, hcontent⟩ := next_of_content_nil hreliable hnil
    rw [hnil] at hfits ⊢
    exact ⟨_, hnext, ⟨hleft, by rw [hcontent]; exact hfits, by rw [hcontent]; rfl⟩, rfl⟩
  · obtain ⟨line, more, hbegins⟩ := exists_begins reader.source.content
    obtain ⟨hfirst, hmore⟩ := hbegins.forall_linesOf (Nat.zero_le _) hfits
    obtain ⟨behind, taken, ⟨hlimit, -, hbehind⟩, -, hwhole, hnext⟩ :=
      next_of_begins hreliable hbegins hnil
    obtain ⟨hleft, -⟩ := hwhole hfirst.length_le
    have hgives : behind.Gives (itemsOf more) :=
      ⟨hbehind, by rw [hleft, hlimit]; exact hmore, by rw [hleft]⟩
    rw [hbegins.itemsOf_eq]
    rw [hfirst.verdict_eq] at hnext
    cases hitem : item? line with
    | some item =>
      rw [hitem] at hnext
      exact ⟨behind, hnext, hgives, hlimit⟩
    | none =>
      rw [hitem] at hnext
      have hless : behind.source.content.length < reader.source.content.length := by
        rw [hleft]
        exact hbegins.length_lt hnil
      obtain ⟨rest, hrest, hrestGives, hrestLimit⟩ := ih _ hless hgives rfl
      exact ⟨rest, hnext.trans hrest, hrestGives, hrestLimit.trans hlimit⟩

end LineReader

end LoadBench
