/-
  LoadBench.Proofs.Lines.Pieces

  What a reader gives for any bytes, also for lines beyond its limit.  The bytes
  are split at the line feeds into pieces (`piecesOf`), each piece is an item, is
  blank or is refused (`verdict`), and the reader gives what comes of the pieces
  one by one, up to the first that is refused (`readings_of_stream`).  In which
  pieces of the stream the bytes arrive does not matter.

  A line is taken piece of the stream by piece (`Source.Taking`), and at no moment
  of that more bytes are held than the budget of the line allows.
-/

import LoadBench.Lines.Workload
import LoadBench.Proofs.Lines.Reader
import Mathlib.Logic.Relation

namespace LoadBench

/-! ## Lines while they are taken -/

namespace Source

/-- A line while it is being taken. -/
structure Taking where
  /-- What has been taken of the line. -/
  buffer : List UInt8
  /-- How many bytes more may be taken; none behind the line feed. -/
  left : Nat
  rest : Source
  deriving Repr

namespace Taking

/-- A line of which nothing has been taken. -/
def start (budget : Nat) (source : Source) : Taking := ⟨[], budget, source⟩

/-- Takes what the next piece of the stream has of the line; nothing if the line has ended or the
stream gives no more. -/
def step? (taking : Taking) : Option Taking :=
  match taking.left, taking.rest with
  | 0, _ => none
  | _ + 1, [] => none
  | _ + 1, .failed _ :: _ => none
  | _ + 1, .interrupted :: rest => some { taking with rest }
  | left + 1, .bytes chunk :: rest =>
    match lineEnd? (left + 1) chunk with
    | some length =>
      some ⟨taking.buffer ++ chunk.take length, 0, .bytes (chunk.drop length) :: rest⟩
    | none =>
      if left + 1 < chunk.length then
        some ⟨taking.buffer ++ chunk.take (left + 1), 0, .bytes (chunk.drop (left + 1)) :: rest⟩
      else some ⟨taking.buffer ++ chunk, left + 1 - chunk.length, rest⟩

/-- Whether a line is taken up to a moment. -/
def Reaches : Taking → Taking → Prop :=
  Relation.ReflTransGen fun taking next => taking.step? = some next

/-- Whether no more bytes are held, now or later, than a budget allows. -/
def Within (budget : Nat) (taking : Taking) : Prop := taking.buffer.length + taking.left ≤ budget

end Taking

theorem lineEnd?_le_budget {budget length : Nat} {chunk : List UInt8}
    (h : lineEnd? budget chunk = some length) : length ≤ budget := by
  obtain ⟨hcut, -⟩ := cut_of_lineEndFrom? [] h
  have hlength := congrArg List.length hcut
  rw [Nat.sub_zero, List.length_take, Nat.min_eq_left (lineEnd?_le h)] at hlength
  rw [← hlength]
  exact length_cut_le _ _

namespace Taking

variable {taking next : Taking} {budget : Nat}

/-- What is taken more is taken off what may be taken. -/
theorem Within.step (h : taking.Within budget) (hstep : taking.step? = some next) :
    next.Within budget := by
  obtain ⟨buffer, left, rest⟩ := taking
  unfold Within at h ⊢
  unfold step? at hstep
  dsimp only at h hstep
  split at hstep
  · cases hstep
  · cases hstep
  · cases hstep
  · obtain rfl := Option.some.inj hstep
    exact h
  · next left chunk rest =>
    split at hstep
    · next length hlength =>
      obtain rfl := Option.some.inj hstep
      have hle := lineEnd?_le_budget hlength
      simp only [List.length_append, List.length_take]
      omega
    · split at hstep
      · obtain rfl := Option.some.inj hstep
        simp only [List.length_append, List.length_take]
        omega
      · obtain rfl := Option.some.inj hstep
        simp only [List.length_append]
        omega

theorem Within.reaches (h : taking.Within budget) (hreaches : taking.Reaches next) :
    next.Within budget := by
  induction hreaches with
  | refl => exact h
  | tail _ hstep ih => exact ih.step hstep

/-- The line that is read is what is held at the end of the taking. -/
theorem reaches_of_readLine {source rest : Source} {bytes : List UInt8}
    (h : readLine budget source = .taken bytes rest) (front : List UInt8) :
    ∃ left, Reaches ⟨front, budget, source⟩ ⟨front ++ bytes, left, rest⟩ ∧
      step? ⟨front ++ bytes, left, rest⟩ = none := by
  fun_induction readLine budget source generalizing bytes rest front with
  | case1 source =>
    cases h
    rw [List.append_nil]
    exact ⟨0, .refl, rfl⟩
  | case2 budget =>
    cases h
    rw [List.append_nil]
    exact ⟨budget + 1, .refl, rfl⟩
  | case3 budget behind ih =>
    obtain ⟨left, hreaches, hlast⟩ := ih h front
    exact ⟨left, .head rfl hreaches, hlast⟩
  | case4 => cases h
  | case5 budget chunk behind length hlength =>
    cases h
    refine ⟨0, .single ?_, rfl⟩
    simp only [step?, hlength]
  | case6 budget chunk behind hnone hlong =>
    cases h
    refine ⟨0, .single ?_, rfl⟩
    simp only [step?, hnone, if_pos hlong]
  | case7 budget chunk behind hnone hshort ih =>
    cases hmore : readLine (budget + 1 - chunk.length) behind with
    | failed => simp [hmore, Attempt.behind] at h
    | taken more last =>
      simp only [hmore, Attempt.behind, Attempt.taken.injEq] at h
      obtain ⟨rfl, rfl⟩ := h
      obtain ⟨left, hreaches, hlast⟩ := ih hmore (front ++ chunk)
      rw [List.append_assoc] at hreaches hlast
      refine ⟨left, .head ?_ hreaches, hlast⟩
      simp only [step?, hnone, if_neg hshort]

end Taking

end Source

/-! ## Pieces -/

namespace LineReader

open Source (lineFeed)

/-- The pieces of bytes: their lines, the last one only if there is something in it. -/
def piecesOf (bytes : List UInt8) : List (List UInt8) :=
  if (linesOf bytes).getLast? = some [] then (linesOf bytes).dropLast else linesOf bytes

/-- What is read of pieces, each reading with the number of the pieces so far, if `number` pieces
stand in front of them. -/
def readingsOf (limit : UInt64) : Nat → List (List UInt8) → List (Reading (List UInt8) × Nat)
  | number, [] => [(.ended, number)]
  | number, piece :: rest =>
    match verdict limit (number + 1) piece with
    | .error fault => [(.unreadable fault.fault, number + 1)]
    | .ok none => readingsOf limit (number + 1) rest
    | .ok (some item) => (.item item, number + 1) :: readingsOf limit (number + 1) rest

theorem linesOf_ne_nil (bytes : List UInt8) : linesOf bytes ≠ [] := List.splitOn_ne_nil _ _

theorem piecesOf_nil : piecesOf [] = [] := rfl

theorem piecesOf_line {line : List UInt8} (hline : lineFeed ∉ line) (more : List UInt8) :
    piecesOf (line ++ lineFeed :: more) = line :: piecesOf more := by
  have hmore := linesOf_ne_nil more
  unfold piecesOf
  rw [linesOf_line hline, List.getLast?_cons_of_ne_nil hmore]
  split
  · exact List.dropLast_cons_of_ne_nil hmore
  · rfl

theorem piecesOf_last {line : List UInt8} (hline : lineFeed ∉ line) (hne : line ≠ []) :
    piecesOf line = [line] := by
  unfold piecesOf
  rw [linesOf_last hline, if_neg]
  exact fun hlast => hne (Option.some.inj hlast)

theorem Begins.piecesOf_eq {bytes line more : List UInt8} (h : Begins bytes line more)
    (hne : bytes ≠ []) : piecesOf bytes = line :: piecesOf more := by
  obtain ⟨hline, rfl | ⟨rfl, rfl⟩⟩ := h
  · exact piecesOf_line hline more
  · exact piecesOf_last hline hne

theorem eq_nil_of_piecesOf_eq_nil {bytes : List UInt8} (h : piecesOf bytes = []) : bytes = [] := by
  by_contra hne
  obtain ⟨line, more, hbegins⟩ := exists_begins bytes
  rw [hbegins.piecesOf_eq hne] at h
  cases h

/-- A piece that is refused is refused as it is decoded. -/
theorem kind_of_verdict {limit : UInt64} {number : Nat} {piece : List UInt8} {fault : LineFault}
    (h : verdict limit number piece = .error fault) : fault.fault.kind = .decode := by
  unfold verdict at h
  dsimp only at h
  split at h
  · cases h
    rfl
  · split at h
    · cases h
      rfl
    · cases h

end LineReader

/-! ## Inputs that are read -/

namespace LineInput

/-- What the readings of an input come to, up to its end or to the first that gives no item, each with
the number of lines that have been taken by then; and the input behind them. -/
inductive Readings : LineInput → List (Reading (List UInt8) × Nat) → LineInput → Prop where
  | last {input after : LineInput} {reading : Reading (List UInt8)}
      (hnext : input.next = (after, reading)) (hlast : ∀ item, reading ≠ .item item) :
      Readings input [(reading, after.reader.lineNumber)] after
  | item {input after behind : LineInput} {item : List UInt8}
      {readings : List (Reading (List UInt8) × Nat)}
      (hnext : input.next = (after, .item item)) (hrest : Readings after readings behind) :
      Readings input ((.item item, after.reader.lineNumber) :: readings) behind

/-- Inputs of which the same is read next are read alike. -/
theorem Readings.of_next {input other behind : LineInput}
    {readings : List (Reading (List UInt8) × Nat)} (hnext : input.next = other.next)
    (h : other.Readings readings behind) : input.Readings readings behind := by
  cases h with
  | last hother hlast => exact .last (hnext.trans hother) hlast
  | item hother hrest => exact .item (hnext.trans hother) hrest

/-- Whether an input has been read up to a piece that is beyond the limit, the line of a number: all
pieces before it have been taken, and of the line no more bytes than its budget. -/
def Overrun (input last : LineInput) (number : Nat) : Prop :=
  ∃ before piece behind taken,
    LineReader.piecesOf input.reader.source.content = before ++ piece :: behind ∧
    number = input.reader.lineNumber + before.length + 1 ∧
    input.reader.source.content =
      before.flatMap (· ++ [Source.lineFeed]) ++ taken ++ last.reader.source.content ∧
    taken.length ≤ input.reader.limit.toNat + 2

/-- Whether of an input the readings are had that its pieces come to, and a last one that is refused is
one of a line beyond the limit. -/
structure Follows (input last : LineInput) (readings : List (Reading (List UInt8) × Nat)) : Prop where
  reads : input.Readings readings last
  overruns : ∀ fault number, (.unreadable fault, number) ∈ readings →
    fault.kind = .decode ∧ input.Overrun last number

section

variable {input : LineInput} (hreadable : LineReader.isReadable input.reader.limit = true)

include hreadable

theorem next_eq :
    input.next =
      match input.reader.next with
      | (reader, .ok (some line)) => ({ input with reader }, .item line)
      | (reader, .ok none) => ({ input with reader }, .ended)
      | (reader, .error fault) => ({ input with reader }, .unreadable fault.fault) := by
  unfold LineInput.next
  exact if_pos hreadable

/-- An input without bytes has ended. -/
theorem exists_follows_ended (hreliable : input.reader.source.Reliable)
    (hnil : input.reader.source.content = []) :
    ∃ last, input.Follows last [(.ended, input.reader.lineNumber)] := by
  obtain ⟨left, hnext, -⟩ := LineReader.next_of_content_nil hreliable hnil
  have hended : input.next =
      ({ input with reader := { input.reader with source := left } }, .ended) := by
    rw [next_eq hreadable, hnext]
  have hreads := Readings.last hended fun item hcontra => nomatch hcontra
  refine ⟨_, hreads, fun fault number hmem => ?_⟩
  cases List.mem_singleton.mp hmem

/-- A piece beyond the limit is the last that is read. -/
theorem exists_follows_refused {behind : LineReader} {piece taken : List UInt8}
    {rest : List (List UInt8)} {fault : LineFault}
    (hpieces : LineReader.piecesOf input.reader.source.content = piece :: rest)
    (hnumber : behind.lineNumber = input.reader.lineNumber + 1)
    (hcontent : input.reader.source.content = taken ++ behind.source.content)
    (hbudget : taken.length ≤ LineReader.budget input.reader.limit)
    (hverdict : LineReader.verdict input.reader.limit (input.reader.lineNumber + 1) piece =
      .error fault)
    (hnext : input.reader.next = (behind, .error fault)) :
    ∃ last, input.Follows last [(.unreadable fault.fault, input.reader.lineNumber + 1)] := by
  have hfailed : input.next = ({ input with reader := behind }, .unreadable fault.fault) := by
    rw [next_eq hreadable, hnext]
  have hreads := Readings.last hfailed fun item hcontra => nomatch hcontra
  rw [← hnumber]
  refine ⟨_, hreads, fun other number hmem => ?_⟩
  cases List.mem_singleton.mp hmem
  refine ⟨LineReader.kind_of_verdict hverdict, [], piece, rest, taken, hpieces, ?_, ?_, hbudget⟩
  · rw [hnumber]
    rfl
  · exact hcontent

end

/-- Whether the first piece of an input is taken whole, and what reader stands behind it. -/
structure Takes (input : LineInput) (behind : LineReader) (piece : List UInt8) : Prop where
  pieces_eq : LineReader.piecesOf input.reader.source.content =
    piece :: LineReader.piecesOf behind.source.content
  lineNumber_eq : behind.lineNumber = input.reader.lineNumber + 1
  limit_eq : behind.limit = input.reader.limit
  content_eq : ∃ taken, input.reader.source.content = taken ++ behind.source.content ∧
    (taken = piece ++ [Source.lineFeed] ∨ behind.source.content = [])

namespace Takes

variable {input last : LineInput} {behind : LineReader} {piece : List UInt8}
  (h : input.Takes behind piece)

include h

/-- What is refused behind a piece is refused of an input in front of which the piece stands. -/
theorem overrun {number : Nat} (hbehind : Overrun { input with reader := behind } last number) :
    input.Overrun last number := by
  obtain ⟨taken, hcontent, htaken⟩ := h.content_eq
  obtain ⟨before, beyond, others, more, hpieces, hline, hbytes, hmore⟩ := hbehind
  rcases htaken with rfl | hnil
  · refine ⟨piece :: before, beyond, others, more, ?_, ?_, ?_, ?_⟩
    · rw [h.pieces_eq, hpieces, List.cons_append]
    · rw [hline, h.lineNumber_eq, List.length_cons]
      omega
    · rw [hcontent, hbytes, List.flatMap_cons]
      simp only [List.append_assoc]
    · rw [← h.limit_eq]
      exact hmore
  · -- Nothing is left behind the piece, so no piece is beyond the limit there.
    rw [hnil, LineReader.piecesOf_nil] at hpieces
    exact absurd hpieces.symm (List.append_ne_nil_of_right_ne_nil _ (List.cons_ne_nil _ _))

variable {readings : List (Reading (List UInt8) × Nat)}
  (hreadable : LineReader.isReadable input.reader.limit = true)
  (hfollows : Follows { input with reader := behind } last readings)

include hreadable hfollows

/-- A piece that is skipped is in no reading. -/
theorem follows_of_skipped (hnext : input.reader.next = behind.next) :
    input.Follows last readings := by
  have hsame : input.next = LineInput.next { input with reader := behind } := by
    rw [next_eq hreadable, hnext, next_eq (by rw [h.limit_eq]; exact hreadable)]
  refine ⟨hfollows.reads.of_next hsame, fun fault number hmem => ?_⟩
  exact (hfollows.overruns fault number hmem).imp_right h.overrun

/-- A piece that is an item is the first reading. -/
theorem follows_of_item {item : List UInt8}
    (hnext : input.reader.next = (behind, .ok (some item))) :
    input.Follows last ((.item item, input.reader.lineNumber + 1) :: readings) := by
  have hitem : input.next = ({ input with reader := behind }, .item item) := by
    rw [next_eq hreadable, hnext]
  rw [← h.lineNumber_eq]
  refine ⟨.item hitem hfollows.reads, fun fault number hmem => ?_⟩
  rcases List.mem_cons.mp hmem with hcontra | htail
  · cases hcontra
  · exact (hfollows.overruns fault number htail).imp_right h.overrun

end Takes

/-- The pieces of an input that are still to be read come one by one, up to the first that is beyond
the limit. -/
theorem exists_follows {input : LineInput} (hreliable : input.reader.source.Reliable)
    (hreadable : LineReader.isReadable input.reader.limit = true) :
    ∃ last, input.Follows last (LineReader.readingsOf input.reader.limit input.reader.lineNumber
      (LineReader.piecesOf input.reader.source.content)) := by
  induction hpieces : LineReader.piecesOf input.reader.source.content generalizing input with
  | nil =>
    have hnil := LineReader.eq_nil_of_piecesOf_eq_nil hpieces
    exact exists_follows_ended hreadable hreliable hnil
  | cons piece rest ih =>
    have hne : input.reader.source.content ≠ [] := by
      intro hnil
      rw [hnil] at hpieces
      cases hpieces
    obtain ⟨line, more, hbegins⟩ := LineReader.exists_begins input.reader.source.content
    obtain ⟨rfl, rfl⟩ := List.cons.inj (hpieces.symm.trans (hbegins.piecesOf_eq hne))
    obtain ⟨behind, taken, ⟨hlimit, hnumber, hbehind⟩, ⟨hcontent, hbudget⟩, hwhole, hnext⟩ :=
      LineReader.next_of_begins hreliable hbegins hne
    rw [LineReader.readingsOf]
    cases hverdict : LineReader.verdict input.reader.limit (input.reader.lineNumber + 1) piece with
    | error fault =>
      rw [hverdict] at hnext
      exact exists_follows_refused hreadable hpieces hnumber hcontent hbudget hverdict hnext
    | ok item =>
      -- The piece is taken whole, and reading goes on behind it.
      obtain ⟨rfl, htaken⟩ := hwhole (LineReader.length_le_of_verdict hverdict)
      have htakes : input.Takes behind piece :=
        ⟨hpieces, hnumber, hlimit, taken, hcontent, htaken⟩
      rw [hverdict] at hnext
      obtain ⟨last, hfollows⟩ := @ih { input with reader := behind } hbehind
        (by rw [hlimit]; exact hreadable) rfl
      dsimp only at hfollows
      rw [hlimit, hnumber] at hfollows
      cases item with
      | none =>
        exact ⟨last, htakes.follows_of_skipped hreadable hfollows hnext⟩
      | some item =>
        exact ⟨last, htakes.follows_of_item hreadable hfollows hnext⟩

/-- In whatever pieces a stream arrives, what is read of it up to its end or to a line beyond the limit
are the pieces of its bytes at the line feeds, and the numbers count them.  A line beyond the limit is
refused as it is decoded, and then no more than the budget of the line has been taken of it.  No more
bytes are ever held, at any moment of any line that is read. -/
theorem readings_of_stream {input : LineInput} {source : Source} {limit : UInt64}
    (hstart : input.reader = LineReader.start source limit) (hreliable : source.Reliable)
    (hreadable : LineReader.isReadable limit = true) :
    let readings := LineReader.readingsOf limit 0 (LineReader.piecesOf source.content)
    ∃ last, input.Readings readings last ∧
      (∀ fault number, (.unreadable fault, number) ∈ readings → fault.kind = .decode ∧
        ∃ before piece behind taken,
          LineReader.piecesOf source.content = before ++ piece :: behind ∧
          number = before.length + 1 ∧
          source.content =
            before.flatMap (· ++ [Source.lineFeed]) ++ taken ++ last.reader.source.content ∧
          taken.length ≤ limit.toNat + 2) ∧
      ∀ stream : Source,
        (∀ taking, (Source.Taking.start (LineReader.budget limit) stream).Reaches taking →
          taking.buffer.length ≤ limit.toNat + 2) ∧
        ∀ bytes rest, Source.readLine (LineReader.budget limit) stream = .taken bytes rest →
          ∃ left, (Source.Taking.start (LineReader.budget limit) stream).Reaches
              ⟨bytes, left, rest⟩ ∧
            Source.Taking.step? ⟨bytes, left, rest⟩ = none := by
  obtain ⟨last, hreads, hoverruns⟩ := @exists_follows input (by rw [hstart]; exact hreliable)
    (by rw [hstart]; exact hreadable)
  unfold Overrun at hoverruns
  rw [hstart] at hreads hoverruns
  refine ⟨last, hreads, fun fault number hmem => ?_, fun stream => ⟨fun taking htaking => ?_, ?_⟩⟩
  · obtain ⟨hkind, before, piece, behind, taken, hpieces, hnumber, hcontent, htaken⟩ :=
      hoverruns fault number hmem
    refine ⟨hkind, before, piece, behind, taken, hpieces, ?_, hcontent, htaken⟩
    rw [hnumber]
    exact congrArg (· + 1) (Nat.zero_add _)
  · have hwithin : (Source.Taking.start (LineReader.budget limit) stream).Within
        (LineReader.budget limit) := Nat.le_of_eq (Nat.zero_add _)
    exact Nat.le_trans (Nat.le_add_right _ _) (hwithin.reaches htaking)
  · exact fun bytes rest hread => Source.Taking.reaches_of_readLine hread []

/-- The lines `ab` and a blank one, each with a carriage return, then one of six bytes and a last one,
in pieces of the stream that end within the line ends. -/
def fourLines : Source :=
  [.bytes [97, 98, 13], .interrupted, .bytes [10, 13], .bytes [10, 97, 98, 99, 100],
    .bytes [101, 102, 10, 103]]

theorem readings_fourLines : ∃ last,
    Readings ⟨LineReader.start fourLines 3, 0, none⟩
      [(.item [97, 98], 1),
        (.unreadable ⟨.decode, "line 3 is longer than the 3 byte limit"⟩, 3)] last := by
  have hreliable : fourLines.Reliable := by
    intro message hmem
    simp [fourLines] at hmem
  have hreadings : LineReader.readingsOf 3 0 (LineReader.piecesOf fourLines.content) =
      [(.item [97, 98], 1),
        (.unreadable ⟨.decode, "line 3 is longer than the 3 byte limit"⟩, 3)] := by
    decide
  obtain ⟨last, hreads, -⟩ := @readings_of_stream ⟨LineReader.start fourLines 3, 0, none⟩ _ _ rfl
    hreliable (by decide)
  rw [hreadings] at hreads
  exact ⟨last, hreads⟩

end LineInput

end LoadBench
