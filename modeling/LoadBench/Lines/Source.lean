/-
  LoadBench.Lines.Source

  A stream of bytes that arrives in pieces.  A piece may also be an
  interruption, after which reading simply goes on, or a failure, which is
  reported once and does not end the stream.

  `Source.readLine` takes bytes up to and including the next line feed, but no
  more than a budget; `size_readLine` says that what it takes is gone from the
  stream.
-/

namespace LoadBench

/-- What a stream gives when it is asked for more. -/
inductive Piece where
  | bytes (chunk : List UInt8)
  /-- Nothing yet: the stream has to be asked again. -/
  | interrupted
  /-- The stream cannot be read; it may be asked again. -/
  | failed (message : String)
  deriving DecidableEq, Repr

/-- A stream of bytes. -/
abbrev Source := List Piece

namespace Source

/-- The line feed. -/
def lineFeed : UInt8 := 10

/-- The bytes left in a stream and the pieces they come in. -/
def size : Source → Nat
  | [] => 0
  | .bytes chunk :: rest => chunk.length + 1 + size rest
  | _ :: rest => 1 + size rest

@[simp] theorem size_nil : size [] = 0 := rfl

@[simp] theorem size_bytes (chunk : List UInt8) (rest : Source) :
    size (.bytes chunk :: rest) = chunk.length + 1 + size rest := rfl

/-- All bytes of a stream, whatever happens between them. -/
def content : Source → List UInt8
  | [] => []
  | .bytes chunk :: rest => chunk ++ content rest
  | _ :: rest => content rest

/-- A stream as it comes through a buffer. No bytes come through one without room, but failures
do. -/
def through (source : Source) (buffer : Nat) : Source :=
  if buffer = 0 then
    source.filter fun piece => match piece with | .bytes _ => false | _ => true
  else source

/-- What came of an attempt to read a line: the bytes taken or the failure met, and the stream
behind them. The bytes read before a failure are lost. -/
inductive Attempt where
  | taken (bytes : List UInt8) (rest : Source)
  | failed (message : String) (rest : Source)
  deriving Repr

/-- Bytes taken in front of what else is taken. -/
def Attempt.behind (bytes : List UInt8) : Attempt → Attempt
  | .taken more rest => .taken (bytes ++ more) rest
  | .failed message rest => .failed message rest

/-- Where the first line feed ends, if that is within the budget, with `before` bytes in front. -/
def lineEndFrom? (before : Nat) : Nat → List UInt8 → Option Nat
  | 0, _ => none
  | _ + 1, [] => none
  | budget + 1, byte :: rest =>
    if byte = lineFeed then some (before + 1) else lineEndFrom? (before + 1) budget rest

/-- How many bytes lie up to and including the first line feed, if that is within the budget. -/
def lineEnd? (budget : Nat) (chunk : List UInt8) : Option Nat := lineEndFrom? 0 budget chunk

theorem lineEndFrom?_le {before budget length : Nat} {chunk : List UInt8}
    (h : lineEndFrom? before budget chunk = some length) : length ≤ before + chunk.length := by
  fun_induction lineEndFrom? before budget chunk with
  | case1 => cases h
  | case2 => cases h
  | case3 => cases h; simp
  | case4 before budget byte rest _ ih =>
    have := ih h
    simp only [List.length_cons]
    omega

theorem lineEnd?_le {budget length : Nat} {chunk : List UInt8}
    (h : lineEnd? budget chunk = some length) : length ≤ chunk.length := by
  have := lineEndFrom?_le h
  omega

/-- Takes bytes up to and including the next line feed, but no more than `budget`. -/
def readLine : Nat → Source → Attempt
  | 0, source => .taken [] source
  | _ + 1, [] => .taken [] []
  | budget + 1, .interrupted :: rest => readLine (budget + 1) rest
  | _ + 1, .failed message :: rest => .failed message rest
  | budget + 1, .bytes chunk :: rest =>
    match lineEnd? (budget + 1) chunk with
    | some length => .taken (chunk.take length) (.bytes (chunk.drop length) :: rest)
    -- No line feed in reach: the budget ends within this piece, or reading goes on behind it.
    | none =>
      if budget + 1 < chunk.length then
        .taken (chunk.take (budget + 1)) (.bytes (chunk.drop (budget + 1)) :: rest)
      else (readLine (budget + 1 - chunk.length) rest).behind chunk

/-- What is taken is gone from the stream. -/
theorem size_readLine {budget : Nat} {source rest : Source} {bytes : List UInt8}
    (h : readLine budget source = .taken bytes rest) : size rest + bytes.length ≤ size source := by
  fun_induction readLine budget source generalizing bytes rest with
  | case1 source => cases h; simp
  | case2 => cases h; simp
  | case3 budget rest' ih => have := ih h; simp [size]; omega
  | case4 => cases h
  | case5 budget chunk rest' length hlength =>
    cases h
    have := lineEnd?_le hlength
    simp only [size_bytes, List.length_drop, List.length_take]
    omega
  | case6 budget chunk rest' _ hbudget =>
    cases h
    simp only [size_bytes, List.length_drop, List.length_take]
    omega
  | case7 budget chunk rest' _ _ ih =>
    cases hmore : readLine (budget + 1 - chunk.length) rest' with
    | failed => simp [hmore, Attempt.behind] at h
    | taken more rest'' =>
      have := ih hmore
      simp only [hmore, Attempt.behind, Attempt.taken.injEq] at h
      obtain ⟨rfl, rfl⟩ := h
      simp only [size_bytes, List.length_append]
      omega

/-- A line that is not empty leaves less of the stream. -/
theorem size_lt_of_readLine {budget : Nat} {source rest : Source} {bytes : List UInt8}
    (h : readLine budget source = .taken bytes rest) (hbytes : bytes ≠ []) :
    size rest < size source := by
  have := size_readLine h
  have := List.length_pos_iff.mpr hbytes
  omega

end Source

end LoadBench
