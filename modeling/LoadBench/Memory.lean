/-
  LoadBench.Memory

  How much room can be asked for.  Whoever asks for more panics.
-/

namespace LoadBench.Memory

/-- How many bytes one piece of memory has at most. -/
def largest : Nat := Nat.pow 2 63 - 1

/-- Whether one piece of memory can have a number of cells, each so many bytes wide. -/
def holds (cells width : Nat) : Bool := cells * width ≤ largest

end LoadBench.Memory
