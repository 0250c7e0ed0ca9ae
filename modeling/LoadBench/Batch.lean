/-
  LoadBench.Batch

  Batches of items.  A batch is built once and used again and again; its number
  tells which of the built ones it is.
-/

import LoadBench.Memory

namespace LoadBench

/-- Items that are handed over and processed together. -/
structure Batch (α : Type) where
  /-- Which of the batches built so far this one is, counted from one. -/
  number : Nat
  items : List α
  deriving DecidableEq, Repr

namespace Batch

variable {α : Type}

/-- A batch as it is built. -/
def new (number : Nat) : Batch α := ⟨number, []⟩

/-- How many bytes the cell of an item takes. -/
def cellWidth : Nat := 32

/-- Whether a batch can be built that has room for a number of items from the start. -/
def canHold (room : Nat) : Bool := Memory.holds room cellWidth

/-- How many items there are. -/
def size (batch : Batch α) : Nat := batch.items.length

/-- Whether there are no items. -/
def isEmpty (batch : Batch α) : Bool := batch.items.isEmpty

/-- One more item behind the others. -/
def append (batch : Batch α) (item : α) : Batch α :=
  { batch with items := batch.items ++ [item] }

/-- The same batch without items. -/
def clear (batch : Batch α) : Batch α := { batch with items := [] }

@[simp] theorem items_new (number : Nat) : (new number : Batch α).items = [] := rfl

@[simp] theorem items_append (batch : Batch α) (item : α) :
    (batch.append item).items = batch.items ++ [item] := rfl

@[simp] theorem items_clear (batch : Batch α) : batch.clear.items = [] := rfl

@[simp] theorem number_append (batch : Batch α) (item : α) :
    (batch.append item).number = batch.number := rfl

@[simp] theorem number_clear (batch : Batch α) : batch.clear.number = batch.number := rfl

@[simp] theorem size_append (batch : Batch α) (item : α) :
    (batch.append item).size = batch.size + 1 := by
  simp [size]

@[simp] theorem size_clear (batch : Batch α) : batch.clear.size = 0 := rfl

end Batch

end LoadBench
