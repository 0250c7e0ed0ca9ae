/-
  LoadBench.Batch.Pool

  A pool of batches that nobody uses.  A batch is drawn from the pool, the one
  that has waited longest first, and is built only if the pool has none.  What is
  given back is emptied first, and let go of if the pool is full.
-/

import LoadBench.Batch

namespace LoadBench

/-- Batches that nobody uses. -/
structure BatchPool (α : Type) where
  /-- How many batches wait at most. -/
  capacity : Nat
  /-- The waiting batches, the one that has waited longest first. -/
  free : List (Batch α)
  /-- How many batches have been built. -/
  created : Nat
  deriving DecidableEq, Repr

namespace BatchPool

variable {α : Type}

/-- A pool without batches. It has room for one batch at least. -/
def empty (capacity : Nat) : BatchPool α := ⟨Nat.max capacity 1, [], 0⟩

/-- How many bytes the cell of a waiting batch takes: the batch and whose turn it is. -/
def cellWidth : Nat := 40

/-- Whether a pool can be made that has room for a number of batches. -/
def canHold (capacity : Nat) : Bool := Memory.holds capacity cellWidth

/-- How many batches wait. -/
def available (pool : BatchPool α) : Nat := pool.free.length

/-- Draws a batch. -/
def acquire (pool : BatchPool α) : BatchPool α × Batch α :=
  match pool.free with
  | batch :: rest => ({ pool with free := rest }, batch)
  | [] => ({ pool with created := pool.created + 1 }, Batch.new (pool.created + 1))

/-- Gives a batch back. -/
def release (pool : BatchPool α) (batch : Batch α) : BatchPool α :=
  if pool.free.length < pool.capacity then { pool with free := pool.free ++ [batch.clear] }
  else pool

/-- Whether all waiting batches are without items. -/
def Clean (pool : BatchPool α) : Prop := ∀ batch ∈ pool.free, batch.items = []

theorem clean_empty (capacity : Nat) : (empty capacity : BatchPool α).Clean := by
  intro batch h
  cases h

theorem clean_acquire {pool : BatchPool α} (h : pool.Clean) : pool.acquire.1.Clean := by
  unfold acquire
  split
  · next batch rest hfree =>
    intro other hother
    exact h other (by rw [hfree]; exact List.mem_cons_of_mem _ hother)
  · exact h

/-- A batch drawn from a clean pool has no items. -/
theorem items_acquire {pool : BatchPool α} (h : pool.Clean) : pool.acquire.2.items = [] := by
  unfold acquire
  split
  · next batch rest hfree => exact h batch (by rw [hfree]; exact List.mem_cons_self)
  · rfl

theorem clean_release {pool : BatchPool α} (h : pool.Clean) (batch : Batch α) :
    (pool.release batch).Clean := by
  unfold release
  split
  · intro other hother
    rcases List.mem_append.mp hother with hfree | hnew
    · exact h other hfree
    · rw [List.mem_singleton.mp hnew]; rfl
  · exact h

end BatchPool

end LoadBench
