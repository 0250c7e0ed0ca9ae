/-
  LoadBench.Routing

  Which queue an item goes to.  A routing sees how many items have been read,
  the item included, and the item itself.
-/

namespace LoadBench

/-- The queue for an item, from how many items have been read and the item. -/
abbrev Routing (α : Type) := Nat → α → Nat

namespace Routing

variable {α : Type}

/-- All items go to the first queue. -/
def first : Routing α := fun _ _ => 0

/-- The queues take turns. -/
def inTurn (queues : Nat) : Routing α := fun position _ => position % Nat.max queues 1

/-- The queues take turns as a list says, which is gone through again and again. An empty list
says nothing. -/
def listed? (turns : List Nat) : Option (Routing α) :=
  if turns.isEmpty then none
  else some fun position _ => turns.getD ((position - 1) % turns.length) 0

/-- Ranges of `width` numbers each go to one queue. There are no ranges of no numbers. -/
def byRange? (width : Nat) : Option (Routing Nat) :=
  if width = 0 then none else some fun _ item => item / width

theorem inTurn_lt {queues : Nat} (h : 0 < queues) (position : Nat) (item : α) :
    inTurn queues position item < queues := by
  have : Nat.max queues 1 = queues := Nat.max_eq_left h
  simp only [inTurn, this]
  exact Nat.mod_lt _ h

end Routing

end LoadBench
