/-
  LoadBench.PerLabel

  One value for each of the seven command groups.
-/

import LoadBench.Label

namespace LoadBench

/-- One value for each group. -/
structure PerLabel (α : Type) where
  setupWrite : α
  write : α
  read : α
  cursorRead : α
  update : α
  delete : α
  other : α
  deriving DecidableEq, Repr

namespace PerLabel

variable {α β : Type}

/-- The value of a group. -/
def get (values : PerLabel α) : Label → α
  | .setupWrite => values.setupWrite
  | .write => values.write
  | .read => values.read
  | .cursorRead => values.cursorRead
  | .update => values.update
  | .delete => values.delete
  | .other => values.other

/-- The values a function gives. -/
def ofFn (f : Label → α) : PerLabel α :=
  ⟨f .setupWrite, f .write, f .read, f .cursorRead, f .update, f .delete, f .other⟩

/-- The same values but for one group, whose value is changed by a function. -/
def modify (values : PerLabel α) (label : Label) (f : α → α) : PerLabel α :=
  match label with
  | .setupWrite => { values with setupWrite := f values.setupWrite }
  | .write => { values with write := f values.write }
  | .read => { values with read := f values.read }
  | .cursorRead => { values with cursorRead := f values.cursorRead }
  | .update => { values with update := f values.update }
  | .delete => { values with delete := f values.delete }
  | .other => { values with other := f values.other }

/-- Values made from each value. -/
def map (f : α → β) (values : PerLabel α) : PerLabel β := ofFn fun label => f (values.get label)

/-- The values in the order of `Label.all`. -/
def toList (values : PerLabel α) : List α := Label.all.map values.get

@[simp] theorem get_ofFn (f : Label → α) (label : Label) : (ofFn f).get label = f label := by
  cases label <;> rfl

@[simp] theorem get_map (f : α → β) (values : PerLabel α) (label : Label) :
    (values.map f).get label = f (values.get label) := by
  simp [map]

theorem get_modify (values : PerLabel α) (changed label : Label) (f : α → α) :
    (values.modify changed f).get label =
      if label = changed then f (values.get label) else values.get label := by
  cases changed <;> cases label <;> rfl

end PerLabel

end LoadBench
