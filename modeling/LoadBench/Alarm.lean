/-
  LoadBench.Alarm

  The alarm that ends a run early.  It keeps the fault that was raised first;
  whoever looks at it afterwards sees that the run is over, also when that fault
  has been taken out.
-/

import LoadBench.Fault

namespace LoadBench

/-- The first fault of a run, and whether the run is over. -/
structure Alarm where
  first : Option Fault
  isRaised : Bool
  deriving DecidableEq, Repr

namespace Alarm

/-- Nothing has been raised. -/
def quiet : Alarm := ⟨none, false⟩

/-- Raises a fault; an earlier one that has not been taken stays. -/
def raise (alarm : Alarm) (fault : Fault) : Alarm where
  first := some (alarm.first.getD fault)
  isRaised := true

/-- Ends the run without a fault. -/
def cancel (alarm : Alarm) : Alarm := { alarm with isRaised := true }

/-- Takes the fault out. -/
def take (alarm : Alarm) : Alarm × Option Fault :=
  ({ alarm with first := none }, alarm.first)

@[simp] theorem isRaised_raise (alarm : Alarm) (fault : Fault) :
    (alarm.raise fault).isRaised = true := rfl

end Alarm

end LoadBench
