import Pseudocode.Watchdog

/-! # Limits

The limits that a run is started with. A budget is never shorter than a second, and at least one
call is always allowed.
-/

namespace Pseudocode

/-- The limits of a run. -/
structure Limits where
  /-- The time that the run may take, in milliseconds. -/
  budget : Nat
  policy : TimeoutPolicy
  /-- How many calls may be active at once. -/
  maxCalls : Nat
  deriving DecidableEq, Repr

namespace Limits

/-- The limits of a run that asks for none. -/
def default : Limits := ⟨5000, .resetAfterInput, 512⟩

/-- The shortest budget. -/
def minBudget : Nat := 1000

/-- The limits with another budget. -/
def withBudget (l : Limits) (milliseconds : Nat) : Limits :=
  { l with budget := max milliseconds minBudget }

/-- The limits with another number of calls. -/
def withMaxCalls (l : Limits) (calls : Nat) : Limits := { l with maxCalls := max calls 1 }

/-- The limits of a request that may name a budget. -/
def forRequest (budget : Option Nat) (policy : TimeoutPolicy) : Limits :=
  let limits := { default with policy }
  match budget with
  | some milliseconds => limits.withBudget milliseconds
  | none => limits

end Limits

end Pseudocode
