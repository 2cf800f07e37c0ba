import Pseudocode.Report.Basic

/-! # States of a run -/

namespace Pseudocode

/-- How far a run is. -/
inductive RunState where
  | idle
  | validating
  | translating
  | checking
  | running
  | failed (phase : Phase)
  | timedOut
  | done
  deriving DecidableEq, Repr

namespace RunState

/-- Whether the run has ended. -/
def isTerminal : RunState → Bool
  | failed _ | timedOut | done => true
  | _ => false

/-- The name of a state. -/
def name : RunState → Text
  | idle => text "idle"
  | validating => text "validating"
  | translating => text "translating"
  | checking => text "syntax-checking"
  | running => text "running"
  | failed phase => text "failed(" ++ phase.name ++ [')']
  | timedOut => text "timed-out"
  | done => text "done"

end RunState

end Pseudocode
