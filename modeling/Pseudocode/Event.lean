import Pseudocode.Report.Basic

/-! # Events

What a run tells its host, in the order in which it happens. The last event of a run is `done` or an
error.
-/

namespace Pseudocode

/-- Something that a run tells its host. -/
inductive Event where
  /-- A line that the program prints. -/
  | stdout (text : Text)
  /-- A line beside the output of the program. -/
  | stderr (text : Text)
  | error (report : Report)
  | done
  /-- The program waits for an answer to the request `id`. -/
  | inputRequest (id prompt : Text)
  deriving DecidableEq, Repr

namespace Event

/-- Whether nothing follows the event. -/
def isTerminal : Event → Bool
  | .error _ | .done => true
  | _ => false

end Event

end Pseudocode
