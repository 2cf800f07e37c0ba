import Pseudocode.Text.Basic

/-! # The input slot

A run and its host meet in one slot. The run puts a request into it and waits; the host takes the
request out again with an answer to exactly that request. A slot that is closed stays closed.
-/

namespace Pseudocode

/-- Where a request for input waits. -/
inductive InputSlot where
  | idle
  | waiting (id : Text)
  /-- The run takes no more answers. -/
  | closed
  deriving DecidableEq, Repr

/-- Why an answer is refused. -/
inductive InputFault where
  | unknownRequest (id : Text)
  | closed
  deriving DecidableEq, Repr

/-- The text of the fault. -/
def InputFault.message : InputFault → Text
  | .unknownRequest id => text "no pending input request with id '" ++ id ++ ['\'']
  | .closed => text "the run has already finished"

namespace InputSlot

/-- The request that waits, if there is one. -/
def pending? : InputSlot → Option Text
  | waiting id => some id
  | _ => none

/-- The run asks for input. -/
def request (id : Text) : InputSlot → InputSlot
  | closed => closed
  | _ => waiting id

/-- The host answers a request. -/
def respond (id : Text) : InputSlot → Except InputFault InputSlot
  | waiting pending => if pending = id then .ok idle else .error (.unknownRequest id)
  | closed => .error .closed
  | idle => .error (.unknownRequest id)

/-- The run ends or is cancelled. -/
def close : InputSlot → InputSlot := fun _ => closed

/-- The run goes on until it asks for input again or ends. -/
def follow (slot : InputSlot) : (request : Option Text) → InputSlot
  | some id => slot.request id
  | none => slot.close

end InputSlot

end Pseudocode
