import Pseudocode.Event
import Pseudocode.Limits
import Pseudocode.Report.Compose
import Pseudocode.Run.State
import Pseudocode.Script.Evaluation

/-! # Transcripts

What a run does depends on nothing but the answers it is given. A transcript is all that it does
with some answers: the events up to the request that they do not answer any more, or all events if
they are enough. More answers only make a transcript longer.
-/

namespace Pseudocode

/-- All that a run does with the answers it has. -/
structure Transcript where
  events : List Event
  state : RunState
  /-- The request that the answers do not answer. -/
  request : Option Text

namespace Transcript

/-- A run that ends with an error. -/
def failed (events : List Event) (report : Report) (state : RunState) : Transcript :=
  ⟨events ++ [.error report], state, none⟩

/-- A run that breaks down without a fault of the program. -/
def brokenDown (events : List Event) (cause : Text) : Transcript :=
  failed (events ++ [.stderr (text "internal error: " ++ cause)]) (Report.ofInternal cause)
    (.failed .execution)

/-- The events of a conversation. Requests get the ids `ids count`, `ids (count + 1)`, and so on. -/
def eventsFrom (ids : Nat → Text) (count : Nat) : List Script.Interaction → List Event
  | [] => []
  | .print shown :: log => .stdout shown :: eventsFrom ids count log
  | .input prompt :: log => .inputRequest (ids count) prompt :: eventsFrom ids (count + 1) log

/-- A finished run of a script, with `answered` requests answered. -/
def ofResult (program : Translation) (limits : Limits) (ids : Nat → Text) (answered : Nat)
    (result : Script.Result) : Transcript :=
  let events := eventsFrom ids 0 result.log
  match result.ending with
  | .done => ⟨events ++ [.done], .done, none⟩
  | .unwound (.failed f) =>
    failed events (Report.ofError program f.cause.name f.cause.message f.stack f.position)
      (.failed .runtime)
  | .unwound (.timedOut place) =>
    failed events (Report.ofTimeout program limits.budget place) .timedOut
  | .unwound .cancelled => ⟨events, .running, some (ids answered)⟩
  | .unwound .conflict => brokenDown events (text "an array was read while it was being changed")
  | .unwound .outOfFuel => brokenDown events (text "the evaluation took too many steps")

/-- What a parsed script does with some answers. -/
def ofScript (program : Translation) (script : Except Script.Program.Fault Script.Program)
    (limits : Limits) (ids : Nat → Text) (answers : List Text) : Transcript :=
  match script with
  | .error fault =>
    failed [] (Report.ofFault program fault.cause.message fault.position) (.failed .parsing)
  | .ok script =>
    let watchdog := Watchdog.start limits.budget limits.policy
    let machine := Script.Machine.start watchdog limits.maxCalls answers none
    ofResult program limits ids answers.length (script.run machine)

/-- What a program does that fails before it is run. -/
def ofReport (report : Report) : Transcript := failed [] report (.failed report.phase)

end Transcript

end Pseudocode
