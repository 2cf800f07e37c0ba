import Pseudocode.Run.InputSlot
import Pseudocode.Run.Transcript

/-! # Executions

An execution hands out the events of a run one by one and takes the answers of the host. The run is
always as far ahead as the answers allow; events that were not handed out wait in a queue. Notices
come before everything that the run does.

* `Execution.poll`     the next event
* `Execution.respond`  answers the request that waits
* `Execution.cancel`   ends the run where it is
-/

namespace Pseudocode

/-- A run whose events are being read. -/
structure Execution where
  /-- What the run does with some answers. -/
  run : List Text → Transcript
  answers : List Text
  /-- What the run does with `answers`. -/
  transcript : Transcript
  /-- Notices that were not handed out. -/
  notices : List Text
  /-- Events of the transcript that were not handed out. -/
  queue : List Event
  slot : InputSlot
  /-- Whether the end was handed out. -/
  finished : Bool

/-- The next thing that an execution has to say. -/
inductive Poll where
  | event (event : Event)
  /-- An answer is needed first. -/
  | waiting
  | ended
  deriving DecidableEq, Repr

namespace Execution

/-- The beginning of a run. -/
def start (run : List Text → Transcript) (notices : List Text) : Execution :=
  let transcript := run []
  { run
    answers := []
    transcript
    notices
    queue := transcript.events
    slot := InputSlot.idle.follow transcript.request
    finished := false }

/-- Runs a script. Input requests get the ids `ids 0`, `ids 1`, and so on. -/
def ofTranslation (program : Translation) (limits : Limits) (ids : Nat → Text)
    (notices : List Text) : Execution :=
  let script := Script.Program.parse (Translation.wrapped program.code)
  start (Transcript.ofScript program script limits ids) notices

/-- An execution that has nothing but an error to say. -/
def ofReport (report : Report) : Execution := start (fun _ => Transcript.ofReport report) []

/-- Runs a program, unless it has errors. Warnings become notices. -/
def ofSource (source : Text) (limits : Limits) (ids : Nat → Text) : Execution :=
  let findings := validate source
  let issues := findings.map Finding.issue
  if hasErrors findings then ofReport (Report.ofIssues issues)
  else ofTranslation (translate source) limits ids (issues.map Report.warning)

/-- How far the run is. -/
def state (e : Execution) : RunState := e.transcript.state

/-- The next event, if there is one already. -/
def poll (e : Execution) : Poll × Execution :=
  if e.finished then (.ended, e)
  else match e.notices, e.queue with
    | notice :: notices, _ => (.event (.stderr notice), { e with notices })
    | [], event :: queue => (.event event, { e with queue, finished := event.isTerminal })
    | [], [] =>
      match e.slot.pending? with
      | some _ => (.waiting, e)
      | none => (.ended, { e with finished := true })

/-- All events that there are already. -/
def drain (e : Execution) : List Event × Execution :=
  if e.finished then ([], e)
  else
    (e.notices.map Event.stderr ++ e.queue,
      { e with notices := [], queue := [], finished := e.queue.any Event.isTerminal })

/-- Answers a request. -/
def respond (id value : Text) (e : Execution) : Except InputFault Execution := do
  let slot ← e.slot.respond id
  let answers := e.answers ++ [value]
  let transcript := e.run answers
  return { e with
    answers
    transcript
    queue := e.queue ++ transcript.events.drop e.transcript.events.length
    slot := slot.follow transcript.request }

/-- Ends the run where it is. Events that wait in the queue are still handed out. -/
def cancel (e : Execution) : Execution := { e with slot := e.slot.close }

end Execution

end Pseudocode
