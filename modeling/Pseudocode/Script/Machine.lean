import Pseudocode.Script.Builtin
import Pseudocode.Script.Scope
import Pseudocode.Watchdog

/-! # The machine

Everything that a running script can see or change: frames, heap, active calls, the watchdog, and
the conversation with the host. The host shows what is printed and answers requests for input with
the answers it has; a request that it has no answer for ends the run.

`Eval` is the type of what happens on the machine. The machine is kept also when a run is unwound, so
nothing that was printed is ever lost.
-/

namespace Pseudocode.Script

/-- What the host sees of a run. -/
inductive Interaction where
  | print (shown : Text)
  | input (prompt : Text)
  deriving DecidableEq, Repr

/-- An active call. -/
structure Call where
  name : Text
  /-- Where the call was made. -/
  site : Position

/-- An error that ended a script: what happened, where, and in which calls, innermost first. -/
structure Failure where
  cause : ErrorCause
  position : Position
  calls : List Call

namespace Failure

/-- The name and the message of the error. -/
def headline (f : Failure) : Text := f.cause.name.toText ++ text ": " ++ f.cause.message

/-- One line for each call: the innermost one at the place of the error, and every other one where
    it made the call before it. -/
def traceLines (place : Position) : List Call → List Text
  | [] => []
  | call :: outer =>
    (text "    at " ++ call.name ++ text " (<sandbox>:" ++ place.toText ++ [')']) ::
      traceLines call.site outer

/-- The headline and the trace. -/
def stack (f : Failure) : Text := Text.join ['\n'] (f.headline :: traceLines f.position f.calls)

end Failure

/-- Why a run was left before its end. -/
inductive Unwind where
  | failed (failure : Failure)
  | timedOut (position : Position)
  | cancelled
  /-- A conversion read an array that was being changed. -/
  | conflict
  /-- The number of evaluation steps was not enough. -/
  | outOfFuel

/-- The state of a run. -/
structure Machine where
  frames : Frames
  heap : Heap
  /-- The active calls, innermost first. -/
  calls : List Call
  maxCalls : Nat
  watchdog : Watchdog
  /-- The answers that the host has left. -/
  answers : List Text
  /-- What the host has seen, last first. -/
  log : List Interaction
  /-- After how many more prints the run is cancelled, if it is to be. -/
  cancelAfter : Option Nat

/-- Something that happens on the machine and may be unwound. -/
abbrev Eval := EStateM Unwind Machine

namespace Machine

/-- The scope that every other one ends with. -/
def globalScope : Scope := [0]

/-- Before a run. -/
def start (watchdog : Watchdog) (maxCalls : Nat) (answers : List Text) (cancelAfter : Option Nat) :
    Machine :=
  { frames := #[globalBindings.map fun (name, value) => (name, ⟨value, true⟩)]
    heap := Heap.empty
    calls := []
    maxCalls
    watchdog
    answers
    log := []
    cancelAfter }

end Machine

namespace Eval

/-- Ends with an error of the script. -/
def fail {α : Type} (place : Position) (cause : ErrorCause) : Eval α := fun m =>
  .error (.failed ⟨cause, place, m.calls⟩) m

/-- Asks the watchdog whether to go on. -/
def tick (place : Position) : Eval Unit := fun m =>
  match m.watchdog.stop? with
  | none => .ok () { m with watchdog := m.watchdog.tick }
  | some .timedOut => .error (.timedOut place) m
  | some .cancelled => .error .cancelled m

/-- An operation on the heap. -/
def onHeap {α : Type} (place : Position) (operation : Heap → Outcome α) : Eval α := fun m =>
  let heap := m.heap
  let m := { m with heap := Heap.empty }
  match operation heap with
  | .ok a heap => .ok a { m with heap }
  | .error (.error cause) heap => .error (.failed ⟨cause, place, m.calls⟩) { m with heap }
  | .error .conflict heap => .error .conflict { m with heap }

/-- A look at the heap. -/
def fromHeap {α : Type} (look : Heap → α) : Eval α := fun m => .ok (look m.heap) m

/-- A look at the heap that may fail. -/
def readHeap {α : Type} (place : Position) (look : Heap → Except ErrorCause α) : Eval α := fun m =>
  match look m.heap with
  | .ok a => .ok a m
  | .error cause => fail place cause m

/-- A new scope inside another one. -/
def openScope (scope : Scope) : Eval Scope := fun m =>
  .ok (m.frames.size :: scope) { m with frames := m.frames.push [] }

/-- The value of a name, if it is bound. -/
def find? (scope : Scope) (name : Text) : Eval (Option Value) := fun m =>
  .ok (m.frames.get? scope name) m

/-- The value of a name. -/
def find (scope : Scope) (name : Text) (place : Position) : Eval Value := do
  match ← find? scope name with
  | some v => return v
  | none => fail place (.undefinedName name)

/-- Binds a name in the innermost frame. -/
def define (scope : Scope) (name : Text) (value : Value) : Eval Unit := fun m =>
  .ok () { m with frames := m.frames.define scope name value }

/-- Declares a name that the innermost frame does not have yet. -/
def declare (scope : Scope) (name : Text) (binding : Binding) (place : Position) : Eval Unit :=
  fun m =>
    match m.frames.declareFault? name scope with
    | some _ => fail place (.redeclared name) m
    | none => .ok () { m with frames := m.frames.declare scope name binding }

/-- Assigns to a name. A name without a binding becomes a global variable. -/
def assign (scope : Scope) (name : Text) (value : Value) (place : Position) : Eval Unit := fun m =>
  match m.frames.assignFault? name scope with
  | none => .ok () { m with frames := m.frames.assign name value scope }
  | some .notFound =>
    .ok () { m with frames := m.frames.define Machine.globalScope name value }
  | some _ => fail place .constantAssignment m

/-- A new function. -/
def newClosure (closure : Closure) : Eval Value := fun m =>
  let heap := m.heap
  let m := { m with heap := Heap.empty }
  let (v, heap) := heap.addClosure closure
  .ok v { m with heap }

/-- Prints a line; the run may be cancelled right after it. -/
def print (shown : Text) : Eval Unit := fun m =>
  let m := { m with log := .print shown :: m.log }
  match m.cancelAfter with
  | some (n + 1) =>
    .ok () { m with
      cancelAfter := some n
      watchdog := if n = 0 then m.watchdog.cancel else m.watchdog }
  | _ => .ok () m

/-- Asks for an answer. Time stands still while the host is asked. -/
def input (prompt : Text) : Eval Text := fun m =>
  let m := { m with log := .input prompt :: m.log, watchdog := m.watchdog.pause.resume }
  match m.answers with
  | answer :: answers => .ok answer { m with answers }
  | [] => .error .cancelled m

/-- Does something inside a call. The call is left again however that ends. -/
def within {α : Type} (call : Call) (action : Eval α) : Eval α := fun m =>
  match action { m with calls := call :: m.calls } with
  | .ok a m => .ok a { m with calls := m.calls.tail }
  | .error u m => .error u { m with calls := m.calls.tail }

/-- One more call may be made. The outermost call, which is the script itself, does not count. -/
def checkCalls (place : Position) : Eval Unit := fun m =>
  if m.maxCalls < m.calls.length then fail place .callDepth m else .ok () m

end Eval

end Pseudocode.Script
