import Pseudocode.Run.Execution
import Pseudocode.Wire.Message

/-! # Servers

A server runs one program at a time for a host that sends it lines. A line that it cannot follow is
answered at once and changes nothing. A program counts as running until its last event is read.
-/

namespace Pseudocode

/-- The state of a connection. -/
structure Server where
  policy : TimeoutPolicy
  /-- The id of a request: the number of its program on this connection, and its own number. -/
  ids : Nat → Nat → Text
  /-- How many programs were started. -/
  started : Nat
  current : Option Execution

namespace Server

/-- A new connection. -/
def connect (policy : TimeoutPolicy) (ids : Nat → Nat → Text) : Server := ⟨policy, ids, 0, none⟩

/-- Whether a program is running. -/
def isRunning (s : Server) : Bool := s.current.isSome

/-- Starts a program, or says why not. -/
def start (s : Server) (source : Text) (budget : Option Nat) : Option Event × Server :=
  match s.current with
  | some _ => (some (.stderr (text "a program is already running")), s)
  | none =>
    let limits := Limits.forRequest budget s.policy
    (none, { s with
      started := s.started + 1
      current := some (Execution.ofSource source limits (s.ids s.started)) })

/-- Answers a request of the running program, or says why not. -/
def respond (s : Server) (id value : Text) : Option Event × Server :=
  match s.current with
  | none => (some (.stderr (text "no program is running")), s)
  | some execution =>
    match execution.respond id value with
    | .ok execution => (none, { s with current := some execution })
    | .error fault => (some (.stderr fault.message), s)

/-- Follows a line of the host. A line that is not followed is answered. -/
def handleLine (s : Server) (line : Text) : Option Event × Server :=
  if (Text.trim line).isEmpty then (none, s)
  else match Message.parse line with
    | .ok (.start source budget) => s.start source budget
    | .ok (.response id value) => s.respond id value
    | .error fault => (some (.stderr (text "invalid message: " ++ fault.message)), s)

/-- The next event of the running program. While no program is running, none comes. -/
def poll (s : Server) : Poll × Server :=
  match s.current with
  | none => (.waiting, s)
  | some execution =>
    match execution.poll with
    | (.event event, execution) =>
      (.event event, { s with current := if event.isTerminal then none else some execution })
    | (.waiting, execution) => (.waiting, { s with current := some execution })
    | (.ended, _) => (.ended, { s with current := none })

end Server

end Pseudocode
