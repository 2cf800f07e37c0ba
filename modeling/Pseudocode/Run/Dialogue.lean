import Pseudocode.Run.Execution

/-! # Dialogues

A host that knows its replies in advance: whenever the run waits for an answer, it gives the next
one, and it cancels the run when it has none left.
-/

namespace Pseudocode

/-- What a host does about a request. -/
inductive Reply where
  /-- Answers the request. -/
  | answer (value : Text)
  /-- Answers a request of that id, whatever the request. -/
  | respond (id value : Text)
  deriving DecidableEq, Repr

/-- What happens between a run and its host. -/
inductive Exchange where
  | event (event : Event)
  /-- An answer to a request of another id, and why it was refused, if it was. -/
  | responded (fault : Option InputFault)
  | cancelled
  deriving DecidableEq, Repr

namespace Execution

/-- Talks to a run until it ends or is cancelled. -/
def converse (e : Execution) : List Reply → List Exchange × Execution
  | [] =>
    let (events, e) := e.drain
    match e.slot.pending? with
    | none => (events.map .event, e)
    | some _ => (events.map .event ++ [.cancelled], e.cancel)
  | reply :: replies =>
    let (events, e) := e.drain
    match e.slot.pending?, reply with
    | none, _ => (events.map .event, e)
    | some pending, .answer value =>
      let (exchanges, e) := ((e.respond pending value).toOption.getD e).converse replies
      (events.map .event ++ exchanges, e)
    | some _, .respond id value =>
      let (fault, e) := match e.respond id value with
        | .ok e => (none, e)
        | .error fault => (some fault, e)
      let (exchanges, e) := e.converse replies
      (events.map .event ++ .responded fault :: exchanges, e)

end Execution

end Pseudocode
