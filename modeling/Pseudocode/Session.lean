import Pseudocode.Event

/-! # Sessions

A session remembers the last errors that were seen, oldest first. It keeps at least one.
-/

namespace Pseudocode

/-- The errors of a session. -/
structure Session where
  history : List Report
  /-- How many errors are kept. -/
  limit : Nat
  deriving DecidableEq, Repr

namespace Session

/-- How many errors a session keeps if nothing else is asked for. -/
def defaultLimit : Nat := 50

/-- A session that keeps `limit` errors, and one if that is zero. -/
def withLimit (limit : Nat) : Session := ⟨[], max limit 1⟩

/-- Sees an event. When the history is full, the oldest error makes room. -/
def observe (s : Session) : Event → Session
  | .error report =>
    let kept := if s.history.length = s.limit then s.history.tail else s.history
    { s with history := kept ++ [report] }
  | _ => s

/-- Sees events in their order. -/
def observeAll (s : Session) (events : List Event) : Session := events.foldl observe s

/-- The last error. -/
def last? (s : Session) : Option Report := s.history.getLast?

/-- Forgets all errors. -/
def clear (s : Session) : Session := { s with history := [] }

end Session

end Pseudocode
