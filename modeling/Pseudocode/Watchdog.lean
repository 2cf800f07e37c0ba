/-! # Watchdog

A run has a budget of time. Time is counted in ticks, and every check takes one: the watchdog stops
a run at the check that finds the budget spent. Waiting for an answer takes no time, and under the
resetting policy the budget starts anew after it.

More time may pass between two checks, and a run may be cancelled from outside at any moment. A
watchdog knows beforehand at which checks that will show.
-/

namespace Pseudocode

/-- How waiting for input affects the budget. -/
inductive TimeoutPolicy where
  /-- Every answered request restarts the full budget. -/
  | resetAfterInput
  /-- The budget covers the whole run. -/
  | cumulative
  deriving DecidableEq, Repr

/-- Why a run has to stop. -/
inductive Stop where
  | timedOut
  | cancelled
  deriving DecidableEq, Repr

/-- The limit on the time of a run, and how much of it is spent. -/
structure Watchdog where
  /-- The ticks that the run may take. -/
  budget : Nat
  policy : TimeoutPolicy
  /-- Whether time is counted. -/
  running : Bool
  spent : Nat
  /-- The ticks that pass before each of the next checks; none pass before any other. -/
  delays : List Nat
  /-- After how many more checks the run is found cancelled, if it is to be. -/
  cancelIn : Option Nat
  deriving DecidableEq, Repr

namespace Watchdog

/-- Ticks in a millisecond. -/
def ticksPerMillisecond : Nat := 10000

/-- A watchdog that starts counting at once. -/
def start (milliseconds : Nat) (policy : TimeoutPolicy) : Watchdog :=
  ⟨milliseconds * ticksPerMillisecond, policy, true, 0, [], none⟩

/-- The ticks that pass before the next check. -/
def delay (w : Watchdog) : Nat := w.delays.head?.getD 0

/-- Why the run has to stop now, if it has to. -/
def stop? (w : Watchdog) : Option Stop :=
  if w.cancelIn = some 0 then some .cancelled
  else if w.running && w.budget ≤ w.spent + w.delay then some .timedOut
  else none

/-- The time of a check passes. -/
def tick (w : Watchdog) : Watchdog :=
  { w with
    spent := if w.running then w.spent + w.delay + 1 else w.spent
    delays := w.delays.tail
    cancelIn := w.cancelIn.map (· - 1) }

/-- Stops counting. -/
def pause (w : Watchdog) : Watchdog := { w with running := false }

/-- Goes on counting, from zero if the policy resets the budget. -/
def resume (w : Watchdog) : Watchdog :=
  if w.running then w
  else { w with running := true, spent := if w.policy = .resetAfterInput then 0 else w.spent }

/-- The run is to stop at the next check. -/
def cancel (w : Watchdog) : Watchdog := { w with cancelIn := some 0 }

end Watchdog

end Pseudocode
