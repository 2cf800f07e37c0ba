import Pseudocode.Console.Command
import Pseudocode.Console.Outcome
import Pseudocode.Wire.Event

/-! # The program

Runs the command of the command line.
-/

namespace Pseudocode.Main

open Console

/-- Writes an outcome and gives the exit code. -/
def write (o : Outcome) : IO UInt32 := do
  let stdout ← IO.getStdout
  stdout.putStr (String.ofList o.stdout)
  stdout.flush
  (← IO.getStderr).putStr (String.ofList o.stderr)
  return if o.ok then 0 else 1

/-- Does something with the program in a file, or in standard input. -/
def withSource (file : Option Text) (use : Text → IO UInt32) : IO UInt32 := do
  match file with
  | some file =>
    let path := String.ofList file
    match ← EIO.toBaseIO (IO.FS.readFile path) with
    | .ok source => use source.toList
    | .error (.noFileOrDirectory _ _ _) => write (Outcome.unreadable file Outcome.notFound)
    | .error cause => write (Outcome.unreadable file cause.toString.toList)
  | none => use (← (← IO.getStdin).readToEnd).toList

/-- A line of standard input without its end, unless there is none. -/
def readLine? : IO (Option Text) := do
  let line ← (← IO.getStdin).getLine
  return (Source.lineTexts line.toList).head?

/-- Runs a program at the terminal. -/
partial def interact (e : Execution) (ok : Bool) : IO UInt32 := do
  let (events, e) := e.drain
  let shown := Outcome.ofEvents events
  let _ ← write shown
  let ok := ok && shown.ok
  match e.slot.pending? with
  | none => return if ok then 0 else 1
  | some id =>
    let answer := (← readLine?).getD []
    match e.respond id answer with
    | .ok e => interact e ok
    | .error fault => write ⟨[], Outcome.line fault.message, false⟩

/-- Writes an event on the wire. -/
def emit (event : Event) : IO Unit := do
  let stdout ← IO.getStdout
  stdout.putStr (String.ofList event.line)
  stdout.flush

/-- Serves a host. Lines that have come are followed before events are written. -/
partial def serve (s : Server) (reader : Task (Except IO.Error (Option Text))) : IO Unit := do
  let waitForLine : IO Unit := do
    match ← IO.ofExcept reader.get with
    | some line =>
      let (reply, s) := s.handleLine line
      reply.forM emit
      serve s (← IO.asTask readLine?)
    | none => s.current.forM fun e => e.drain.1.forM emit
  if ← IO.hasFinished reader then waitForLine
  else match s.poll with
    | (.event event, s) => do
      emit event
      serve s reader
    | _ => waitForLine

/-- Runs a command. -/
def execute : Command → IO UInt32
  | .check file => withSource file fun source => write (Outcome.check source)
  | .translate file mapping => withSource file fun source => write (Outcome.translate source mapping)
  | .run file limits => withSource (some file) fun source =>
    interact (Execution.ofSource source limits Text.ofNat) true
  | .serve policy => do
    let ids (program request : Nat) := Text.ofNat program ++ '.' :: Text.ofNat request
    serve (Server.connect policy ids) (← IO.asTask readLine?)
    return 0

end Pseudocode.Main

/-- The entry point. -/
def main (arguments : List String) : IO UInt32 :=
  match Pseudocode.Console.Command.parse? (arguments.map String.toList) with
  | some command => Pseudocode.Main.execute command
  | none => do
    (← IO.getStderr).putStr (String.ofList Pseudocode.Console.Command.usage)
    return 2
