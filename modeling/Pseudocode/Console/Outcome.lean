import Pseudocode.Json
import Pseudocode.Run.Dialogue
import Pseudocode.Server
import Pseudocode.Source.Validation

/-! # What commands write

A command writes to standard output and to standard error, and either succeeds or fails. The result
of a program goes to the output; errors and warnings go beside it, except those that a check is
asked for.
-/

namespace Pseudocode.Console

/-- What a command writes, and whether it succeeds. -/
structure Outcome where
  stdout : Text
  stderr : Text
  ok : Bool
  deriving DecidableEq, Repr

namespace Outcome

/-- A text as a line. -/
def line (t : Text) : Text := t ++ ['\n']

/-- Nothing to write. -/
def empty : Outcome := ⟨[], [], true⟩

/-- One outcome after another. Both have to succeed. -/
def append (a b : Outcome) : Outcome := ⟨a.stdout ++ b.stdout, a.stderr ++ b.stderr, a.ok && b.ok⟩

/-- A file that cannot be read. -/
def unreadable (file cause : Text) : Outcome :=
  let report :=
    text "Error: could not read " ++ file ++ text "\n\nCaused by:\n    " ++ Outcome.line cause
  ⟨[], report, false⟩

/-- Why a file that does not exist cannot be read. -/
def notFound : Text := text "No such file or directory (os error 2)"

/-- Lists what is wrong with a program. -/
def check (source : Text) : Outcome :=
  let findings := validate source
  if findings.isEmpty then ⟨line (text "ok"), [], true⟩
  else
    let report := Report.ofIssues (findings.map Finding.issue)
    ⟨line report.message, [], !hasErrors findings⟩

/-- The document of a script and its mapping. -/
def mappingJson (t : Translation) : Json :=
  .object [(text "code", .string t.code), (text "mapping", .array (t.mapping.map fun entry =>
    .object [(text "generatedLine", Json.ofNat entry.generatedLine),
      (text "sourceLine", Json.ofNat entry.sourceLine),
      (text "sourceText", .string entry.sourceText)]))]

/-- Writes the script of a program, if it has no errors. -/
def translate (source : Text) (mapping : Bool) : Outcome :=
  let findings := validate source
  let issues := findings.map Finding.issue
  if hasErrors findings then ⟨[], line (Report.ofIssues issues).message, false⟩
  else
    let script := Pseudocode.translate source
    ⟨line (if mapping then (mappingJson script).pretty else script.code),
      issues.flatMap fun issue => line (Report.warning issue), true⟩

/-- What an event shows to a person at the terminal. -/
def ofEvent : Event → Outcome
  | .stdout t => ⟨line t, [], true⟩
  | .stderr t => ⟨[], line t, true⟩
  | .error report => ⟨[], line report.message, false⟩
  | .done => empty
  | .inputRequest _ prompt => ⟨if prompt.isEmpty then [] else prompt ++ [' '], [], true⟩

/-- What events show to a person at the terminal. -/
def ofEvents (events : List Event) : Outcome := (events.map ofEvent).foldr append empty

/-- Runs a program whose requests are answered by the lines of `input`, and up to `blanks` times by
    nothing after its end. -/
def run (source : Text) (limits : Limits) (ids : Nat → Text) (input : Text) (blanks : Nat) :
    Outcome :=
  let replies := (Source.lineTexts input).map Reply.answer ++ List.replicate blanks (.answer [])
  let (exchanges, _) := (Execution.ofSource source limits ids).converse replies
  ofEvents (exchanges.filterMap fun
    | .event event => some event
    | _ => none)

/-- The events of a connection on which all lines come before any event is read. What still runs
    after the last line may go on as long as it needs no answer. -/
def serve (policy : TimeoutPolicy) (ids : Nat → Nat → Text) (input : Text) : List Event :=
  let (events, server) := (Source.lineTexts input).foldl (fun (events, server) received =>
    let (reply, server) := server.handleLine received
    (events ++ reply.toList, server)) ([], Server.connect policy ids)
  match server.current with
  | some execution => events ++ execution.drain.1
  | none => events

end Outcome

end Pseudocode.Console
