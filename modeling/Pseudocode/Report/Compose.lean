import Pseudocode.Report.Advice
import Pseudocode.Report.Basic
import Pseudocode.Report.Location
import Pseudocode.Script.Machine

/-! # Composing reports

The message of a report starts with the error itself. It goes on with the line of the source, the
line before it and a caret under the column, as far as they are known, and ends with advice.
-/

namespace Pseudocode

namespace Report

/-- A line of the source with its number. -/
def numbered (width : Nat) (number line : Text) : Text :=
  Text.padLeft width number ++ text " | " ++ line

/-- The lines around a place, each after a line break. -/
def surroundings (program : Translation) (l : Location) : Text :=
  let width := (Text.ofNat l.line).length
  let before := match program.sourceText? (l.line - 1) with
    | some previous => text "\n     " ++ numbered width (Text.ofNat (l.line - 1)) previous
    | none => []
  let caret := match l.column with
    | some column =>
      let clamped := min (max column 1) (max l.text.length 1)
      text "\n     " ++ numbered width [] (List.replicate (clamped - 1) ' ' ++ ['^'])
    | none => []
  text "\n  at line " ++ Text.ofNat l.line ++ text ": " ++ Text.trim l.text ++ before ++
    text "\n  >  " ++ numbered width (Text.ofNat l.line) l.text ++ caret

/-- The advice, each piece of it on a line of its own. -/
def advice (tips : List Text) : Text :=
  if tips.isEmpty then []
  else text "\nSuggestions:" ++ tips.flatMap fun tip => text "\n  - " ++ tip

/-- An error, its place and advice. -/
def render (program : Translation) (headline : Text) (location : Option Location)
    (tips : List Text) : Text :=
  headline ++ ((location.map (surroundings program)).getD []) ++ advice tips

/-- A report without a place. -/
def plain (name message : Text) (phase : Phase) : Report :=
  { name
    message
    stack := none
    phase
    line := none
    column := none
    issues := none
    originalText := none
    formatted := some true
    severity := Severity.ofErrorName name
    suggestions := [] }

/-- A report with the place, if it is known, and advice. -/
def located (program : Translation) (name headline : Text) (phase : Phase)
    (location : Option Location) (tips : List Text) : Report :=
  { plain name (render program headline location tips) phase with
    line := location.map Location.line
    column := location.bind Location.column
    originalText := location.map Location.text
    suggestions := tips }

/-- One issue in the message of a report. -/
def issueLines (i : Issue) : Text :=
  let label := match i.kind with
    | .error => []
    | .warning => text " (warning)"
  let shown := Text.trim i.text
  text "\n  line " ++ Text.ofNat i.line ++ label ++ text ": " ++ i.message ++
    if shown.isEmpty then [] else text "\n      " ++ shown

/-- The report of a validation. It points to the first error, or to the first issue if none of them
    is an error. -/
def ofIssues (issues : List Issue) : Report :=
  let headline := match issues.length with
    | 1 => text "Validation failed with 1 issue:"
    | n => text "Validation failed with " ++ Text.ofNat n ++ text " issues:"
  let first := (issues.find? fun i => i.kind = .error) <|> issues.head?
  { plain (text "ValidationError") (headline ++ issues.flatMap issueLines) .validation with
    line := first.map Issue.line
    originalText := first.map Issue.text
    issues := some issues }

/-- The advice of a warning on one line. -/
def warning (i : Issue) : Text :=
  text "warning: line " ++ Text.ofNat i.line ++ text ": " ++ i.message

/-- The report of a translation that failed. -/
def ofTranslation (message : Text) : Report :=
  plain (text "TranslationError") (text "internal translator failure: " ++ message) .translation

/-- The report of a script that is no program. -/
def ofFault (program : Translation) (message : Text) (p : Script.Position) : Report :=
  located program (text "SyntaxError") (text "SyntaxError: " ++ message) .parsing
    (Location.find? program p.line (some p.column)) (Advice.forMessage message)

/-- The report of an error of a running script. Its place is the first one of the trace. -/
def ofError (program : Translation) (name : Script.ErrorName) (message stack : Text)
    (p : Script.Position) : Report :=
  let p := (Location.inStack? stack).getD p
  { located program name.toText (name.toText ++ text ": " ++ message) .runtime
      (Location.find? program p.line (some p.column)) (Advice.forMessage message) with
    stack := some stack }

/-- The report of a run that spent its budget. -/
def ofTimeout (program : Translation) (milliseconds : Nat) (p : Script.Position) : Report :=
  let headline :=
    text "TimeoutError: Execution timed out after " ++ Text.ofNat milliseconds ++ text "ms"
  located program (text "TimeoutError") headline .timeout (Location.find? program p.line none)
    (Advice.forMessage headline)

/-- The report of a failure that is not the program's. -/
def ofInternal (message : Text) : Report :=
  { plain (text "InternalError") (text "InternalError: " ++ message) .execution with
    formatted := some false }

end Report

end Pseudocode
