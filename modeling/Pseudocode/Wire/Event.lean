import Pseudocode.Event
import Pseudocode.Wire.Record

/-! # Events on the wire

An event is written on one line, as an object whose field `type` says which event it is. Fields of a
report that have no value are left out.
-/

namespace Pseudocode

open Wire

/-- The value of a word that carries none: null or the empty object. -/
def Wire.isUnit : Json → Bool
  | .null | .object [] => true
  | _ => false

namespace Issue

/-- The names of the fields of an issue. -/
def fieldNames : List Text :=
  [Pseudocode.text "line", Pseudocode.text "text", Pseudocode.text "message", Pseudocode.text "kind"]

/-- The object of an issue. -/
def toJson (i : Issue) : Json :=
  .object [(Pseudocode.text "line", Json.ofNat i.line), (Pseudocode.text "text", .string i.text),
    (Pseudocode.text "message", .string i.message), (Pseudocode.text "kind", .string i.kind.name)]

/-- The issue that a document is. -/
def ofJson? (json : Json) : Option Issue := do
  let fields ← fields? fieldNames json
  return {
    line := ← required? Json.nat? (Pseudocode.text "line") fields
    text := ← required? Json.text? (Pseudocode.text "text") fields
    message := ← required? Json.text? (Pseudocode.text "message") fields
    kind := ← defaulted? (word? isUnit IssueKind.all IssueKind.name) .error
      (Pseudocode.text "kind") fields }

end Issue

namespace Report

/-- The names of the fields of a report. -/
def fieldNames : List Text :=
  [text "name", text "message", text "stack", text "phase", text "line", text "column",
    text "issues", text "originalText", text "formatted", text "severity", text "suggestions"]

/-- The object of a report. -/
def toJson (r : Report) : Json :=
  .object (
    [(text "name", .string r.name), (text "message", .string r.message)] ++
    optionalField Json.string (text "stack") r.stack ++
    [(text "phase", .string r.phase.name)] ++
    optionalField Json.ofNat (text "line") r.line ++
    optionalField Json.ofNat (text "column") r.column ++
    optionalField (fun issues => Json.array (issues.map Issue.toJson)) (text "issues") r.issues ++
    optionalField Json.string (text "originalText") r.originalText ++
    optionalField Json.bool (text "formatted") r.formatted ++
    [(text "severity", .string r.severity.name)] ++
    if r.suggestions.isEmpty then []
    else [(text "suggestions", .array (r.suggestions.map Json.string))])

/-- The report that a document is. -/
def ofJson? (json : Json) : Option Report := do
  let fields ← fields? fieldNames json
  return {
    name := ← required? Json.text? (text "name") fields
    message := ← required? Json.text? (text "message") fields
    stack := ← optional? Json.text? (text "stack") fields
    phase := ← required? (word? isUnit Phase.all Phase.name) (text "phase") fields
    line := ← optional? Json.nat? (text "line") fields
    column := ← optional? Json.nat? (text "column") fields
    issues := ← optional? (Json.listOf? Issue.ofJson?) (text "issues") fields
    originalText := ← optional? Json.text? (text "originalText") fields
    formatted := ← optional? Json.bool? (text "formatted") fields
    severity := ← required? (word? isUnit Severity.all Severity.name) (text "severity") fields
    suggestions := ← defaulted? (Json.listOf? Json.text?) [] (text "suggestions") fields }

end Report

namespace Event

/-- The object of an event. -/
def toJson : Event → Json
  | .stdout t => .object [(text "type", .string (text "stdout")), (text "text", .string t)]
  | .stderr t => .object [(text "type", .string (text "stderr")), (text "text", .string t)]
  | .error r => .object [(text "type", .string (text "error")), (text "error", r.toJson)]
  | .done => .object [(text "type", .string (text "done"))]
  | .inputRequest id prompt =>
    .object [(text "type", .string (text "input-request")), (text "id", .string id),
      (text "prompt", .string prompt)]

/-- The event of a type whose fields are in a document. -/
def ofFields? (type : Text) (json : Json) : Option Event :=
  if type = text "stdout" then do
    let fields ← fields? [text "text"] json
    return .stdout (← required? Json.text? (text "text") fields)
  else if type = text "stderr" then do
    let fields ← fields? [text "text"] json
    return .stderr (← required? Json.text? (text "text") fields)
  else if type = text "error" then do
    let fields ← fields? [text "error"] json
    return .error (← required? Report.ofJson? (text "error") fields)
  else if type = text "done" then (fields? [] json).map fun _ => .done
  else if type = text "input-request" then do
    let fields ← fields? [text "id", text "prompt"] json
    return .inputRequest (← required? Json.text? (text "id") fields)
      (← required? Json.text? (text "prompt") fields)
  else none

/-- The event that a document is. In an array the type comes first. -/
def ofJson? : Json → Option Event
  | .array (.string type :: values) => ofFields? type (.array values)
  | json@(.object _) => do
    let fields ← fields? [text "type"] json
    ofFields? (← required? Json.text? (text "type") fields) json
  | _ => none

/-- The line of an event, with its line break. -/
def line (e : Event) : Text := e.toJson.compact ++ ['\n']

end Event

end Pseudocode
