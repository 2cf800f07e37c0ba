import Pseudocode.Wire.Record

/-! # Messages of the host

The host sends one message a line: it starts a program or answers an input request. Messages are told
apart by their fields, and an answer is tried first.
-/

namespace Pseudocode

open Wire

/-- Something that the host wants. -/
inductive Message where
  /-- Runs a program, with a budget in milliseconds. -/
  | start (source : Text) (budget : Option Nat)
  /-- Answers an input request. -/
  | response (id value : Text)
  deriving DecidableEq, Repr

/-- Why a line is no message. -/
inductive MessageFault where
  | notJson
  | unknownShape
  deriving DecidableEq, Repr

/-- The text of the fault. -/
def MessageFault.message : MessageFault → Text
  | .notJson => text "the line is not a JSON document"
  | .unknownShape => text "data did not match any variant of untagged enum Inbound"

namespace Message

/-- The object of a message. -/
def toJson : Message → Json
  | .start source budget =>
    .object ((text "code", .string source) :: optionalField Json.ofNat (text "timeout") budget)
  | .response id value =>
    .object [(text "type", .string (text "input-response")), (text "id", .string id),
      (text "value", .string value)]

/-- Whether the document is null. -/
def isNull : Json → Bool
  | .null => true
  | _ => false

/-- The answer that an object is. -/
def response? (json : Json) : Option Message := do
  let fields ← fields? [text "type", text "id", text "value"] json
  let _ ← required? (word? isNull [()] fun _ => text "input-response") (text "type") fields
  return .response (← required? Json.text? (text "id") fields)
    (← required? Json.text? (text "value") fields)

/-- The start that an object is. -/
def start? (json : Json) : Option Message := do
  let fields ← fields? [text "code", text "timeout"] json
  return .start (← required? Json.text? (text "code") fields)
    (← optional? Json.nat? (text "timeout") fields)

/-- The message that a document is. -/
def ofJson? : Json → Option Message
  | json@(.object _) => response? json <|> start? json
  | _ => none

/-- The message of a line. -/
def parse (line : Text) : Except MessageFault Message :=
  match Json.parse? line with
  | none => .error .notJson
  | some json =>
    match ofJson? json with
    | some message => .ok message
    | none => .error .unknownShape

/-- The line of a message, without a line break. -/
def line (m : Message) : Text := m.toJson.compact

end Message

end Pseudocode
