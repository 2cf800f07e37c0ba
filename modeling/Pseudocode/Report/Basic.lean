import Pseudocode.Source.Validation

/-! # Reports

What the user is told when a program cannot be run, or is run and fails. A report names the phase in
which the program failed and, where that is known, the line and the column of the source.
-/

namespace Pseudocode

/-- The stage at which a program fails. -/
inductive Phase where
  | validation
  | translation
  | parsing
  | runtime
  | execution
  | timeout
  deriving DecidableEq, Repr

namespace Phase

/-- All phases. -/
def all : List Phase := [validation, translation, parsing, runtime, execution, timeout]

/-- The name of a phase. -/
def name : Phase → Text
  | validation => text "validation"
  | translation => text "translation"
  | parsing => text "syntax"
  | runtime => text "runtime"
  | execution => text "execution"
  | timeout => text "timeout"

end Phase

/-- How prominently an error is shown. -/
inductive Severity where
  | low
  | medium
  | high
  deriving DecidableEq, Repr

namespace Severity

/-- All severities. -/
def all : List Severity := [low, medium, high]

/-- The name of a severity. -/
def name : Severity → Text
  | low => text "low"
  | medium => text "medium"
  | high => text "high"

/-- The severity of an error by its name. -/
def ofErrorName (name : Text) : Severity :=
  if name = text "SyntaxError" then high
  else if name = text "ReferenceError" ∨ name = text "TypeError" then medium
  else low

end Severity

/-- Whether an issue keeps a program from being run. -/
inductive IssueKind where
  | error
  | warning
  deriving DecidableEq, Repr

namespace IssueKind

/-- Both kinds. -/
def all : List IssueKind := [error, warning]

/-- The name of a kind. -/
def name : IssueKind → Text
  | error => text "error"
  | warning => text "warning"

end IssueKind

/-- Something wrong with a line, as it is told. -/
structure Issue where
  line : Nat
  /-- The raw text of the line. -/
  text : Text
  message : Text
  kind : IssueKind
  deriving DecidableEq, Repr

/-- A finding as it is told. -/
def Finding.issue (f : Finding) : Issue :=
  ⟨f.line, f.text, f.cause.message, if f.isError then .error else .warning⟩

/-- What the user is told about a failure. -/
structure Report where
  name : Text
  /-- The error with its surroundings in the source and some advice. -/
  message : Text
  stack : Option Text
  phase : Phase
  /-- The line of the source. -/
  line : Option Nat
  column : Option Nat
  issues : Option (List Issue)
  /-- The raw text of the line. -/
  originalText : Option Text
  formatted : Option Bool
  severity : Severity
  suggestions : List Text
  deriving DecidableEq, Repr

end Pseudocode
