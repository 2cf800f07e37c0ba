import Pseudocode.Number.Double
import Pseudocode.Report.Column
import Pseudocode.Script.Position
import Pseudocode.Translation

/-! # Locations

A script is run inside a function, whose header is one more line above it. Positions of that text are
therefore one line below the script's, and each line of the script comes from a line of the source.
The place of an error is read back from the trace of its calls.
-/

namespace Pseudocode

/-- The text that is run: the script as the body of one function. -/
def Translation.wrapped (code : Text) : Text :=
  text "async function __program__(print, input) \x7b\n" ++ code ++ text "\n\x7d"

/-- Lines above the script in the text that is run. -/
def Translation.wrapperLines : Nat := 1

/-- The mapping entry of a line of the text that is run. -/
def Translation.entryOfWrapped? (t : Translation) (line : Nat) : Option MappingEntry :=
  t.entry? (line - Translation.wrapperLines)

/-- A place in the source. -/
structure Location where
  line : Nat
  column : Option Nat
  /-- The raw text of the line. -/
  text : Text
  deriving DecidableEq, Repr

namespace Location

/-- The place in the source of a line of the text that is run, and of a column of it. -/
def find? (t : Translation) (line : Nat) (column : Option Nat) : Option Location :=
  (t.entryOfWrapped? line).map fun entry =>
    { line := entry.sourceLine
      column := do Column.map? (← t.generatedText? entry.generatedLine) entry.sourceText (← column)
      text := entry.sourceText }

/-! ## Places in traces -/

/-- What a trace writes before a place. -/
def mark : Text := Pseudocode.text "<sandbox>:"

/-- A number that fits 64 bits, written in ASCII digits. -/
def number? (digits : Text) : Option Nat :=
  let n := Numeral.digitsValue digits
  if digits.all Char.isDigit && n < 2 ^ 64 then some n else none

/-- The digits of a line and of a column that a text begins with, after the mark. -/
def digitsAtMark? (t : Text) : Option (Text × Text) := do
  let t ← Text.dropStart? mark t
  let line := t.takeWhile Text.isDecimalDigit
  let t ← Text.dropStart? [':'] (t.dropWhile Text.isDecimalDigit)
  let column := t.takeWhile Text.isDecimalDigit
  if line.isEmpty || column.isEmpty then none else some (line, column)

/-- The digits of the first place in a trace. -/
def firstDigits? : Text → Option (Text × Text)
  | [] => none
  | c :: r =>
    match digitsAtMark? (c :: r) with
    | some found => some found
    | none => firstDigits? r

/-- The first place in a trace. -/
def inStack? (stack : Text) : Option Script.Position := do
  let (line, column) ← firstDigits? stack
  return ⟨← number? line, ← number? column⟩

end Location

end Pseudocode
