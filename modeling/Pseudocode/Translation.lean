import Pseudocode.Number.Numeral
import Pseudocode.Source.Line
import Pseudocode.Source.Classify

/-! # Translation

Every source line becomes exactly one line of script, blank lines and comments included. Line
`n` of the script therefore comes from line `n` of the source, and the mapping from script lines
to source lines is indexing.
-/

namespace Pseudocode

/-- The origin of one script line. -/
structure MappingEntry where
  /-- Line of the script, counted from one. -/
  generatedLine : Nat
  /-- Line of the source, counted from one. -/
  sourceLine : Nat
  /-- The raw text of the source line. -/
  sourceText : Text
  deriving DecidableEq, Repr

/-- A script and where its lines come from. -/
structure Translation where
  code : Text
  mapping : List MappingEntry
  deriving DecidableEq, Repr

namespace Translation

/-- The element of a list with a number that counts from one. -/
def nth? {α : Type} (items : List α) : Nat → Option α
  | 0 => none
  | i + 1 => items[i]?

/-- The mapping entry of a script line. -/
def entry? (t : Translation) (generatedLine : Nat) : Option MappingEntry :=
  nth? t.mapping generatedLine

/-- The text of a source line. -/
def sourceText? (t : Translation) (sourceLine : Nat) : Option Text :=
  (nth? t.mapping sourceLine).map MappingEntry.sourceText

/-- The text of a script line. -/
def generatedText? (t : Translation) (generatedLine : Nat) : Option Text :=
  nth? (Text.pieces '\n' t.code) generatedLine

/-! ## Statements -/

/-- An operand that is computed. -/
def value (operand : Text) : Text := Expression.rewrite .value operand

/-- An operand that is tested. -/
def condition (operand : Text) : Text := Expression.rewrite .condition operand

/-- A request for input. -/
def inputCall (prompt : Option Text) : Text :=
  match prompt with
  | some prompt => text "await input(" ++ value prompt ++ [')']
  | none => text "await input(\"\")"

/-- A right-hand side. -/
def initializer : Initializer → Text
  | .expression operand => value operand
  | .input prompt => inputCall prompt

/-- A block header. -/
def opening (keyword operand : Text) : Text := keyword ++ text " (" ++ operand ++ text ") \x7b"

/-- The parts of a loop header after its variable and start: how the variable is compared with the
    stop value, and how it advances. A step that is a numeral fixes the direction; the direction of
    any other step is decided in every round. -/
def loopClauses (name stop : Text) (step : Option Text) : Text × Text :=
  match step with
  | none => (name ++ text " <= " ++ stop, name ++ text " += 1")
  | some step =>
    match Numeral.double? (step.filter fun c => !Text.isBlank c) with
    | some n =>
      if n.isBelowZero then
        (name ++ text " >= " ++ stop, name ++ text " -= " ++ Numeral.shortestText n.negate)
      else (name ++ text " <= " ++ stop, name ++ text " += " ++ Numeral.shortestText n)
    | none =>
      let step := value step
      ('(' :: step ++ text ") > 0 ? " ++ name ++ text " <= " ++ stop ++ text " : " ++ name ++
        text " >= " ++ stop, name ++ text " += " ++ step)

/-- The header of a counting loop. -/
def forLoop (name start stop : Text) (step : Option Text) : Text :=
  let (test, advance) := loopClauses name (value stop) step
  text "for (let " ++ name ++ text " = " ++ value start ++ text "; " ++ test ++ text "; " ++
    advance ++ text ") \x7b"

/-- The keyword that declares a name. -/
def declarationWord (kind : DeclarationKind) : Text :=
  if kind.isMutable then text "let" else text "const"

/-- A declaration. A name without a value can only be a variable. -/
def declaration (kind : DeclarationKind) (name : Text) (size : Option Text)
    (init : Option Initializer) : Text :=
  match size, init with
  | some size, _ =>
    declarationWord kind ++ ' ' :: name ++ text " = new Array(" ++ value size ++ text ").fill(0);"
  | none, some init =>
    declarationWord kind ++ ' ' :: name ++ text " = " ++ initializer init ++ [';']
  | none, none => text "let " ++ name ++ [';']

/-- A line that is kept as it is ends like any other statement. -/
def verbatim (line : Text) : Text :=
  match line.getLast? with
  | some c => if c = ';' || c = '\x7b' || c = '\x7d' then line else line ++ [';']
  | none => [';']

/-- The script of one statement; `line` is the trimmed line that it was read from. -/
def statement (line : Text) : Statement → Text
  | .blank => []
  | .comment note => if note.isEmpty then text "//" else text "// " ++ note
  | .header name => text "// Algorithm " ++ name
  | .footer => text "// EndAlgorithm"
  | .forLoop name start stop step => forLoop name start stop step
  | .whileLoop c => opening (text "while") (condition c)
  | .branch c => opening (text "if") (condition c)
  | .elseIf c => opening (text "\x7d else if") (condition c)
  | .otherwise => text "\x7d else \x7b"
  | .function name parameters =>
    text "function " ++ name ++ '(' :: Text.join (text ", ") parameters ++ text ") \x7b"
  | .returning (some v) => text "return " ++ value v ++ [';']
  | .returning none => text "return;"
  | .breaking => text "break;"
  | .continuing => text "continue;"
  | .ending _ => text "\x7d"
  | .declaration kind name size init => declaration kind name size init
  | .set v target => value target ++ text " = " ++ value v ++ [';']
  | .declare name typeName => text "let " ++ name ++ text "; // " ++ typeName
  | .print operands => text "print(" ++ Text.join (text ", ") (operands.map value) ++ text ");"
  | .input prompt (some target) => value target ++ text " = " ++ inputCall prompt ++ [';']
  | .input prompt none => inputCall prompt ++ [';']
  | .assignment target operator (.expression operand) =>
    value target ++ ' ' :: operator.sign ++ ' ' :: value operand ++ [';']
  | .assignment target _ (.input prompt) => value target ++ text " = " ++ inputCall prompt ++ [';']
  | .call called => value called ++ [';']
  | .malformed _ _ | .raw _ => verbatim line

/-- The script line of a source line, at the same indentation. -/
def scriptLine (line : Line) : Text :=
  let script := statement line.trimmed (Statement.classify line.trimmed)
  if script.isEmpty then script else line.leading ++ script

/-- The mapping entry of a source line. -/
def entryOf (line : Line) : MappingEntry := ⟨line.number, line.number, line.raw⟩

end Translation

/-- The script of a program. -/
def translate (source : Text) : Translation :=
  let lines := Source.lines source
  ⟨Text.join ['\n'] (lines.map Translation.scriptLine), lines.map Translation.entryOf⟩

end Pseudocode
