import Pseudocode.Proofs.BlockGrammar
import Pseudocode.Script.Evaluation

/-!
# Outlines

An outline is a program as a tree: statements with blocks inside of them, over names, numbers and
strings. It can be written down in two ways. `Outline.source` is the text of a pseudocode program,
one statement in a line and every line indented at will; `Outline.commands` is what the outline says
in the script.

The words of an outline carry the proof that they are words of both languages, so every outline has a
source. Whether its statements may stand where they stand is `Outline.IsPlaced`.
-/

namespace Pseudocode

namespace Outline

open Script

/-! ## Words -/

/-- The words with a meaning in pseudocode, in lower case. -/
def reservedWords : List Text :=
  Statement.keywords.map Prod.fst ++
    [text "to", text "step", text "do", text "then", text "and", text "or", text "not", text "mod",
      text "true", text "false"]

/-- A name that neither language gives a meaning to. -/
structure Name where
  chars : Text
  start : ∃ c ∈ chars.head?, Shape.isNameStart c = true
  plain : ∀ c ∈ chars, c.isAlphanum = true ∨ c = '_'
  unreserved : Text.toLower chars ∉ reservedWords
  notKeyword : chars ∉ Token.keywords
  deriving DecidableEq

/-- A decimal integer. -/
structure Digits where
  chars : Text
  ne_nil : chars ≠ []
  digits : ∀ c ∈ chars, c.isDigit = true
  deriving DecidableEq

/-- The inside of a string literal without quotes and backslashes. -/
structure Quoted where
  chars : Text
  plain : ∀ c ∈ chars, c ≠ '"' ∧ c ≠ '\\' ∧ c ≠ '\n'
  deriving DecidableEq

/-- The bit pattern of the double that is nearest to an integer. -/
def Digits.bits (d : Digits) : Nat := Decimal.nearestBits (Numeral.digitsValue d.chars) 0

/-- What a name says. -/
def Name.expression (n : Name) : Expression := .identifier nowhere n.chars

/-- What an integer says. -/
def Digits.expression (d : Digits) : Expression :=
  .number nowhere (Float.ofBits (UInt64.ofNat d.bits))

/-- Zero. -/
def Digits.zero : Digits := ⟨['0'], by simp, by simp⟩

/-- One. -/
def Digits.one : Digits := ⟨['1'], by simp, by simp⟩

/-- A bound of a counting loop. -/
inductive Bound where
  | name (n : Name)
  | digits (d : Digits)
  deriving DecidableEq

/-- The text of a bound. -/
def Bound.source : Bound → Text
  | name n => n.chars
  | digits d => d.chars

/-- What a bound says. -/
def Bound.expression : Bound → Expression
  | name n => n.expression
  | digits d => d.expression

/-- A name, an integer or a string. -/
inductive Operand where
  | bound (b : Bound)
  | quoted (q : Quoted)
  deriving DecidableEq

/-- The text of an operand. -/
def Operand.source : Operand → Text
  | bound b => b.source
  | quoted q => '"' :: (q.chars ++ ['"'])

/-- What an operand says. -/
def Operand.expression : Operand → Expression
  | bound b => b.expression
  | quoted q => .string nowhere q.chars

/-- The relations between two operands. -/
inductive Relation where
  | less
  | greater
  | lessEqual
  | greaterEqual
  | equal
  | unequal
  deriving DecidableEq

/-- The sign of a relation in pseudocode. -/
def Relation.source : Relation → Text
  | less => text "<"
  | greater => text ">"
  | lessEqual => text "<="
  | greaterEqual => text ">="
  | equal => text "="
  | unequal => text "<>"

/-- The operator of a relation in the script. -/
def Relation.operator : Relation → BinaryOperator
  | less => .less
  | greater => .greater
  | lessEqual => .lessEqual
  | greaterEqual => .greaterEqual
  | equal => .equal
  | unequal => .notEqual

/-- A condition: an operand, or two operands that are compared. -/
inductive Condition where
  | single (o : Operand)
  | compare (left : Operand) (relation : Relation) (right : Operand)
  deriving DecidableEq

/-- The text of a condition. -/
def Condition.source : Condition → Text
  | single o => o.source
  | compare left relation right =>
    left.source ++ ' ' :: (relation.source ++ ' ' :: right.source)

/-- What a condition says. -/
def Condition.expression : Condition → Expression
  | single o => o.expression
  | compare left relation right =>
    .binary nowhere relation.operator left.expression right.expression

/-! ## Statements -/

/-- A statement without a block. -/
inductive Simple where
  | print (operands : List Operand)
  | assign (target : Name) (value : Operand)
  | call (callee : Name) (operands : List Operand)
  | returning (value : Option Operand)
  | breaking
  | continuing
  deriving DecidableEq

/-- Operands between commas. -/
def list (operands : List Operand) : Text := Text.join (text ", ") (operands.map Operand.source)

/-- The line of a statement without a block. -/
def Simple.source : Simple → Text
  | print [] => text "print"
  | print operands => text "print " ++ list operands
  | assign target value => target.chars ++ text " = " ++ value.source
  | call callee operands => callee.chars ++ '(' :: (list operands ++ [')'])
  | returning none => text "return"
  | returning (some value) => text "return " ++ value.source
  | breaking => text "break"
  | continuing => text "continue"

/-- What a statement without a block says. -/
def Simple.command : Simple → Command
  | print operands =>
    .expression (.call nowhere (.identifier nowhere (text "print"))
      (operands.map Operand.expression))
  | assign target value => .expression (.assign nowhere .plain target.expression value.expression)
  | call callee operands =>
    .expression (.call nowhere callee.expression (operands.map Operand.expression))
  | returning value => .returning nowhere (value.map Operand.expression)
  | breaking => .breaking nowhere
  | continuing => .continuing nowhere

/-- A statement without a block that may stand inside the blocks. -/
def Simple.MayStand (around : List Validation.Enclosing) : Simple → Prop
  | returning _ => Validation.InFunction around
  | breaking | continuing => Validation.InLoop around
  | print _ | assign _ _ | call _ _ => True

/-- The header of a counting loop. -/
structure Counter where
  name : Name
  start : Bound
  stop : Bound
  step : Option Bound
  deriving DecidableEq

namespace Counter

/-- The line of a counting loop. -/
def source (c : Counter) : Text :=
  text "for " ++ c.name.chars ++ text " = " ++ c.start.source ++ text " to " ++ c.stop.source ++
    match c.step with
    | none => []
    | some step => text " step " ++ step.source

/-- The comparison of the variable with its last value. -/
def compare (c : Counter) (operator : BinaryOperator) : Expression :=
  .binary nowhere operator c.name.expression c.stop.expression

/-- The advance of the variable. -/
def advance (c : Counter) (step : Expression) : Expression :=
  .assign nowhere .add c.name.expression step

/-- The test and the update of a loop whose step is a name: the sign of the step is looked at in
    every round. -/
def runtimeClauses (c : Counter) (step : Name) : Expression × Expression :=
  (.conditional nowhere (.binary nowhere .greater step.expression Digits.zero.expression)
    (c.compare .lessEqual) (c.compare .greaterEqual), c.advance step.expression)

/-- The test and the update that a loop says. -/
def clauses (c : Counter) : Expression × Expression :=
  match c.step with
  | none => (c.compare .lessEqual, c.advance Digits.one.expression)
  | some (.digits d) => (c.compare .lessEqual, c.advance d.expression)
  | some (.name n) => c.runtimeClauses n

end Counter

/-! ## Lines -/

/-- A line of a program that is written from an outline. -/
inductive Entry where
  | header
  | footer
  | simple (s : Simple)
  | whileLoop (c : Condition)
  | forLoop (c : Counter)
  | function (name : Name) (parameters : List Name)
  | branch (c : Condition)
  | elseIf (c : Condition)
  | otherwise
  | ending (kind : BlockKind)
  deriving DecidableEq

/-- The text of a line. -/
def Entry.source : Entry → Text
  | header => text "Algorithm A"
  | footer => text "EndAlgorithm"
  | simple s => s.source
  | whileLoop c => text "while " ++ c.source ++ text " do"
  | forLoop c => c.source
  | function name parameters =>
    text "function " ++ name.chars ++
      '(' :: (Text.join (text ", ") (parameters.map Name.chars) ++ [')'])
  | branch c => text "if " ++ c.source ++ text " then"
  | elseIf c => text "elseif " ++ c.source ++ text " then"
  | otherwise => text "else"
  | ending kind => text "end" ++ kind.word

end Outline

/-! ## Trees -/

open Script Outline

mutual

/-- A list of statements, each with the blocks inside of it. -/
inductive Outline where
  | nil
  | simple (s : Simple) (rest : Outline)
  | whileLoop (c : Condition) (body rest : Outline)
  | forLoop (c : Counter) (body rest : Outline)
  | function (name : Name) (parameters : List Name) (body rest : Outline)
  | branch (c : Condition) (yes : Outline) (no : Alternatives) (rest : Outline)

/-- What follows the first block of a branch. -/
inductive Alternatives where
  | none
  | otherwise (body : Outline)
  | elseIf (c : Condition) (yes : Outline) (no : Alternatives)

end

mutual

/-- The lines of an outline. -/
def Outline.entries : Outline → List Entry
  | .nil => []
  | .simple s rest => .simple s :: rest.entries
  | .whileLoop c body rest => .whileLoop c :: (body.entries ++ .ending .whileLoop :: rest.entries)
  | .forLoop c body rest => .forLoop c :: (body.entries ++ .ending .forLoop :: rest.entries)
  | .function name parameters body rest =>
    .function name parameters :: (body.entries ++ .ending .function :: rest.entries)
  | .branch c yes no rest => .branch c :: (yes.entries ++ (no.entries ++ rest.entries))

/-- The lines of alternatives. -/
def Alternatives.entries : Alternatives → List Entry
  | .none => [.ending .branch]
  | .otherwise body => .otherwise :: (body.entries ++ [.ending .branch])
  | .elseIf c yes no => .elseIf c :: (yes.entries ++ no.entries)

end

mutual

/-- Every statement of the outline may stand inside the blocks that are around it. -/
def Outline.IsPlaced (around : List Validation.Enclosing) : Outline → Prop
  | .nil => True
  | .simple s rest => s.MayStand around ∧ rest.IsPlaced around
  | .whileLoop _ body rest => body.IsPlaced (.whileLoop :: around) ∧ rest.IsPlaced around
  | .forLoop c body rest =>
    Validation.IsFresh c.name.chars around ∧
      body.IsPlaced (.forLoop c.name.chars :: around) ∧ rest.IsPlaced around
  | .function _ _ body rest => body.IsPlaced (.function :: around) ∧ rest.IsPlaced around
  | .branch _ yes no rest =>
    yes.IsPlaced (.branch :: around) ∧ no.IsPlaced around ∧ rest.IsPlaced around

/-- Every statement of the alternatives may stand inside the blocks that are around it. -/
def Alternatives.IsPlaced (around : List Validation.Enclosing) : Alternatives → Prop
  | .none => True
  | .otherwise body => body.IsPlaced (.branch :: around)
  | .elseIf _ yes no => yes.IsPlaced (.branch :: around) ∧ no.IsPlaced around

end

mutual

/-- The commands of an outline whose counting loops have the given tests and updates. -/
def Outline.commandsWith (clauses : Counter → Expression × Expression) :
    Outline → List Command
  | .nil => []
  | .simple s rest => s.command :: rest.commandsWith clauses
  | .whileLoop c body rest =>
    .whileLoop c.expression (.block (body.commandsWith clauses)) :: rest.commandsWith clauses
  | .forLoop c body rest =>
    .forLoop nowhere
      (some (.declaration .let [⟨nowhere, c.name.chars, some c.start.expression⟩]))
      (some (clauses c).1) (some (clauses c).2) (.block (body.commandsWith clauses)) ::
        rest.commandsWith clauses
  | .function name parameters body rest =>
    .function nowhere name.chars nowhere (parameters.map Name.chars) false
      (body.commandsWith clauses) :: rest.commandsWith clauses
  | .branch c yes no rest =>
    .branch c.expression (.block (yes.commandsWith clauses)) (no.commandWith clauses) ::
      rest.commandsWith clauses

/-- The command of alternatives, if there are any; an `elseif` is a branch of its own. -/
def Alternatives.commandWith (clauses : Counter → Expression × Expression) :
    Alternatives → Option Command
  | .none => Option.none
  | .otherwise body => some (.block (body.commandsWith clauses))
  | .elseIf c yes no =>
    some (.branch c.expression (.block (yes.commandsWith clauses)) (no.commandWith clauses))

end

mutual

/-- The headers of the counting loops of an outline. -/
def Outline.counters : Outline → List Counter
  | .nil => []
  | .simple _ rest => rest.counters
  | .whileLoop _ body rest => body.counters ++ rest.counters
  | .forLoop c body rest => c :: (body.counters ++ rest.counters)
  | .function _ _ body rest => body.counters ++ rest.counters
  | .branch _ yes no rest => yes.counters ++ (no.counters ++ rest.counters)

/-- The headers of the counting loops of alternatives. -/
def Alternatives.counters : Alternatives → List Counter
  | .none => []
  | .otherwise body => body.counters
  | .elseIf _ yes no => yes.counters ++ no.counters

end

namespace Outline

/-- The commands of an outline. -/
def commands (o : Outline) : List Command := o.commandsWith Counter.clauses

/-- The lines of the program that an outline is the body of. -/
def listing (o : Outline) : List Entry := .header :: (o.entries ++ [.footer])

/-- Lines with spaces before them, as many as each line number is given. -/
def indented (indent : Nat → Nat) (lines : List Text) : List Text :=
  lines.mapIdx fun i line => List.replicate (indent i) ' ' ++ line

/-- The program that an outline is the body of. -/
def source (indent : Nat → Nat) (o : Outline) : Text :=
  Text.join ['\n'] (indented indent (o.listing.map Entry.source))

/-! ## Misread steps -/

/-- The translation does not see that the step is a name, or no number is great enough for it. -/
def Bound.IsMisread : Bound → Prop
  | .name n =>
    Text.sameWord n.chars (text "nan") ∨ Text.sameWord n.chars (text "inf") ∨
      Text.sameWord n.chars (text "infinity")
  | .digits d => d.bits = Double.infinityBits

instance (b : Bound) : Decidable b.IsMisread :=
  match b with
  | .name n => inferInstanceAs (Decidable (Text.sameWord n.chars (text "nan") ∨
      Text.sameWord n.chars (text "inf") ∨ Text.sameWord n.chars (text "infinity")))
  | .digits d => inferInstanceAs (Decidable (d.bits = Double.infinityBits))

/-- What the translation writes for a misread step. -/
def Bound.misreading : Bound → Text
  | .name n => if Text.sameWord n.chars (text "nan") then text "NaN" else text "inf"
  | .digits _ => text "inf"

/-- The test and the update of a loop as they are translated: a misread step is taken for a number
    above zero, under another name. -/
def Counter.translatedClauses (c : Counter) : Expression × Expression :=
  match c.step with
  | some step =>
    if step.IsMisread then
      (c.compare .lessEqual, c.advance (.identifier nowhere step.misreading))
    else c.clauses
  | none => c.clauses

end Outline

end Pseudocode
