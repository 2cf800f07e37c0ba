import Pseudocode.Script.Expression
import Pseudocode.Script.Grammar

/-! # Programs

A program is a script that has been checked before it runs: jumps have something to jump out of,
assignments have a target, a block declares a name once, and no expression is nested deeper than
`Program.maxDepth`. The checks go through the script from its beginning and the first thing that
is wrong is reported, at a position; a text that is no script at all is reported where it was no
longer understood.

* `Program.Cause`          what can be wrong
* `Phrase.check`           expressions of phrases
* `Statement.check`        statements over expressions
* `Program.parse`          the program of a text
-/

namespace Pseudocode.Script

/-- A statement that can be run. -/
abbrev Command := Statement Expression Position

/-- A script that has been checked. -/
abbrev Program := List Command

/-- The number of parts of an expression that need not be there. -/
def optionalSize : Option Expression → Nat
  | none => 0
  | some e => e.size

/-- The number of parts of declarators. -/
def declaratorsSize : List (Declarator Expression Position) → Nat
  | [] => 1
  | d :: ds => optionalSize d.value + declaratorsSize ds + 1

/-- The number of parts of the start of a loop. -/
def loopStartSize : Option (LoopStart Expression Position) → Nat
  | none => 0
  | some (.declaration _ ds) => declaratorsSize ds
  | some (.expression e) => e.size

mutual

/-- The number of parts of a statement, lists and their ends included. -/
def Command.size : Command → Nat
  | .expression e => e.size + 1
  | .declaration _ ds => declaratorsSize ds + 1
  | .function _ _ _ _ _ body => Command.sizeAll body + 2
  | .returning _ value => optionalSize value + 1
  | .branch test yes no =>
    test.size + Command.size yes + (match no with
      | some no => Command.size no
      | none => 0) + 1
  | .whileLoop test body => test.size + Command.size body + 2
  | .forLoop _ start test update body =>
    loopStartSize start + optionalSize test + optionalSize update + Command.size body + 2
  | .block body => Command.sizeAll body + 2
  | .breaking _ | .continuing _ | .empty => 1

/-- The number of parts of a list of statements. -/
def Command.sizeAll : List Command → Nat
  | [] => 1
  | c :: cs => Command.size c + Command.sizeAll cs + 1

end

/-- What a text goes on with where it is no longer understood. -/
inductive Unexpected where
  | finished
  | word (w : Text)
  | number
  | string
  | character (c : Char)
  deriving DecidableEq, Repr

/-- The kind of token that a text begins with. -/
def Unexpected.ofText : Text → Unexpected
  | [] => finished
  | c :: r =>
    if Text.isIdentifierStart c then word (Reader.wordStart (c :: r))
    else if c.isDigit then number
    else if c = '"' || c = '\'' then string
    else character c

/-- The wording of an unexpected token. -/
def Unexpected.message : Unexpected → Text
  | finished => text "Unexpected end of input"
  | word w => text "Unexpected identifier '" ++ w ++ ['\'']
  | number => text "Unexpected number"
  | string => text "Unexpected string"
  | character c => text "Unexpected token '" ++ [c, '\'']

/-- What can be wrong with a script before it runs. -/
inductive Program.Cause where
  | unexpected (token : Unexpected)
  | illegalReturn
  | illegalBreak
  | illegalContinue
  | redeclared (name : Text)
  | uninitialized
  | noTarget
  | tooDeep
  deriving DecidableEq, Repr

/-- The wording of a cause. -/
def Program.Cause.message : Program.Cause → Text
  | unexpected token => token.message
  | illegalReturn => text "Illegal return statement"
  | illegalBreak => text "Illegal break statement"
  | illegalContinue => text "Illegal continue statement: no surrounding iteration statement"
  | redeclared name => text "Identifier '" ++ name ++ text "' has already been declared"
  | uninitialized => text "Missing initializer in const declaration"
  | noTarget => text "Invalid left-hand side in assignment"
  | tooDeep => text "Expression is too deeply nested"

/-- Why a text is no program. -/
structure Program.Fault where
  position : Position
  cause : Program.Cause
  deriving DecidableEq, Repr

/-- The report of a fault on one line. -/
def Program.Fault.toText (f : Program.Fault) : Text :=
  text "SyntaxError: " ++ f.cause.message ++ text " (" ++ f.position.toText ++ [')']

/-- The greatest nesting of expressions. -/
def Program.maxDepth : Nat := 2000

/-! ## Expressions

The nesting of a phrase is counted by the levels of the grammar that are entered on the way to it,
and by the links of the chains that it is part of. -/

/-- The program text of a fault: offsets are found in the index of its lines. -/
abbrev Checked := Except Program.Fault

/-- A fault at an offset. -/
def faultAt {α : Type} (index : LineIndex) (offset : Nat) (cause : Program.Cause) : Checked α :=
  .error ⟨index.position offset, cause⟩

/-- The depth after `levels` more, unless it is too great. -/
def deepen (index : LineIndex) (offset depth levels : Nat) : Checked Nat :=
  if Program.maxDepth < depth + levels then faultAt index offset .tooDeep else .ok (depth + levels)

/-- The links of a chain that a phrase is the end of, if it is of the given level. -/
def linksAt (level : Level) (phrase : Phrase) (links : Nat) : Nat :=
  if phrase.level = level then links else 0

mutual

/-- The expression of a phrase at `depth`, and the links of the chain that ends with it. Readings
    at all levels below `entered` have been counted already. -/
def Phrase.check (index : LineIndex) (entered : Level) (depth : Nat) :
    Phrase → Checked (Expression × Nat)
  | .number start value => do
    let _ ← deepen index start depth (Level.atom + 1 - entered)
    return (.number (index.position start) value, 0)
  | .string start value => do
    let _ ← deepen index start depth (Level.atom + 1 - entered)
    return (.string (index.position start) value, 0)
  | .bool start value => do
    let _ ← deepen index start depth (Level.atom + 1 - entered)
    return (.bool (index.position start) value, 0)
  | .null start => do
    let _ ← deepen index start depth (Level.atom + 1 - entered)
    return (.null (index.position start), 0)
  | .undefined start => do
    let _ ← deepen index start depth (Level.atom + 1 - entered)
    return (.undefined (index.position start), 0)
  | .identifier start name => do
    let _ ← deepen index start depth (Level.atom + 1 - entered)
    return (.identifier (index.position start) name, 0)
  | .array start items => do
    let depth ← deepen index start depth (Level.atom + 1 - entered)
    return (.array (index.position start) (← checkAll index depth items), 0)
  | .construct start name operands => do
    let depth ← deepen index start depth (Level.atom + 1 - entered)
    return (.construct (index.position start) name (← checkAll index depth operands), 0)
  | .group start inner => do
    let depth ← deepen index start depth (Level.suffixed + 1 - entered)
    let (inner, _) ← inner.check index 0 depth
    return (inner, 0)
  | .call callee start operands => do
    let depth ← deepen index callee.start depth (Level.suffixed + 1 - entered)
    let (checked, links) ← callee.check index (Level.suffixed + 1) depth
    let links := linksAt Level.suffixed callee links + 1
    let _ ← deepen index start depth links
    return (.call checked.position checked (← checkAll index depth operands), links)
  | .index object start key => do
    let depth ← deepen index object.start depth (Level.suffixed + 1 - entered)
    let (checked, links) ← object.check index (Level.suffixed + 1) depth
    let links := linksAt Level.suffixed object links + 1
    let _ ← deepen index start depth links
    let (key, _) ← key.check index 0 depth
    return (.index (index.position start) checked key, links)
  | .member object start namePlace name => do
    let depth ← deepen index object.start depth (Level.suffixed + 1 - entered)
    let (checked, links) ← object.check index (Level.suffixed + 1) depth
    let links := linksAt Level.suffixed object links + 1
    let _ ← deepen index start depth links
    return (.member (index.position namePlace) checked name, links)
  | .unary start operator operand => do
    let inside ← deepen index start depth (Level.unary + 1 - entered)
    let (checked, links) ← operand.check index (Level.unary + 1) inside
    let links := linksAt Level.unary operand links + 1
    let _ ← if entered ≤ Level.unary then deepen index start inside links else .ok 0
    return (.unary (index.position start) operator checked, links)
  | .binary left start operator right => do
    let level := operator.level
    let depth ← deepen index left.start depth (level + 1 - entered)
    let (checked, links) ← left.check index (level + 1) depth
    let links := linksAt level left links + 1
    let _ ← deepen index start depth links
    let (right, _) ← right.check index (level + 1) depth
    return (.binary checked.position operator checked right, links)
  | .conditional test yes no => do
    let depth ← deepen index test.start depth (Level.conditional + 1 - entered)
    let (checked, _) ← test.check index (Level.conditional + 1) depth
    let (yes, _) ← yes.check index Level.assignment depth
    let (no, _) ← no.check index Level.assignment depth
    return (.conditional (index.position test.start) checked yes no, 0)
  | .assign target operator value => do
    let depth ← deepen index target.start depth (Level.assignment + 1 - entered)
    let (checked, _) ← target.check index (Level.assignment + 1) depth
    if !checked.isTarget then faultAt index target.start .noTarget
    let (value, _) ← value.check index Level.assignment depth
    return (.assign (index.position target.start) operator checked value, 0)

/-- The expressions of phrases in a list. -/
def Phrase.checkAll (index : LineIndex) (depth : Nat) : List Phrase → Checked (List Expression)
  | [] => .ok []
  | p :: ps => do
    let (e, _) ← p.check index 0 depth
    return e :: (← checkAll index depth ps)

end

/-! ## Statements -/

/-- Where a statement stands. -/
structure Surroundings where
  index : LineIndex
  inLoop : Bool
  inFunction : Bool

/-- The names that a block has declared so far. -/
abbrev Declared := List (Text × BindingKind)

/-- Declares a name in a block. Only variables may repeat the name of a variable. -/
def Declared.add (index : LineIndex) (offset : Nat) (name : Text) (kind : BindingKind)
    (declared : Declared) : Checked Declared :=
  match declared.lookup name with
  | none => .ok ((name, kind) :: declared)
  | some earlier =>
    if kind ≠ .var ∨ earlier ≠ .var then faultAt index offset (.redeclared name)
    else .ok declared

/-- The expression of a phrase that stands by itself. -/
def Phrase.checkWhole (index : LineIndex) (p : Phrase) : Checked Expression := do
  let (e, _) ← p.check index 0 0
  return e

/-- The expression of a phrase that need not be there. -/
def Phrase.checkOptional (index : LineIndex) : Option Phrase → Checked (Option Expression)
  | none => .ok none
  | some p => do return some (← p.checkWhole index)

/-- The declarators of a declaration. Each name is declared before its value is looked at. -/
def Declarator.check (index : LineIndex) (kind : BindingKind) :
    Declared → List (Declarator Phrase Nat) →
      Checked (List (Declarator Expression Position) × Declared)
  | declared, [] => .ok ([], declared)
  | declared, d :: ds => do
    let declared ← declared.add index d.place d.name kind
    let value ← match d.value with
      | some value => do
        let (e, _) ← value.check index Level.assignment 0
        pure (some e)
      | none => if kind = .const then faultAt index d.place .uninitialized else pure none
    let (ds, declared) ← check index kind declared ds
    return (⟨index.position d.place, d.name, value⟩ :: ds, declared)

/-- The start of a counting loop, which opens a block of its own. -/
def LoopStart.check (index : LineIndex) : Option (LoopStart Phrase Nat) →
    Checked (Option (LoopStart Expression Position) × Declared)
  | none => .ok (none, [])
  | some (.expression p) => do return (some (.expression (← p.checkWhole index)), [])
  | some (.declaration kind declarators) => do
    let (declarators, declared) ← Declarator.check index kind [] declarators
    return (some (.declaration kind declarators), declared)

mutual

/-- Checks a statement of a block that has `declared` its names so far. -/
def Statement.check (around : Surroundings) (declared : Declared) :
    Sentence → Checked (Command × Declared)
  | .expression p => do return (.expression (← p.checkWhole around.index), declared)
  | .declaration kind declarators => do
    let (declarators, declared) ← Declarator.check around.index kind declared declarators
    return (.declaration kind declarators, declared)
  | .function start name namePlace parameters isAsync body => do
    let declared ← declared.add around.index namePlace name .var
    let (body, _) ← checkAll { around with inLoop := false, inFunction := true }
      (parameters.map fun p => (p, .var)) body
    return (.function (around.index.position start) name (around.index.position namePlace)
      parameters isAsync body, declared)
  | .returning start value =>
    if around.inFunction then do
      return (.returning (around.index.position start)
        (← Phrase.checkOptional around.index value), declared)
    else faultAt around.index start .illegalReturn
  | .branch test yes no => do
    let test ← test.checkWhole around.index
    let (yes, declared) ← yes.check around declared
    match no with
    | none => return (.branch test yes none, declared)
    | some no =>
      let (no, declared) ← no.check around declared
      return (.branch test yes (some no), declared)
  | .whileLoop test body => do
    let test ← test.checkWhole around.index
    let (body, declared) ← body.check { around with inLoop := true } declared
    return (.whileLoop test body, declared)
  | .forLoop start init test update body => do
    let (init, inside) ← LoopStart.check around.index init
    let test ← Phrase.checkOptional around.index test
    let update ← Phrase.checkOptional around.index update
    let (body, _) ← body.check { around with inLoop := true } inside
    return (.forLoop (around.index.position start) init test update body, declared)
  | .block body => do
    let (body, _) ← checkAll around [] body
    return (.block body, declared)
  | .breaking start =>
    if around.inLoop then .ok (.breaking (around.index.position start), declared)
    else faultAt around.index start .illegalBreak
  | .continuing start =>
    if around.inLoop then .ok (.continuing (around.index.position start), declared)
    else faultAt around.index start .illegalContinue
  | .empty => .ok (.empty, declared)

/-- Checks the statements of a block. -/
def Statement.checkAll (around : Surroundings) (declared : Declared) :
    List Sentence → Checked (List Command × Declared)
  | [] => .ok ([], declared)
  | s :: ss => do
    let (s, declared) ← s.check around declared
    let (ss, declared) ← checkAll around declared ss
    return (s :: ss, declared)

end

namespace Program

/-- The program of a text. -/
def parse (t : Text) : Except Fault Program :=
  match read t with
  | .error reach =>
    .error ⟨Position.scan t reach, .unexpected (Unexpected.ofText (t.drop reach))⟩
  | .ok statements =>
    (Statement.checkAll ⟨LineIndex.ofText t, false, false⟩ [] statements).map Prod.fst

end Program

end Pseudocode.Script
