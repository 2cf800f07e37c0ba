import Pseudocode.Source.Shape
import Pseudocode.Source.Statement

/-! # Reading a statement from a line

The first word of a line, in any case, says which shape the line has to have. A line that starts
with none of the keywords is an assignment or a call, or is kept as it is.

Every operand is cut out of the line as it stands and has to be balanced.
-/

namespace Pseudocode.Statement

open Shape Expression

/-! ## Keywords -/

/-- The words that a statement starts with. -/
inductive Keyword where
  | algorithm
  | endAlgorithm
  | ending
  | for
  | while
  | if
  | elseIf
  | else
  | function
  | return
  | break
  | continue
  | declaration (kind : DeclarationKind)
  | set
  | declare
  | print
  | input
  deriving DecidableEq, Repr

/-- The spellings of the keywords. -/
def keywords : List (Text × Keyword) := [
  (text "endalgorithm", .endAlgorithm),
  (text "end", .ending),
  (text "endfor", .ending),
  (text "endif", .ending),
  (text "endwhile", .ending),
  (text "endfunction", .ending),
  (text "algorithm", .algorithm),
  (text "for", .for),
  (text "while", .while),
  (text "if", .if),
  (text "elseif", .elseIf),
  (text "else", .else),
  (text "function", .function),
  (text "return", .return),
  (text "break", .break),
  (text "continue", .continue),
  (text "var", .declaration .var),
  (text "variable", .declaration .variableWord),
  (text "const", .declaration .const),
  (text "constant", .declaration .constantWord),
  (text "set", .set),
  (text "declare", .declare),
  (text "print", .print),
  (text "input", .input)]

/-- The first word of a text in lower case. -/
def headWord (t : Text) : Text := Text.toLower (t.takeWhile Text.isNameChar)

/-- The keyword that a line starts with. -/
def keyword? (t : Text) : Option Keyword := keywords.lookup (headWord t)

/-- The blocks by the word that names them. -/
def blockKind? (word : Text) : Option BlockKind :=
  [BlockKind.forLoop, .branch, .whileLoop, .function].find? fun k => Text.sameWord word k.word

/-! ## Operands -/

/-- The statement, unless one of the operands is unbalanced. -/
def ifBalanced (form : Form) (operands : List Text) (statement : Statement) : Statement :=
  match operands.findSome? imbalance? with
  | some cause => .malformed form (.imbalance cause)
  | none => statement

/-- What stands between parentheses around the whole text, if it is balanced. -/
def insideParentheses? (t : Text) : Option Text :=
  match Text.dropStart? ['('] t with
  | none => none
  | some r => (Text.dropEnd? [')'] r).filter isBalanced

/-- The text may follow a keyword that takes its operands with or without parentheses. -/
def followsKeyword : Text → Bool
  | [] => true
  | c :: _ => Text.isBlank c || c = '('

/-- The prompt of an input without its parentheses; none if it is blank. -/
def promptOperand (t : Text) : Option Text :=
  let t := Text.trim t
  let prompt := match insideParentheses? t with
    | some inner => Text.trim inner
    | none => t
  if prompt.isEmpty then none else some prompt

/-- A right-hand side: the word `input` with a prompt, or an expression. -/
def initializer (t : Text) : Initializer :=
  let t := Text.trim t
  let rest := t.drop 5
  if headWord t = text "input" && followsKeyword rest then .input (promptOperand rest)
  else .expression t

/-! ## Shapes

Each function reads a line after its keyword. -/

/-- White space and a name. -/
def header? (t : Text) : Option Text :=
  someBlanks (fun t => if t = [] ∨ '\n' ∈ t then none else some t) t

/-- White space and a value, or nothing. -/
def returnValue? : Text → Option (Option Text)
  | [] => some none
  | t => (header? t).map some

/-- The bounds of a counting loop and its step. -/
def loopBounds? (t : Text) : Option (Text × Text × Option Text) :=
  let done := closing [text "do"]
  let stop (t : Text) : Option (Option Text) :=
    (separator (text "step") (passage done) t).map (fun (step, _) => some step) <|>
      (done t).map fun _ => none
  blanks (passage (separator (text "to") (passage stop))) t

/-- What follows an equals sign or an arrow. -/
def dropAssignSign? : Text → Option Text
  | '=' :: r => some r
  | '<' :: '-' :: r => some r
  | '←' :: r => some r
  | _ => none

/-- The loop variable, its bounds and its step. -/
def forLoop? (t : Text) : Option (Text × Text × Text × Option Text) :=
  someBlanks (fun t => do
    let (name, t) ← name? isFoldedNameStart t
    let t ← dropAssignSign? (Text.trimStart t)
    let (start, stop, step) ← loopBounds? t
    return (name, start, stop, step)) t

/-- A condition, with one of the words after it if there is one. A condition that is itself such a
    word is missing. -/
def condition? (words : List Text) (t : Text) : Option Text :=
  if atWordEnd t then
    match blanks (passage (closing words)) t with
    | some (condition, _) =>
      if Text.sameWord condition (text "then") || Text.sameWord condition (text "do") then none
      else some condition
    | none => none
  else none

/-- The rest of an `else` line that is an `else if`, after the `if`. -/
def afterElseIf? (t : Text) : Option Text := someBlanks (dropWord? (text "if")) t

/-- The name and the parameter list of a function. -/
def function? (t : Text) : Option (Text × Text) :=
  someBlanks (fun t => do
    let (name, t) ← name? isFoldedNameStart t
    let t ← Text.dropStart? ['('] (Text.trimStart t)
    let parameters ← Text.dropEnd? [')'] t
    if parameters.any fun c => c = '(' || c = ')' then none else some (name, parameters)) t

/-- An equals sign and a value, or nothing. -/
def initialValue? : Text → Option (Option Text)
  | [] => some none
  | '=' :: r =>
    let value := Text.trimStart r
    if value = [] ∨ '\n' ∈ value then none else some (some value)
  | _ => none

/-- The name, the size and the value of a declaration. -/
def declaration? (t : Text) : Option (Text × Option Text × Option Text) :=
  someBlanks (fun t => do
    let (name, t) ← name? isFoldedNameStart t
    match Text.trimStart t with
    | '[' :: r =>
      let close (t : Text) : Option (Option Text) :=
        (Text.dropStart? [']'] t).bind fun t => initialValue? (Text.trimStart t)
      let (size, value) ← blanks (passage (blanks close)) r
      return (name, some size, value)
    | t => (initialValue? t).map fun value => (name, none, value)) t

/-- A name, with one group of square brackets that ends the line if there is one. -/
def place? (t : Text) : Option Text :=
  match name? isFoldedNameStart t with
  | none => none
  | some (_, []) => some t
  | some (_, rest) =>
    match (Text.dropStart? ['['] rest).bind (Text.dropEnd? [']']) with
    | some index => if index = [] ∨ '\n' ∈ index then none else some t
    | none => none

/-- The value and the target of `set`. -/
def set? (t : Text) : Option (Text × Text) :=
  someBlanks (passage (separator (text "to") place?)) t

/-- The name and the type of `declare`. -/
def declare? (t : Text) : Option (Text × Text) :=
  someBlanks (fun t => do
    let (name, t) ← name? isFoldedNameStart t
    separator (text "as") (fun t =>
      match t with
      | c :: r =>
        if isFoldedNameStart c && r.all fun c => Text.isWordChar c || c = '[' || c = ']' then
          some (name, c :: r)
        else none
      | [] => none) t) t

/-- A name with bracketed groups behind it. -/
def isTarget (t : Text) : Bool :=
  match name? isNameStart t with
  | none => false
  | some (_, rest) => (brackets (· ≠ '\n') atEnd rest).isSome

/-- An assignment operator and the rest. -/
def assignmentOperator? : Text → Option (AssignmentOperator × Text)
  | '=' :: r => some (.plain, r)
  | '+' :: '=' :: r => some (.add, r)
  | '-' :: '=' :: r => some (.subtract, r)
  | '*' :: '=' :: r => some (.multiply, r)
  | '/' :: '=' :: r => some (.divide, r)
  | '%' :: '=' :: r => some (.remainder, r)
  | '<' :: '-' :: r => some (.plain, r)
  | '←' :: r => some (.plain, r)
  | _ => none

/-- An assignment operator and the assigned value, which does not start with an equals sign. -/
def assignedValue? (t : Text) : Option (AssignmentOperator × Text) :=
  match assignmentOperator? (Text.trimStart t) with
  | some (operator, c :: r) =>
    if c = '=' ∨ '\n' ∈ r then none else some (operator, c :: r)
  | _ => none

/-- The target, the operator and the value of an assignment. Indices hold no equals sign. -/
def assignment? (t : Text) : Option (Text × AssignmentOperator × Text) := do
  let (name, rest) ← name? isNameStart t
  let (indices, operator, value) ← brackets (· ≠ '=') assignedValue? rest
  return (name ++ indices, operator, value)

/-- The text without a semicolon at its end. -/
def dropSemicolon (t : Text) : Text := (Text.dropEnd? [';'] t).getD t

/-- A call: a name, possibly of a member, and parentheses up to the end of the line. -/
def call? (t : Text) : Option Text :=
  match t with
  | [] => none
  | c :: r =>
    if !isNameStart c then none
    else
      let rest := Text.trimStart (r.dropWhile fun c => Text.isWordChar c || c = '.')
      let called := Text.trimEnd (dropSemicolon t)
      let operands := (Text.dropStart? ['('] (Text.trimEnd (dropSemicolon rest))).bind
        (Text.dropEnd? [')'])
      match operands with
      | some operands => if '\n' ∈ operands then none else some called
      | none => none

/-! ## Statements -/

/-- The statement of a line that does not start with a keyword. -/
def withoutKeyword (t : Text) : Statement :=
  match assignment? t with
  | some (target, operator, value) =>
    let value := initializer value
    match value, operator with
    | .expression _, _ | .input _, .plain =>
      ifBalanced .assignment [target, value.operand] (.assignment target operator value)
    | _, _ => .malformed .assignment .compoundInput
  | none =>
    match call? t with
    | some called => ifBalanced .call [called] (.call called)
    | none => .raw t

/-- The statement of a line that ends a block; `rest` follows the word `end`. -/
def endingOf (rest : Text) : Statement :=
  let rest := Text.trimStart rest
  if Text.sameWord rest (text "algorithm") then .footer
  else match blockKind? rest with
    | some kind => .ending kind
    | none => .malformed .ending .shape

/-- The statement of an `else if` line; `rest` follows the keywords, if they are there. -/
def elseIfOf (rest : Option Text) : Statement :=
  match rest.bind (condition? [text "then"]) with
  | some condition => ifBalanced .elseIf [condition] (.elseIf condition)
  | none => .malformed .elseIf .shape

/-- The statement of a declaration. -/
def declarationOf (kind : DeclarationKind) (rest : Text) : Statement :=
  match declaration? rest with
  | none => .malformed .declaration .shape
  | some (_, some _, some _) => .malformed .declaration .initializedArray
  | some (name, size, value) =>
    let init := value.map initializer
    ifBalanced .declaration [size.getD [], (init.map Initializer.operand).getD []]
      (.declaration kind name size init)

/-- The statement of a function header. -/
def functionOf (rest : Text) : Statement :=
  match function? rest with
  | none => .malformed .function .shape
  | some (name, list) =>
    let parameters := splitList list
    match parameters.find? fun p => !isName p with
    | some written => .malformed .function (.parameter written)
    | none => .function name parameters

/-- The statement of a print line. -/
def printOf (rest : Text) : Statement :=
  if followsKeyword rest then
    let operand := Text.trim rest
    let list := (insideParentheses? operand).getD operand
    let operands := splitList list
    ifBalanced .print [list]
      (if operands.any List.isEmpty then .malformed .print .emptyArgument else .print operands)
  else withoutKeyword (text "print" ++ rest)

/-- The statement of an input line: a place is the target, anything else the prompt. -/
def inputOf (rest : Text) : Statement :=
  if followsKeyword rest then
    match promptOperand rest with
    | none => .input none none
    | some operand =>
      ifBalanced .input [operand]
        (if isTarget operand then .input none (some operand) else .input (some operand) none)
  else withoutKeyword (text "input" ++ rest)

/-- The statement of a line that starts with a keyword; `rest` follows it. -/
def withKeyword (keyword : Keyword) (t rest : Text) : Statement :=
  match keyword with
  | .algorithm =>
    match header? rest with
    | some name => .header name
    | none => .malformed .header .shape
  | .endAlgorithm => if rest.isEmpty then .footer else .malformed .footer .shape
  | .ending => endingOf (t.drop 3)
  | .for =>
    match forLoop? rest with
    | some (name, start, stop, step) =>
      ifBalanced .forLoop [start, stop, step.getD []] (.forLoop name start stop step)
    | none => .malformed .forLoop .shape
  | .while =>
    match condition? [text "then", text "do"] rest with
    | some condition => ifBalanced .whileLoop [condition] (.whileLoop condition)
    | none => .malformed .whileLoop .shape
  | .if =>
    match condition? [text "then"] rest with
    | some condition => ifBalanced .branch [condition] (.branch condition)
    | none => .malformed .branch .shape
  | .elseIf => elseIfOf (some rest)
  | .else => if rest.isEmpty then .otherwise else elseIfOf (afterElseIf? rest)
  | .function => functionOf rest
  | .return =>
    match returnValue? rest with
    | some value =>
      let value := value.map Text.trim
      ifBalanced .returning [value.getD []] (.returning value)
    | none => .malformed .returning .shape
  | .break => if rest.isEmpty then .breaking else .malformed .breaking .shape
  | .continue => if rest.isEmpty then .continuing else .malformed .continuing .shape
  | .declaration kind => declarationOf kind rest
  | .set =>
    match set? rest with
    | some (value, target) => ifBalanced .set [value, target] (.set value target)
    | none => .malformed .set .shape
  | .declare =>
    match declare? rest with
    | some (name, typeName) => .declare name typeName
    | none => .malformed .declare .shape
  | .print => printOf rest
  | .input => inputOf rest

/-- The statement that a line says. -/
def classify (line : Text) : Statement :=
  match Text.trim line with
  | [] => .blank
  | '#' :: note => .comment (Text.trim note)
  | t =>
    match keyword? t with
    | some keyword => withKeyword keyword t (t.drop (headWord t).length)
    | none => withoutKeyword t

end Pseudocode.Statement
