import Pseudocode.Script.Statement
import Pseudocode.Script.Token

/-! # Grammar of the script

The readers of phrases and statements. Readers that nest take themselves as an argument, `self`,
and the number of nested readings is bounded by the `fuel`; a text of `n` characters needs at most
`n + 1`, because every nested reading starts behind a character that has been read.
-/

namespace Pseudocode.Script

/-- A statement as it is written. -/
abbrev Sentence := Statement Phrase Nat

namespace Grammar

open Reader

/-! ## Phrases -/

section

variable (fuel : Nat) (self : Reader Phrase)

/-- Values between commas. -/
def commaList {α : Type} (item : Reader α) : Reader (List α) := do
  let first ← item
  let others ← many fuel (do sign ','; item)
  return first :: others

/-- The arguments of a call, with their parentheses. -/
def callArguments : Reader (List Phrase) := part do
  sign '('
  let found ← optional (commaList fuel self)
  sign ')'
  return found.getD []

/-- An array literal. One comma may follow its last item. -/
def arrayLiteral : Reader Phrase := part do
  let start ← place
  sign '['
  let found ← optional (do
    let items ← commaList fuel self
    let _ ← optional (sign ',')
    return items)
  sign ']'
  return .array start (found.getD [])

/-- A constructor call. -/
def construction : Reader Phrase := part do
  let start ← place
  part (word (text "new"))
  let name ← part (token Token.identifier?)
  let found ← optional (callArguments fuel self)
  return .construct start name (found.getD [])

/-- A phrase in parentheses. -/
def group : Reader Phrase := do
  let start ← place
  sign '('
  let inner ← self
  sign ')'
  return .group start inner

/-- A token that is a phrase by itself. -/
def single {α : Type} (scan : Text → Option (α × Nat)) (phrase : Nat → α → Phrase) :
    Reader Phrase :=
  part do
    let start ← place
    return phrase start (← token scan)

/-- A phrase without operators and suffixes. -/
def primary : Reader Phrase := oneOf [
  single Token.number? .number,
  single Token.string? .string,
  single (Token.wordOf? [(text "true", true), (text "false", false)]) .bool,
  single (Token.wordOf? [(text "null", ())]) fun start _ => .null start,
  single (Token.wordOf? [(text "undefined", ())]) fun start _ => .undefined start,
  arrayLiteral fuel self,
  construction fuel self,
  single Token.identifier? .identifier,
  group self]

/-- What makes a longer phrase of `object`: arguments, an index or a member name. -/
def suffix (object : Phrase) : Reader Phrase := do
  let start ← place
  oneOf [
    do return .call object start (← callArguments fuel self),
    part do
      sign '['
      let key ← self
      sign ']'
      return .index object start key,
    part do
      sign '.'
      let namePlace ← place
      let name ← part (token Token.name?)
      return .member object start namePlace name]

/-- A phrase with its suffixes. -/
def suffixed : Reader Phrase := part do
  iterate (suffix fuel self) fuel (← primary fuel self)

/-- A phrase with the unary operators before it. -/
def unary : Reader Phrase := part do
  let operators ← many fuel (part do return (← place, ← token Token.unaryOperator?))
  let operand ← suffixed fuel self
  return operators.foldr (fun (start, operator) operand => .unary start operator operand) operand

/-- Operands with binary operators of one level between them, grouped from the left. -/
def chain (level : Level) (operand : Reader Phrase) : Reader Phrase := part do
  let link (left : Phrase) : Reader Phrase := do
    let start ← place
    let operator ← part (token (Token.binaryOperator? level))
    return .binary left start operator (← operand)
  iterate link fuel (← operand)

/-- A phrase with binary operators. -/
def binary : Reader Phrase :=
  [3, 4, 5, 6, 7, 8].foldr (fun level operand => chain fuel level operand) (unary fuel self)

/-- A choice between two values. -/
def conditional : Reader Phrase := part do
  let test ← binary fuel self
  let branches ← optional (do
    sign '?'
    let yes ← self
    sign ':'
    return (yes, ← self))
  return match branches with
    | some (yes, no) => .conditional test yes no
    | none => test

/-- An assignment, or a phrase without one. -/
def assignment : Reader Phrase := part do
  let target ← conditional fuel self
  let assigned ← optional (do
    let operator ← part (token Token.assignmentOperator?)
    return (operator, ← self))
  return match assigned with
    | some (operator, value) => .assign target operator value
    | none => target

end

/-- Any phrase. -/
def phrase (fuel : Nat) : (depth : Nat) → Reader Phrase
  | 0 => fail
  | depth + 1 => assignment fuel (phrase fuel depth)

/-! ## Statements -/

section

variable (fuel : Nat) (self : Reader Sentence)

/-- A phrase in any place of a statement. -/
def expression : Reader Phrase := phrase fuel fuel

/-- Statements in braces. -/
def braces : Reader (List Sentence) := part do
  sign '\x7b'
  let body ← many fuel self
  sign '\x7d'
  return body

/-- The parameters of a function, with their parentheses. -/
def parameters : Reader (List Text) := part do
  sign '('
  let found ← optional (commaList fuel (part (token Token.identifier?)))
  sign ')'
  return found.getD []

/-- A function. -/
def function : Reader Sentence := part do
  let start ← place
  let mark ← optional (part (word (text "async")))
  part (word (text "function"))
  let namePlace ← place
  let name ← part (token Token.identifier?)
  let names ← parameters fuel
  return .function start name namePlace names mark.isSome (← braces fuel self)

/-- A phrase in parentheses behind a keyword. -/
def tested (keyword : Text) : Reader Phrase := do
  part (word keyword)
  sign '('
  let test ← expression fuel
  sign ')'
  return test

/-- A conditional statement. -/
def branch : Reader Sentence := part do
  let test ← tested fuel (text "if")
  let yes ← self
  let no ← optional (do part (word (text "else")); self)
  return .branch test yes no

/-- A conditional loop. -/
def whileLoop : Reader Sentence := part do
  let test ← tested fuel (text "while")
  return .whileLoop test (← self)

/-- A name and the value it starts with. -/
def declarator : Reader (Declarator Phrase Nat) := part do
  let start ← place
  let name ← part (token Token.identifier?)
  let value ← optional (do sign '='; expression fuel)
  return ⟨start, name, value⟩

/-- Names behind the keyword that declares them. -/
def declaration : Reader (BindingKind × List (Declarator Phrase Nat)) := part do
  let kind ← part (token (Token.wordOf?
    [(text "let", .let), (text "const", .const), (text "var", .var)]))
  return (kind, ← commaList fuel (declarator fuel))

/-- What a counting loop starts with. -/
def loopStart : Reader (LoopStart Phrase Nat) :=
  part (orElse
    (do let (kind, declarators) ← declaration fuel; return .declaration kind declarators)
    (do return .expression (← expression fuel)))

/-- A counting loop. -/
def forLoop : Reader Sentence := part do
  let start ← place
  part (word (text "for"))
  sign '('
  let init ← optional (loopStart fuel)
  sign ';'
  let test ← optional (expression fuel)
  sign ';'
  let update ← optional (expression fuel)
  sign ')'
  return .forLoop start init test update (← self)

/-- A statement. -/
def sentence : Reader Sentence := oneOf [
  do return .block (← braces fuel self),
  function fuel self,
  branch fuel self,
  whileLoop fuel self,
  forLoop fuel self,
  part do
    let (kind, declarators) ← declaration fuel
    sign ';'
    return .declaration kind declarators,
  part do
    let start ← place
    part (word (text "return"))
    let value ← optional (expression fuel)
    sign ';'
    return .returning start value,
  part do
    let start ← place
    part (word (text "break"))
    sign ';'
    return .breaking start,
  part do
    let start ← place
    part (word (text "continue"))
    sign ';'
    return .continuing start,
  part do
    sign ';'
    return .empty,
  part do
    let e ← expression fuel
    sign ';'
    return .expression e]

end

/-- Any statement. -/
def statement (fuel : Nat) : (depth : Nat) → Reader Sentence
  | 0 => fail
  | depth + 1 => sentence fuel (statement fuel depth)

/-- A whole script. -/
def program (fuel : Nat) : Reader (List Sentence) := do
  let statements ← many fuel (statement fuel fuel)
  part finished
  return statements

end Grammar

/-- Reads a script. A text that is no script gives the offset up to which it was understood. -/
def read (t : Text) : Except Nat (List Sentence) :=
  match Grammar.program (t.length + 1) (Cursor.ofText t) with
  | ⟨some (statements, _), _⟩ => .ok statements
  | ⟨none, reach⟩ => .error reach

end Pseudocode.Script
