import Pseudocode.Operator

/-! # Phrases

A phrase is an expression as it is written: its places are offsets, and its parentheses are kept,
because the limit on nesting counts them.
-/

namespace Pseudocode

/-- The level at which a phrase is read. A phrase stands as an operand of any lower level without
    parentheses. -/
abbrev Level := Nat

namespace Level

/-- Assignments. -/
def assignment : Level := 1

/-- Choices between two values. -/
def conditional : Level := 2

/-- Operators before an operand. -/
def unary : Level := 9

/-- Calls, indices and members, and phrases in parentheses. -/
def suffixed : Level := 10

/-- Literals and names. -/
def atom : Level := 11

end Level

/-- The level of a binary operator: a higher one binds tighter. -/
def BinaryOperator.level : BinaryOperator → Level
  | or => 3
  | and => 4
  | equal | notEqual | strictEqual | strictNotEqual => 5
  | less | lessEqual | greater | greaterEqual => 6
  | add | subtract => 7
  | multiply | divide | remainder => 8

namespace Script

/-- An expression as it is written. -/
inductive Phrase where
  | number (place : Nat) (value : Float)
  | string (place : Nat) (value : Text)
  | bool (place : Nat) (value : Bool)
  | null (place : Nat)
  | undefined (place : Nat)
  | array (place : Nat) (items : List Phrase)
  | identifier (place : Nat) (name : Text)
  | construct (place : Nat) (name : Text) (arguments : List Phrase)
  | group (place : Nat) (inner : Phrase)
  | call (callee : Phrase) (place : Nat) (arguments : List Phrase)
  | index (object : Phrase) (place : Nat) (key : Phrase)
  | member (object : Phrase) (place namePlace : Nat) (name : Text)
  | unary (place : Nat) (operator : UnaryOperator) (operand : Phrase)
  | binary (left : Phrase) (place : Nat) (operator : BinaryOperator) (right : Phrase)
  | conditional (test yes no : Phrase)
  | assign (target : Phrase) (operator : AssignmentOperator) (value : Phrase)
  deriving Inhabited

namespace Phrase

/-- The offset of the first character. -/
def start : Phrase → Nat
  | number p _ | string p _ | bool p _ | null p | undefined p | array p _ | identifier p _
  | construct p _ _ | group p _ | unary p _ _ => p
  | call callee _ _ => callee.start
  | index object _ _ => object.start
  | member object _ _ _ => object.start
  | binary left _ _ _ => left.start
  | conditional test _ _ => test.start
  | assign target _ _ => target.start

/-- The level at which the phrase is read. -/
def level : Phrase → Level
  | number _ _ | string _ _ | bool _ _ | null _ | undefined _ | array _ _ | identifier _ _
  | construct _ _ _ => .atom
  | group _ _ | call _ _ _ | index _ _ _ | member _ _ _ _ => .suffixed
  | unary _ _ _ => .unary
  | binary _ _ operator _ => operator.level
  | conditional _ _ _ => .conditional
  | assign _ _ _ => .assignment

end Phrase

end Script

end Pseudocode
