import Pseudocode.Number.Numeral
import Pseudocode.Operator
import Pseudocode.Script.Position

/-! # Expressions of the script

Every expression carries the position that errors about it refer to: a binary expression that of
its left operand, a call that of its callee, a member access that of the member's name, any other
expression the place where it starts.
-/

namespace Pseudocode.Script

/-- An expression. -/
inductive Expression where
  | number (place : Position) (value : Float)
  | string (place : Position) (value : Text)
  | bool (place : Position) (value : Bool)
  | null (place : Position)
  | undefined (place : Position)
  | array (place : Position) (items : List Expression)
  | identifier (place : Position) (name : Text)
  | unary (place : Position) (operator : UnaryOperator) (operand : Expression)
  | binary (place : Position) (operator : BinaryOperator) (left right : Expression)
  | conditional (place : Position) (test yes no : Expression)
  | assign (place : Position) (operator : AssignmentOperator) (target value : Expression)
  | call (place : Position) (callee : Expression) (arguments : List Expression)
  | index (place : Position) (object key : Expression)
  | member (place : Position) (object : Expression) (name : Text)
  | construct (place : Position) (name : Text) (arguments : List Expression)
  deriving Inhabited

namespace Expression

/-- The position that errors refer to. -/
def position : Expression → Position
  | number p _ | string p _ | bool p _ | null p | undefined p | array p _ | identifier p _
  | unary p _ _ | binary p _ _ _ | conditional p _ _ _ | assign p _ _ _ | call p _ _ | index p _ _
  | member p _ _ | construct p _ _ => p

/-- Whether a value can be assigned to the expression. -/
def isTarget : Expression → Bool
  | identifier _ _ | index _ _ _ | member _ _ _ => true
  | _ => false

/-- A short rendering for messages. -/
def describe : Expression → Text
  | identifier _ name => name
  | member _ object name => object.describe ++ '.' :: name
  | index _ object _ => object.describe ++ text "[...]"
  | call _ callee _ => callee.describe ++ text "(...)"
  | number _ value => Numeral.shortestText (Double.decode value)
  | string _ value => '"' :: value ++ ['"']
  | _ => text "expression"

mutual

/-- The number of parts of an expression, lists and their ends included. -/
def size : Expression → Nat
  | array _ items => sizeAll items + 1
  | unary _ _ operand => operand.size + 1
  | binary _ _ left right => left.size + right.size + 1
  | conditional _ test yes no => test.size + yes.size + no.size + 1
  | assign _ _ target value => 2 * target.size + value.size + 2
  | call _ callee operands => callee.size + sizeAll operands + 1
  | index _ object key => object.size + key.size + 1
  | member _ object _ => object.size + 1
  | construct _ _ operands => sizeAll operands + 1
  | _ => 1

/-- The number of parts of a list of expressions. -/
def sizeAll : List Expression → Nat
  | [] => 1
  | e :: es => e.size + sizeAll es + 1

end

end Expression

end Pseudocode.Script
