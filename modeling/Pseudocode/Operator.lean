import Pseudocode.Text.Basic

/-! # Operators

The operators of the script, their spelling and how tightly they bind. A pseudocode assignment
uses the same assignment operators.
-/

namespace Pseudocode

/-- Operators before their operand. -/
inductive UnaryOperator where
  | not
  | negate
  | plus
  | typeOf
  | await
  deriving DecidableEq, Repr

/-- Operators between two operands. -/
inductive BinaryOperator where
  | add
  | subtract
  | multiply
  | divide
  | remainder
  | less
  | lessEqual
  | greater
  | greaterEqual
  | equal
  | notEqual
  | strictEqual
  | strictNotEqual
  | and
  | or
  deriving DecidableEq, Repr

/-- The operators that assign; all but the plain one compute with the old value first. An arrow in
    pseudocode is an equals sign. -/
inductive AssignmentOperator where
  | plain
  | add
  | subtract
  | multiply
  | divide
  | remainder
  deriving DecidableEq, Repr

/-- The script's spelling of an operator. -/
def UnaryOperator.sign : UnaryOperator → Text
  | not => text "!"
  | negate => text "-"
  | plus => text "+"
  | typeOf => text "typeof"
  | await => text "await"

namespace BinaryOperator

/-- The script's spelling of an operator. -/
def sign : BinaryOperator → Text
  | add => text "+"
  | subtract => text "-"
  | multiply => text "*"
  | divide => text "/"
  | remainder => text "%"
  | less => text "<"
  | lessEqual => text "<="
  | greater => text ">"
  | greaterEqual => text ">="
  | equal => text "=="
  | notEqual => text "!="
  | strictEqual => text "==="
  | strictNotEqual => text "!=="
  | and => text "&&"
  | or => text "||"

end BinaryOperator

namespace AssignmentOperator

/-- The script's spelling of an operator. -/
def sign : AssignmentOperator → Text
  | plain => text "="
  | add => text "+="
  | subtract => text "-="
  | multiply => text "*="
  | divide => text "/="
  | remainder => text "%="

/-- The operator that computes the new value from the old one. -/
def binary? : AssignmentOperator → Option BinaryOperator
  | plain => none
  | add => some .add
  | subtract => some .subtract
  | multiply => some .multiply
  | divide => some .divide
  | remainder => some .remainder

end AssignmentOperator

end Pseudocode
