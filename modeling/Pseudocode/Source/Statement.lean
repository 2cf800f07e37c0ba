import Pseudocode.Operator
import Pseudocode.Source.Expression

/-! # Statements

One line of pseudocode is one statement. Its operands are texts cut out of the line; a line that
starts with a keyword but has not the shape that the keyword asks for is malformed, and a line
without any recognizable shape is kept as it is.
-/

namespace Pseudocode

/-- The blocks that a program nests. -/
inductive BlockKind where
  | forLoop
  | whileLoop
  | branch
  | function
  deriving DecidableEq, Repr

namespace BlockKind

/-- The word that names the block in the program text. -/
def word : BlockKind → Text
  | forLoop => text "for"
  | whileLoop => text "while"
  | branch => text "if"
  | function => text "function"

/-- A block that `break` and `continue` refer to. -/
def isLoop : BlockKind → Bool
  | forLoop | whileLoop => true
  | branch | function => false

end BlockKind

/-- The keyword of a declaration. -/
inductive DeclarationKind where
  | var
  | variableWord
  | const
  | constantWord
  deriving DecidableEq, Repr

namespace DeclarationKind

/-- The keyword itself. -/
def word : DeclarationKind → Text
  | var => text "var"
  | variableWord => text "variable"
  | const => text "const"
  | constantWord => text "constant"

/-- Whether the declared name may be assigned to. -/
def isMutable : DeclarationKind → Bool
  | var | variableWord => true
  | const | constantWord => false

end DeclarationKind

/-- The right-hand side of a declaration or an assignment. -/
inductive Initializer where
  | expression (operand : Text)
  /-- Asks for input, with a prompt if one is written. -/
  | input (prompt : Option Text)
  deriving DecidableEq, Repr

/-- The operand of a right-hand side. -/
def Initializer.operand : Initializer → Text
  | expression t => t
  | input prompt => prompt.getD []

/-- The statement shapes that a line can miss. -/
inductive Form where
  | header
  | footer
  | ending
  | forLoop
  | whileLoop
  | branch
  | elseIf
  | function
  | returning
  | breaking
  | continuing
  | declaration
  | set
  | declare
  | print
  | input
  | assignment
  | call
  deriving DecidableEq, Repr

namespace Form

/-- The name of the shape in messages. -/
def word : Form → Text
  | header => text "Algorithm"
  | footer => text "EndAlgorithm"
  | ending => text "end"
  | forLoop => text "for"
  | whileLoop => text "while"
  | branch => text "if"
  | elseIf => text "elseif"
  | function => text "function"
  | returning => text "return"
  | breaking => text "break"
  | continuing => text "continue"
  | declaration => text "declaration"
  | set => text "set"
  | declare => text "declare"
  | print => text "print"
  | input => text "input"
  | assignment => text "assignment"
  | call => text "call"

/-- What a statement of this shape looks like. -/
def expectation : Form → Text
  | header => text "expected 'Algorithm <name>'"
  | footer => text "'EndAlgorithm' takes no operands"
  | ending => text "expected endfor, endif, endwhile or endfunction"
  | forLoop => text "expected 'for <var> = <start> to <end> [step <step>]'"
  | whileLoop => text "expected 'while <condition>'"
  | branch => text "expected 'if <condition> [then]'"
  | elseIf => text "expected 'elseif <condition> [then]'"
  | function => text "expected 'function <name>(<params>)'"
  | returning => text "expected 'return [value]'"
  | breaking => text "'break' takes no operands"
  | continuing => text "'continue' takes no operands"
  | declaration =>
    text "expected '<var|const> <name> [= <value>]' or '<var> <name>[<size>]'"
  | set => text "expected 'set <value> to <name>'"
  | declare => text "expected 'declare <name> as <type>'"
  | print | input | assignment | call => []

end Form

/-- Why a line is malformed. -/
inductive Fault where
  /-- The line has not the shape that its keyword asks for. -/
  | shape
  /-- An operand is incomplete. -/
  | imbalance (cause : Expression.Imbalance)
  /-- A parameter is not a name. -/
  | parameter (written : Text)
  /-- An array declaration with an initializer. -/
  | initializedArray
  /-- Two commas of a print list without an operand between them, or one at an end. -/
  | emptyArgument
  /-- Input with a compound assignment. -/
  | compoundInput
  deriving DecidableEq, Repr

/-- The wording of a fault in a statement of the given shape. -/
def Fault.message (form : Form) : Fault → Text
  | shape => form.expectation
  | imbalance cause => cause.message
  | parameter written => text "invalid parameter name '" ++ written ++ text "'"
  | initializedArray => text "an array declaration cannot also have an initializer"
  | emptyArgument => text "empty argument in print list"
  | compoundInput => text "input can only be assigned with '='"

/-- What a line of pseudocode says. -/
inductive Statement where
  | blank
  | comment (note : Text)
  /-- `Algorithm <name>`, the first statement of a program. -/
  | header (name : Text)
  /-- `EndAlgorithm`, the last statement of a program. -/
  | footer
  | forLoop (name start stop : Text) (step : Option Text)
  | whileLoop (condition : Text)
  | branch (condition : Text)
  | elseIf (condition : Text)
  | otherwise
  | function (name : Text) (parameters : List Text)
  | returning (value : Option Text)
  | breaking
  | continuing
  | ending (kind : BlockKind)
  | declaration (kind : DeclarationKind) (name : Text) (size : Option Text)
      (init : Option Initializer)
  | set (value target : Text)
  | declare (name typeName : Text)
  | print (operands : List Text)
  | input (prompt target : Option Text)
  | assignment (target : Text) (operator : AssignmentOperator) (value : Initializer)
  | call (expression : Text)
  | malformed (form : Form) (fault : Fault)
  | raw (line : Text)
  deriving DecidableEq, Repr

/-- A statement that ends a part of a block. Such a line stands no deeper than the line that
    opened the block. -/
def Statement.continuesBlock : Statement → Bool
  | ending _ | otherwise | elseIf _ | footer => true
  | _ => false

end Pseudocode
