import Pseudocode.Text.Basic

/-! # Statements of the script

The statements stand over two kinds of expressions and places: as they are read, over phrases and
offsets, and once they are checked, over expressions and positions.
-/

namespace Pseudocode.Script

/-- The keyword of a declaration. -/
inductive BindingKind where
  | let
  | const
  | var
  deriving DecidableEq, Repr

/-- A declared name and its value. -/
structure Declarator (ε π : Type) where
  place : π
  name : Text
  value : Option ε

/-- What a counting loop starts with. -/
inductive LoopStart (ε π : Type) where
  | declaration (kind : BindingKind) (declarators : List (Declarator ε π))
  | expression (e : ε)

/-- A statement over expressions `ε` and places `π`. -/
inductive Statement (ε π : Type) where
  | expression (e : ε)
  | declaration (kind : BindingKind) (declarators : List (Declarator ε π))
  | function (place : π) (name : Text) (namePlace : π) (parameters : List Text) (isAsync : Bool)
      (body : List (Statement ε π))
  | returning (place : π) (value : Option ε)
  | branch (test : ε) (yes : Statement ε π) (no : Option (Statement ε π))
  | whileLoop (test : ε) (body : Statement ε π)
  | forLoop (place : π) (start : Option (LoopStart ε π)) (test update : Option ε)
      (body : Statement ε π)
  | block (body : List (Statement ε π))
  | breaking (place : π)
  | continuing (place : π)
  | empty

end Pseudocode.Script
