import Pseudocode.Text.Class

/-! # Source lines

A program is read line by line. Each line keeps its number and raw text; the trimmed text decides
what the line means, and the leading white space only how deep it looks.
-/

namespace Pseudocode

/-- One line of a program. -/
structure Line where
  /-- Counted from one. -/
  number : Nat
  /-- The line without its terminator. -/
  raw : Text
  deriving DecidableEq, Repr

namespace Line

-- The empty sum is the numeral, whatever other zeros are in scope.
attribute [local instance (high)] Zero.ofOfNat0

/-- Columns that a tab stands for. -/
def tabWidth : Nat := 4

/-- Without one trailing carriage return. -/
def dropReturn (t : Text) : Text := (Text.dropEnd? ['\r'] t).getD t

/-- The line of a number with the given text; one trailing carriage return is no part of it. -/
def ofText (number : Nat) (t : Text) : Line := ⟨number, dropReturn t⟩

/-- The line without surrounding white space. -/
def trimmed (l : Line) : Text := Text.trim l.raw

/-- The white space before the first other character. -/
def leading (l : Line) : Text := Text.leadingBlanks l.raw

/-- Width of the leading white space in columns. -/
def indent (l : Line) : Nat :=
  (l.leading.map fun c => if c = '\t' then tabWidth else 1).sum

/-- A blank line or a comment. -/
def isTrivial (l : Line) : Bool :=
  match l.trimmed with
  | [] => true
  | c :: _ => c = '#'

end Line

namespace Source

/-- The texts of the lines: each ends at a line feed, or at a carriage return and a line feed. A
    line feed at the end of the source starts no further line. -/
def lineTexts (source : Text) : List Text :=
  let parts := Text.pieces '\n' source
  let ended := parts.dropLast.map Line.dropReturn
  match parts.getLast? with
  | none => ended
  | some rest => if rest.isEmpty then ended else ended ++ [rest]

/-- The lines of a source, numbered from one. -/
def lines (source : Text) : List Line :=
  (lineTexts source).mapIdx fun i t => Line.ofText (i + 1) t

end Source

end Pseudocode
