import Pseudocode.Text.Basic

/-! # Positions in a script

A place in a text is an offset, the number of characters before it. People are shown a line and a
column instead, both counted from one:

* `Position.scan`       counts line feeds from the beginning of the text
* `LineIndex.position`  looks the offset up among the beginnings of the lines
-/

namespace Pseudocode.Script

/-- A line and a column, counted from one. -/
structure Position where
  line : Nat
  column : Nat
  deriving DecidableEq, Repr, Inhabited

/-- Line and column with a colon between them. -/
def Position.toText (p : Position) : Text := Text.ofNat p.line ++ ':' :: Text.ofNat p.column

/-- The position after some text that starts at `p`. -/
def Position.after (p : Position) : Text → Position
  | [] => p
  | c :: r => if c = '\n' then after ⟨p.line + 1, 1⟩ r else after ⟨p.line, p.column + 1⟩ r

/-- The position of an offset, counted from the beginning of the text. -/
def Position.scan (t : Text) (offset : Nat) : Position := after ⟨1, 1⟩ (t.take offset)

/-- The offsets at which the lines of a text start, in ascending order. -/
structure LineIndex where
  starts : Array Nat

namespace LineIndex

/-- The offsets behind the line feeds of a text that starts at `offset`. -/
def startsFrom (offset : Nat) : Text → List Nat
  | [] => []
  | c :: r =>
    if c = '\n' then (offset + 1) :: startsFrom (offset + 1) r else startsFrom (offset + 1) r

/-- The line starts of a text. -/
def ofText (t : Text) : LineIndex := ⟨(0 :: startsFrom 0 t).toArray⟩

/-- How many starts are not above the offset: those before `low` are known not to be, those from
    `high` on are known to be. -/
def countFrom (starts : Array Nat) (offset low high : Nat) : Nat :=
  if low < high then
    let middle := (low + high) / 2
    if (starts[middle]?.getD 0) ≤ offset then countFrom starts offset (middle + 1) high
    else countFrom starts offset low middle
  else low
termination_by high - low

/-- The position of an offset. -/
def position (index : LineIndex) (offset : Nat) : Position :=
  let line := max (countFrom index.starts offset 0 index.starts.size) 1
  ⟨line, offset - (index.starts[line - 1]?.getD 0) + 1⟩

end LineIndex

end Pseudocode.Script
