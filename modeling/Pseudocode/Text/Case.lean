import Pseudocode.Text.Basic
import Pseudocode.Text.Property
import Pseudocode.Text.CaseTable

/-! # Case conversion

Upper and lower case of whole texts. A character may become several ones (`ß` to `SS`), and a
capital sigma becomes the final form at the end of a word.
-/

namespace Pseudocode.Text

/-- The image of a character above ASCII under a pair of mapping tables. -/
def mapCase (runs : List CaseTable.Run) (expansions : List (Nat × List Nat)) (c : Char) : Text :=
  match expansions.lookup c.toNat with
  | some several => several.map Char.ofNat
  | none => [((CaseTable.lookup? runs c.toNat).map Char.ofNat).getD c]

/-- Upper case of one character. -/
def upperOf (c : Char) : Text :=
  if c.toNat < 128 then [c.toUpper]
  else mapCase CaseTable.upperRuns CaseTable.upperExpansions c

/-- Lower case of one character, out of context. -/
def lowerOf (c : Char) : Text :=
  if c.toNat < 128 then [c.toLower]
  else mapCase CaseTable.lowerRuns CaseTable.lowerExpansions c

/-- The whole text in upper case. -/
def toUpperCase (t : Text) : Text := t.flatMap upperOf

/-- Whether the first character that is not case-ignorable is cased. -/
def meetsCased (t : Text) : Bool :=
  match t.dropWhile fun c => Property.within Property.caseIgnorable c.toNat with
  | [] => false
  | c :: _ => Property.within Property.cased c.toNat

/-- Lower case of a text whose characters before it, nearest first, are `before`. A capital sigma
    is final when a cased letter precedes it and none follows in the word. -/
def lowerAfter (before : Text) : Text → Text
  | [] => []
  | c :: r =>
    let lowered :=
      if c = 'Σ' then if meetsCased before && !meetsCased r then ['ς'] else ['σ'] else lowerOf c
    lowered ++ lowerAfter (c :: before) r

/-- The whole text in lower case. -/
def toLowerCase (t : Text) : Text := lowerAfter [] t

end Pseudocode.Text
