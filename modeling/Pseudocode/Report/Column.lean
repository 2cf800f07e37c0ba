import Pseudocode.Text.Class

/-! # Columns

Translation changes the width of a line, so a column of the script has no fixed place in the source.
What it follows is the word under it: the `n`-th occurrence of a word in the script line belongs to
the `n`-th occurrence in the source line, or to the only one. Columns of operators and punctuation
belong to no place.
-/

namespace Pseudocode.Column

/-- A character of a word. -/
def isWordChar (c : Char) : Bool := Text.isAlphanumeric c || c = '_' || c = '$'

/-- Whether `word` stands at the beginning of a text and does not go on. -/
def startsWithWord (word t : Text) : Bool :=
  match Text.dropStart? word t with
  | some (c :: _) => !isWordChar c
  | some [] => true
  | none => false

/-- The offsets at which `word` stands as a whole word, counted from `offset`; `inWord` says whether
    the character before the text belongs to a word. -/
def occurrencesFrom (word : Text) (offset : Nat) (inWord : Bool) : Text → List Nat
  | [] => []
  | c :: r =>
    let others := occurrencesFrom word (offset + 1) (isWordChar c) r
    if !inWord && startsWithWord word (c :: r) then offset :: others else others

/-- The offsets at which `word` stands as a whole word. -/
def occurrences (word t : Text) : List Nat := occurrencesFrom word 0 false t

/-- The word around an offset and where it starts, if there is one. -/
def wordAround? (t : Text) (offset : Nat) : Option (Text × Nat) :=
  match t[offset]? with
  | some c =>
    if isWordChar c then
      let before := (t.take offset).reverse.takeWhile isWordChar
      some (before.reverse ++ (t.drop offset).takeWhile isWordChar, offset - before.length)
    else none
  | none => none

/-- The column of the source line that a column of the script line belongs to. Columns count from
    one. -/
def map? (generated source : Text) (column : Nat) : Option Nat :=
  if generated = source then some column
  else match column with
    | 0 => none
    | offset + 1 => do
      let (word, start) ← wordAround? generated offset
      let occurrence ← (occurrences word generated).idxOf? start
      match occurrences word source, (occurrences word source)[occurrence]? with
      | _, some found => some (found + 1)
      | [only], none => some (only + 1)
      | _, none => none

end Pseudocode.Column
