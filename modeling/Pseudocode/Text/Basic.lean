/-! # Program text

Text is a list of Unicode scalar values, so that lengths, offsets and columns all count
characters, and every operation on text is an operation on lists:

* `Text.dropStart?` / `Text.dropEnd?`  a known beginning or end, taken off
* `Text.pieces` / `Text.splitOn`       the text between separators
* `Text.indexOf?`                      the first place where one text occurs in another
-/

namespace Pseudocode

/-- A sequence of Unicode scalar values. -/
abbrev Text := List Char

/-- The text of a string literal. -/
@[inline] def text (s : String) : Text := s.toList

namespace Text

/-- Decimal digits of a number, without leading zeros. -/
def ofNat (n : Nat) : Text := Nat.toDigits 10 n

/-- ASCII letters in lower case; every other character stays. -/
def toLower (t : Text) : Text := t.map Char.toLower

/-- Equality up to the case of ASCII letters. -/
def sameWord (a b : Text) : Bool := toLower a == toLower b

/-- What follows `start` in `t`, if `t` begins with it. -/
def dropStart? : (start t : Text) → Option Text
  | [], t => some t
  | _ :: _, [] => none
  | a :: start, c :: t => if a = c then dropStart? start t else none

/-- What precedes `tail` in `t`, if `t` ends with it. -/
def dropEnd? (tail t : Text) : Option Text :=
  (dropStart? tail.reverse t.reverse).map List.reverse

/-- Whether `t` begins with `start`. -/
def startsWith (start t : Text) : Bool := (dropStart? start t).isSome

/-- Whether `t` ends with `tail`. -/
def endsWith (tail t : Text) : Bool := (dropEnd? tail t).isSome

/-- The pieces between occurrences of `sep`; a text without `sep` is one piece. -/
def pieces (sep : Char) : Text → List Text
  | [] => [[]]
  | c :: r =>
    if c = sep then [] :: pieces sep r
    else match pieces sep r with
      | [] => [[c]]
      | first :: others => (c :: first) :: others

/-- Offset of the first occurrence of `needle`, counted from `offset`. -/
def indexFrom? (needle : Text) (offset : Nat) : Text → Option Nat
  | [] => if needle.isEmpty then some offset else none
  | c :: r => if startsWith needle (c :: r) then some offset else indexFrom? needle (offset + 1) r

/-- Offset of the first occurrence of `needle` in `t`. -/
def indexOf? (needle t : Text) : Option Nat := indexFrom? needle 0 t

/-- Whether `needle` occurs in `t`. -/
def contains (needle t : Text) : Bool := (indexOf? needle t).isSome

/-- Splits at every occurrence of `sep`, scanning from the left. `skip` characters still belong
    to the separator that was just found, and `piece` is the current piece in reverse. -/
def splitFrom (sep : Text) (skip : Nat) (piece : Text) : Text → List Text
  | [] => [piece.reverse]
  | c :: r =>
    match skip with
    | skip + 1 => splitFrom sep skip piece r
    | 0 =>
      if startsWith sep (c :: r) then piece.reverse :: splitFrom sep (sep.length - 1) [] r
      else splitFrom sep 0 (c :: piece) r

/-- The pieces between non-overlapping occurrences of a non-empty separator. -/
def splitOn (sep t : Text) : List Text := splitFrom sep 0 [] t

/-- The parts in order, with `sep` between neighbours. -/
def join (sep : Text) (parts : List Text) : Text := sep.intercalate parts

/-- `t`, filled up on the left with spaces to at least `width` characters. -/
def padLeft (width : Nat) (t : Text) : Text := List.replicate (width - t.length) ' ' ++ t

/-! ## Pieces and their separator -/

theorem pieces_ne_nil (sep : Char) (t : Text) : pieces sep t ≠ [] := by
  cases t with
  | nil => simp [pieces]
  | cons c r =>
    rw [pieces]
    split
    · simp
    · split <;> simp

/-- Joining the pieces with their separator gives the text back. -/
theorem join_pieces (sep : Char) (t : Text) : join [sep] (pieces sep t) = t := by
  induction t with
  | nil => simp [pieces, join, List.intercalate]
  | cons c r ih =>
    rw [pieces]
    split
    · next h =>
      subst h
      cases hp : pieces c r with
      | nil => exact absurd hp (pieces_ne_nil c r)
      | cons first others =>
        rw [hp] at ih
        simp only [join, List.intercalate, List.intersperse, List.flatten_cons, List.nil_append]
          at ih ⊢
        cases others <;> simp_all [List.intersperse]
    · cases hp : pieces sep r with
      | nil => exact absurd hp (pieces_ne_nil sep r)
      | cons first others =>
        rw [hp] at ih
        cases others <;> simp_all [join, List.intercalate, List.intersperse]

end Text

end Pseudocode
