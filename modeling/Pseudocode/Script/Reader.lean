import Pseudocode.Text.Class

/-! # Readers

A reader takes a phrase off the beginning of a text. Alternatives are tried in order and the first
that reads is taken; no later failure comes back to another one. White space and comments are
skipped behind every token, so a reader always starts at the first character of a token.

A reading also says how far the text was understood: its `reach` is the greatest offset at which a
named part of the grammar was expected and not found. An error is reported there.
-/

namespace Pseudocode.Script

/-- A place in a text: what follows it, and its offset. -/
structure Cursor where
  rest : Text
  offset : Nat

/-- What a reader found: the value and the place behind it, unless it failed. -/
structure Reading (α : Type) where
  result : Option (α × Cursor)
  reach : Nat

/-- A reader of values. -/
def Reader (α : Type) := Cursor → Reading α

/-! ## White space and comments -/

/-- White space of the script. -/
def isGap (c : Char) : Bool := c = ' ' || c = '\t' || c = '\r' || c = '\n'

/-- The number of characters up to the end of a comment, whose mark has been read. -/
def commentEnd? : Text → Option Nat
  | '*' :: '/' :: _ => some 2
  | _ :: r => (commentEnd? r).map (· + 1)
  | [] => none

/-- The length of the comment that a text begins with: to the end of the line, or to the mark that
    closes it. -/
def commentLength? : Text → Option Nat
  | '/' :: '/' :: r => some (2 + (r.takeWhile (· ≠ '\n')).length)
  | '/' :: '*' :: r => (commentEnd? r).map (2 + ·)
  | _ => none

/-- The number of characters of white space and comments that a text begins with; `inside` of them
    still belong to a comment. -/
def gapLength (inside : Nat) : Text → Nat
  | [] => 0
  | c :: r =>
    match inside with
    | inside + 1 => 1 + gapLength inside r
    | 0 =>
      if isGap c then 1 + gapLength 0 r
      else match commentLength? (c :: r) with
        | some (length + 1) => 1 + gapLength length r
        | _ => 0

namespace Cursor

/-- The place `n` characters on. -/
def advance (c : Cursor) (n : Nat) : Cursor := ⟨c.rest.drop n, c.offset + n⟩

/-- The place behind white space and comments. -/
def skipGap (c : Cursor) : Cursor := c.advance (gapLength 0 c.rest)

/-- The first token of a text. -/
def ofText (t : Text) : Cursor := skipGap ⟨t, 0⟩

end Cursor

/-! ## Combinators -/

namespace Reader

variable {α β : Type}

/-- Takes nothing. -/
def yields (a : α) : Reader α := fun c => ⟨some (a, c), 0⟩

/-- One reader, and then another one that may depend on the first one's value. -/
def andThen (r : Reader α) (f : α → Reader β) : Reader β := fun c =>
  match r c with
  | ⟨none, reach⟩ => ⟨none, reach⟩
  | ⟨some (a, c), reach⟩ =>
    let next := f a c
    ⟨next.result, max reach next.reach⟩

instance : Monad Reader where
  pure := yields
  bind := andThen

/-- Always fails. -/
def fail : Reader α := fun _ => ⟨none, 0⟩

/-- The first reader, or the second one at the same place if the first one fails. -/
def orElse (r s : Reader α) : Reader α := fun c =>
  match r c with
  | ⟨some found, reach⟩ => ⟨some found, reach⟩
  | ⟨none, reach⟩ =>
    let other := s c
    ⟨other.result, max reach other.reach⟩

/-- The first of several readers that reads. -/
def oneOf (readers : List (Reader α)) : Reader α := readers.foldr orElse fail

/-- A named part of the grammar: where it is missing, the text is understood up to there. -/
def part (r : Reader α) : Reader α := fun c =>
  match r c with
  | ⟨none, reach⟩ => ⟨none, max reach c.offset⟩
  | found => found

/-- A reader that need not find anything. -/
def optional (r : Reader α) : Reader (Option α) := fun c =>
  match r c with
  | ⟨some (a, c), reach⟩ => ⟨some (some a, c), reach⟩
  | ⟨none, reach⟩ => ⟨some (none, c), reach⟩

/-- Goes on from a value as often as `step` reads, at most `fuel` times. -/
def iterate (step : α → Reader α) : (fuel : Nat) → α → Reader α
  | 0, a => yields a
  | fuel + 1, a => fun c =>
    match step a c with
    | ⟨some (a, c), reach⟩ =>
      let next := iterate step fuel a c
      ⟨next.result, max reach next.reach⟩
    | ⟨none, reach⟩ => ⟨some (a, c), reach⟩

/-- As many values as there are, at most `fuel`. -/
def many (fuel : Nat) (r : Reader α) : Reader (List α) := do
  let found ← iterate (fun found => do return (← r) :: found) fuel []
  return found.reverse

/-- The offset of the place. -/
def place : Reader Nat := fun c => ⟨some (c.offset, c), 0⟩

/-! ## Tokens -/

/-- A token, given by the value and the length of what a text begins with. -/
def token (scan : Text → Option (α × Nat)) : Reader α := fun c =>
  match scan c.rest with
  | some (a, length) => ⟨some (a, (c.advance length).skipGap), 0⟩
  | none => ⟨none, 0⟩

/-- A punctuation sign. -/
def sign (s : Char) : Reader Unit :=
  token fun t => if t.head? = some s then some ((), 1) else none

/-- The identifier characters that a text begins with. -/
def wordStart (t : Text) : Text := t.takeWhile Text.isIdentifierChar

/-- A word that is not part of a longer one. -/
def word (w : Text) : Reader Unit :=
  token fun t => if wordStart t = w then some ((), w.length) else none

/-- The end of the text. -/
def finished : Reader Unit := fun c => ⟨if c.rest.isEmpty then some ((), c) else none, 0⟩

end Reader

end Pseudocode.Script
