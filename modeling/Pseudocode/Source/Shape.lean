import Pseudocode.Text.Class

/-! # Line shapes

The parts from which the shape of a statement is put together. A part reads the beginning of a
text and hands the rest to the parts that follow, given as `next`; it is satisfied only if they
are. Where a part may take more or less of the text, it says which choice comes first:

* `blanks`, `someBlanks`  take as much white space as they can
* `passage`               takes as little text as it can
* `brackets`              takes as many bracketed groups as it can, each as short as it can
-/

namespace Pseudocode.Shape

variable {β : Type}

/-- A letter in lower case, where the long s and the kelvin sign count as letters too. -/
def foldCase (c : Char) : Char :=
  if c = 'ſ' then 's' else if c = '\u212A' then 'k' else c.toLower

/-- What follows `word`, written in any case, at the beginning of a text. -/
def dropWord? : (word t : Text) → Option Text
  | [], t => some t
  | _ :: _, [] => none
  | w :: word, c :: t => if foldCase c = w then dropWord? word t else none

/-- Nothing is left. -/
def atEnd : Text → Option Unit
  | [] => some ()
  | _ :: _ => none

/-- Any amount of white space, the more the better. -/
def blanks (next : Text → Option β) : Text → Option β
  | [] => next []
  | c :: r => if Text.isBlank c then blanks next r <|> next (c :: r) else next (c :: r)

/-- At least one character of white space, the more the better. -/
def someBlanks (next : Text → Option β) : Text → Option β
  | [] => none
  | c :: r => if Text.isBlank c then blanks next r else none

/-- A word between white space. -/
def separator (word : Text) (next : Text → Option β) : Text → Option β :=
  someBlanks fun t => (dropWord? word t).bind (someBlanks next)

/-- Some text within the line, the less the better, and what the rest reads. -/
def passage (next : Text → Option β) : Text → Option (Text × β)
  | [] => none
  | c :: r =>
    if c = '\n' then none
    else match next r with
      | some b => some ([c], b)
      | none => (passage next r).map fun (p, b) => (c :: p, b)

/-- The end of the line, with one of the words before it if there is one. -/
def closing (words : List Text) (t : Text) : Option Unit :=
  someBlanks (fun t => words.findSome? fun w => (dropWord? w t).bind atEnd) t <|> atEnd t

/-- A letter or an underscore of ASCII. -/
def isNameStart (c : Char) : Bool := c.isAlpha || c = '_'

/-- A letter that folds to ASCII, or an underscore. -/
def isFoldedNameStart (c : Char) : Bool := (foldCase c).isAlpha || c = '_'

/-- A name and the rest: a character that `starts` one and the word characters after it. -/
def name? (starts : Char → Bool) : Text → Option (Text × Text)
  | [] => none
  | c :: r =>
    if starts c then some (c :: r.takeWhile Text.isWordChar, r.dropWhile Text.isWordChar) else none

/-- The text is a name. -/
def isName (t : Text) : Bool :=
  match name? isNameStart t with
  | some (_, []) => true
  | _ => false

/-- The text does not continue a word. -/
def atWordEnd : Text → Bool
  | [] => true
  | c :: _ => !Text.isWordChar c

/-! ## Bracketed groups -/

mutual

/-- White space and the bracket that opens a group. -/
def groupStart (inner : Char → Bool) (next : Text → Option β) : Text → Option (Text × β)
  | [] => none
  | c :: r =>
    if c = '[' then (groupFirst inner next r).map fun (g, b) => (c :: g, b)
    else if Text.isBlank c then (groupStart inner next r).map fun (g, b) => (c :: g, b)
    else none

/-- The first character inside a group. -/
def groupFirst (inner : Char → Bool) (next : Text → Option β) : Text → Option (Text × β)
  | [] => none
  | c :: r => if inner c then (groupRest inner next r).map fun (g, b) => (c :: g, b) else none

/-- A closing bracket, with more groups or `next` after it, or one more character inside. -/
def groupRest (inner : Char → Bool) (next : Text → Option β) : Text → Option (Text × β)
  | [] => none
  | c :: r =>
    (if c = ']' then
      (groupStart inner next r).map (fun (g, b) => (c :: g, b)) <|> (next r).map fun b => ([c], b)
    else none) <|>
    if inner c then (groupRest inner next r).map fun (g, b) => (c :: g, b) else none

end

/-- Groups in square brackets of at least one `inner` character each, with their white space, and
    what the rest reads. -/
def brackets (inner : Char → Bool) (next : Text → Option β) (t : Text) : Option (Text × β) :=
  groupStart inner next t <|> (next t).map fun b => ([], b)

/-! ## What the parts take -/

theorem blanks_eq_some {next : Text → Option β} {t : Text} {b : β} (h : blanks next t = some b) :
    ∃ r, r <:+ t ∧ next r = some b := by
  induction t with
  | nil => exact ⟨[], List.suffix_refl _, h⟩
  | cons c r ih =>
    rw [blanks] at h
    split at h
    · cases hb : blanks next r with
      | some b' =>
        rw [hb] at h
        obtain ⟨s, hs, hn⟩ := ih (by simpa [hb] using h)
        exact ⟨s, hs.trans (List.suffix_cons c r), hn⟩
      | none =>
        rw [hb] at h
        exact ⟨c :: r, List.suffix_refl _, by simpa using h⟩
    · exact ⟨c :: r, List.suffix_refl _, h⟩

theorem someBlanks_eq_some {next : Text → Option β} {t : Text} {b : β}
    (h : someBlanks next t = some b) : ∃ r, r <:+ t ∧ next r = some b := by
  cases t with
  | nil => simp [someBlanks] at h
  | cons c r =>
    rw [someBlanks] at h
    split at h
    · obtain ⟨s, hs, hn⟩ := blanks_eq_some h
      exact ⟨s, hs.trans (List.suffix_cons c r), hn⟩
    · simp at h

/-- A passage is a non-empty beginning of the text within its line, and `next` reads the rest. -/
theorem passage_eq_some {next : Text → Option β} {t p : Text} {b : β}
    (h : passage next t = some (p, b)) :
    ∃ r, t = p ++ r ∧ p ≠ [] ∧ '\n' ∉ p ∧ next r = some b := by
  induction t generalizing p with
  | nil => simp [passage] at h
  | cons c r ih =>
    rw [passage] at h
    split at h
    · simp at h
    · next hc =>
      cases hn : next r with
      | some b' =>
        rw [hn] at h
        simp only [Option.some.injEq, Prod.mk.injEq] at h
        obtain ⟨rfl, rfl⟩ := h
        exact ⟨r, rfl, by simp, by simpa using Ne.symm hc, hn⟩
      | none =>
        rw [hn] at h
        simp only [Option.map_eq_some_iff, Prod.mk.injEq, Prod.exists] at h
        obtain ⟨q, b', hq, rfl, rfl⟩ := h
        obtain ⟨s, rfl, _, hq', hs⟩ := ih hq
        exact ⟨s, rfl, by simp, by simp [Ne.symm hc, hq'], hs⟩

end Pseudocode.Shape
