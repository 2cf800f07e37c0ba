import Pseudocode.Text.Basic
import Pseudocode.Text.Property

/-! # Character classes

The classes by which lines, words and numbers are told apart. Every class extends its ASCII
core by a Unicode property:

* `isBlank`         the White_Space property
* `isAlphabetic`    the Alphabetic property
* `isAlphanumeric`  Alphabetic, or a number category
* `isWordChar`      alphabetic, mark, decimal digit, connector punctuation or join control
* `isDecimalDigit`  category Nd

`Text.trim` and its halves take off blank characters.
-/

namespace Pseudocode.Text

/-- A white space character. -/
def isBlank (c : Char) : Bool :=
  let n := c.toNat
  n = 32 || (9 ≤ n && n ≤ 13) || n = 0x85 || n = 0xA0 || n = 0x1680 ||
    (0x2000 ≤ n && n ≤ 0x200A) || n = 0x2028 || n = 0x2029 || n = 0x202F || n = 0x205F || n = 0x3000

/-- A letter of any script. -/
def isAlphabetic (c : Char) : Bool :=
  c.isAlpha || (128 ≤ c.toNat && Property.within Property.alphabetic c.toNat)

/-- A letter or a number of any script. -/
def isAlphanumeric (c : Char) : Bool :=
  c.isAlphanum || (128 ≤ c.toNat &&
    (Property.within Property.alphabetic c.toNat || Property.within Property.numeric c.toNat))

/-- A character of a word: words are separated where a word character meets another one. -/
def isWordChar (c : Char) : Bool :=
  c.isAlphanum || c = '_' || (128 ≤ c.toNat &&
    ((Property.within Property.alphabetic c.toNat && !Property.within Property.wordMissing c.toNat) ||
      Property.within Property.wordExtra c.toNat))

/-- A decimal digit of any script. -/
def isDecimalDigit (c : Char) : Bool :=
  c.isDigit || (128 ≤ c.toNat && Property.within Property.decimalDigit c.toNat)

/-- A character that continues a bare word of the pseudocode. -/
def isNameChar (c : Char) : Bool := isAlphanumeric c || c = '_'

/-- A character that continues an identifier of the script. -/
def isIdentifierChar (c : Char) : Bool := c.isAlphanum || c = '_' || c = '$'

/-- A character that starts an identifier of the script. -/
def isIdentifierStart (c : Char) : Bool := c.isAlpha || c = '_' || c = '$'

/-! ## Trimming -/

/-- The text without its leading white space. -/
def trimStart (t : Text) : Text := t.dropWhile isBlank

/-- The text without its trailing white space. -/
def trimEnd (t : Text) : Text := (t.reverse.dropWhile isBlank).reverse

/-- The text without surrounding white space. -/
def trim (t : Text) : Text := trimEnd (trimStart t)

/-- The leading white space of the text. -/
def leadingBlanks (t : Text) : Text := t.takeWhile isBlank

/-- Leading white space and the rest make up the text. -/
theorem leadingBlanks_append_trimStart (t : Text) : leadingBlanks t ++ trimStart t = t :=
  List.takeWhile_append_dropWhile

theorem isBlank_of_mem_leadingBlanks {c : Char} {t : Text} (h : c ∈ leadingBlanks t) :
    isBlank c = true := by
  induction t with
  | nil => simp [leadingBlanks] at h
  | cons d r ih =>
    simp only [leadingBlanks, List.takeWhile_cons] at h ih
    split at h
    · next hd =>
      rcases List.mem_cons.1 h with rfl | h
      · exact hd
      · exact ih h
    · simp at h

/-- Trimming takes characters off both ends and changes none. -/
theorem trim_isInfix (t : Text) : trim t <:+: t := by
  refine ⟨leadingBlanks t, ((trimStart t).reverse.takeWhile isBlank).reverse, ?_⟩
  have h := List.takeWhile_append_dropWhile (p := isBlank) (l := (trimStart t).reverse)
  have h' := congrArg List.reverse h
  simp only [List.reverse_append, List.reverse_reverse] at h'
  rw [trim, trimEnd, List.append_assoc, h', leadingBlanks_append_trimStart]

end Pseudocode.Text
