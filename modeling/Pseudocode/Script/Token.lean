import Pseudocode.Number.Numeral
import Pseudocode.Operator
import Pseudocode.Script.Phrase
import Pseudocode.Script.Reader

/-! # Tokens of the script

Each function says which token a text begins with, and how long it is. A word is always read as a
whole, so a keyword is never the beginning of a longer name.
-/

namespace Pseudocode.Script.Token

/-! ## Words -/

/-- The words that are no identifiers. -/
def keywords : List Text := [
  text "let", text "const", text "var", text "function", text "async", text "await", text "if",
  text "else", text "while", text "for", text "return", text "break", text "continue", text "new",
  text "typeof", text "true", text "false", text "null", text "undefined"]

/-- The name that a text begins with, be it a keyword or not. -/
def name? (t : Text) : Option (Text × Nat) :=
  match t with
  | [] => none
  | c :: _ =>
    if Text.isIdentifierStart c then some (Reader.wordStart t, (Reader.wordStart t).length)
    else none

/-- The identifier that a text begins with. -/
def identifier? (t : Text) : Option (Text × Nat) := (name? t).filter fun (w, _) => w ∉ keywords

/-- One of the words of a table. -/
def wordOf? {α : Type} (table : List (Text × α)) (t : Text) : Option (α × Nat) :=
  let w := Reader.wordStart t
  (table.lookup w).map fun a => (a, w.length)

/-! ## Literals -/

/-- The length of the exponent that a text begins with, zero if it is not complete. -/
def exponentLength (t : Text) : Nat := (Numeral.exponentStart t).length

/-- The unsigned decimal that a text begins with. -/
def number? (t : Text) : Option (Float × Nat) :=
  let (whole, rest) := Numeral.splitDigits t
  let (point, fraction, rest) :=
    match rest with
    | '.' :: r => (1, (Numeral.splitDigits r).1, (Numeral.splitDigits r).2)
    | _ => (0, [], rest)
  if whole.isEmpty && fraction.isEmpty then none
  else
    let length := whole.length + point + fraction.length + exponentLength rest
    (Numeral.float? (t.take length)).map fun x => (x, length)

/-- The characters up to a closing quote, as they are written. A backslash takes the next character
    with it; a bare line feed leaves the string open. -/
def quoted? (quote : Char) : Text → Option Text
  | [] => none
  | ['\\'] => none
  | '\\' :: c :: r => (quoted? quote r).map fun t => '\\' :: c :: t
  | c :: r =>
    if c = quote then some []
    else if c = '\n' then none
    else (quoted? quote r).map (c :: ·)

/-- The character with a code, if there is one. -/
def character? (code : Nat) : Option Char :=
  if code < 0xD800 ∨ 0xDFFF < code ∧ code < 0x110000 then some (Char.ofNat code) else none

/-- The character that hexadecimal digits stand for; a plus sign before them is ignored. -/
def escapedCode? (t : Text) : Option Char := do
  let digits := (Text.dropStart? ['+'] t).getD t
  if digits.isEmpty then none
  let digits ← digits.mapM (Numeral.digitIn? 16)
  character? (digits.foldl (fun n d => 16 * n + d) 0)

/-- The characters that a quoted text stands for; `inside` of the next ones belong to an escape that
    has been read. After `\u` come up to four hexadecimal digits; where they are no character the
    backslash alone is dropped, as it is before any other character without a meaning. -/
def unescapeFrom (inside : Nat) : Text → Text
  | [] => []
  | c :: r =>
    match inside with
    | inside + 1 => unescapeFrom inside r
    | 0 =>
      if c = '\\' then
        match r with
        | [] => []
        | 'n' :: _ => '\n' :: unescapeFrom 1 r
        | 't' :: _ => '\t' :: unescapeFrom 1 r
        | 'r' :: _ => '\r' :: unescapeFrom 1 r
        | '0' :: _ => '\x00' :: unescapeFrom 1 r
        | 'u' :: digits =>
          match escapedCode? (digits.take 4) with
          | some decoded => decoded :: unescapeFrom (1 + (digits.take 4).length) r
          | none => 'u' :: digits.take 4 ++ unescapeFrom (1 + (digits.take 4).length) r
        | other :: _ => other :: unescapeFrom 1 r
      else c :: unescapeFrom 0 r

/-- The characters that a quoted text stands for. -/
def unescape (t : Text) : Text := unescapeFrom 0 t

/-- The string that a text begins with. -/
def string? (t : Text) : Option (Text × Nat) :=
  match t with
  | [] => none
  | quote :: r =>
    if quote = '"' || quote = '\'' then
      (quoted? quote r).map fun written => (unescape written, written.length + 2)
    else none

/-! ## Operators -/

/-- The assignment operator that a text begins with. No equals sign follows it. -/
def assignmentOperator? (t : Text) : Option (AssignmentOperator × Nat) :=
  let alone (operator : AssignmentOperator) (length : Nat) :=
    if (t.drop length).head? = some '=' then none else some (operator, length)
  match t with
  | '+' :: '=' :: _ => alone .add 2
  | '-' :: '=' :: _ => alone .subtract 2
  | '*' :: '=' :: _ => alone .multiply 2
  | '/' :: '=' :: _ => alone .divide 2
  | '%' :: '=' :: _ => alone .remainder 2
  | '=' :: _ => alone .plain 1
  | _ => none

/-- A sign, unless one of the given characters follows it. -/
def signNotBefore? (operator : BinaryOperator) (others : List Char) (after : Text) :
    Option (BinaryOperator × Nat) :=
  if after.head?.any (· ∈ others) then none else some (operator, 1)

/-- The binary operator of a level that a text begins with. -/
def binaryOperator? (level : Level) (t : Text) : Option (BinaryOperator × Nat) :=
  match level, t with
  | 3, '|' :: '|' :: _ => some (.or, 2)
  | 4, '&' :: '&' :: _ => some (.and, 2)
  | 5, '=' :: '=' :: '=' :: _ => some (.strictEqual, 3)
  | 5, '!' :: '=' :: '=' :: _ => some (.strictNotEqual, 3)
  | 5, '=' :: '=' :: _ => some (.equal, 2)
  | 5, '!' :: '=' :: _ => some (.notEqual, 2)
  | 6, '<' :: '=' :: _ => some (.lessEqual, 2)
  | 6, '>' :: '=' :: _ => some (.greaterEqual, 2)
  | 6, '<' :: _ => some (.less, 1)
  | 6, '>' :: _ => some (.greater, 1)
  | 7, '+' :: r => signNotBefore? .add ['=', '+', '-'] r
  | 7, '-' :: r => signNotBefore? .subtract ['=', '+', '-'] r
  | 8, '*' :: r => signNotBefore? .multiply ['='] r
  | 8, '/' :: r => signNotBefore? .divide ['='] r
  | 8, '%' :: r => signNotBefore? .remainder ['='] r
  | _, _ => none

/-- The unary operator that a text begins with. -/
def unaryOperator? (t : Text) : Option (UnaryOperator × Nat) :=
  match t with
  | '!' :: r => if r.head? = some '=' then none else some (.not, 1)
  | '-' :: _ => some (.negate, 1)
  | '+' :: _ => some (.plus, 1)
  | t => wordOf? [(text "typeof", .typeOf), (text "await", .await)] t

end Pseudocode.Script.Token
