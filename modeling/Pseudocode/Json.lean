import Pseudocode.Number.Numeral

/-! # JSON

The data format of the protocol. `Json.parse?` reads one document, `Json.compact` writes it on
one line, and `Json.pretty` over several indented ones.

Numbers without a point or an exponent are integers as long as they fit 64 bits; any other number
is a double, and one that is too large for a double is refused. So are documents that nest 128
values or more, control characters in strings and halves of surrogate pairs.
-/

namespace Pseudocode

/-- A JSON document. The fields of an object keep their order and their repetitions. -/
inductive Json where
  | null
  | bool (value : Bool)
  | integer (value : Int)
  | decimal (value : Float)
  | string (value : Text)
  | array (items : List Json)
  | object (fields : List (Text × Json))
  deriving Inhabited

namespace Json

/-! ## Reading -/

/-- White space between tokens. -/
def isSpace (c : Char) : Bool := c = ' ' || c = '\n' || c = '\t' || c = '\r'

/-- The text after the white space at its beginning. -/
def dropSpace (t : Text) : Text := t.dropWhile isSpace

/-- The value of four hexadecimal digits and the rest. -/
def hexUnit? : Text → Option (Nat × Text)
  | a :: b :: c :: d :: r => do
    let a ← Numeral.digitIn? 16 a
    let b ← Numeral.digitIn? 16 b
    let c ← Numeral.digitIn? 16 c
    let d ← Numeral.digitIn? 16 d
    return (((a * 16 + b) * 16 + c) * 16 + d, r)
  | _ => none

/-- The character that a unicode escape stands for, read after its `u`, and the rest. A character
    above the basic plane takes two escapes. -/
def unicodeEscape? (t : Text) : Option (Char × Text) := do
  let (high, r) ← hexUnit? t
  if 0xD800 ≤ high && high < 0xDC00 then
    match r with
    | '\\' :: 'u' :: r =>
      let (low, r) ← hexUnit? r
      if 0xDC00 ≤ low && low < 0xE000 then
        some (Char.ofNat (0x10000 + (high - 0xD800) * 0x400 + (low - 0xDC00)), r)
      else none
    | _ => none
  else if 0xDC00 ≤ high && high < 0xE000 then none
  else some (Char.ofNat high, r)

/-- The character that a one-letter escape stands for. -/
def shortEscape? (c : Char) : Option Char :=
  [('"', '"'), ('\\', '\\'), ('/', '/'), ('b', '\x08'), ('f', '\x0c'), ('n', '\n'), ('r', '\r'),
    ('t', '\t')].lookup c

/-- The rest of a string up to its closing quote, and what follows. Every step takes at least one
    of the `fuel` characters. -/
def stringBody? : (fuel : Nat) → Text → Option (Text × Text)
  | 0, _ => none
  | _, [] => none
  | fuel + 1, '\\' :: 'u' :: r => do
    let (c, r) ← unicodeEscape? r
    let (body, r) ← stringBody? fuel r
    return (c :: body, r)
  | fuel + 1, '\\' :: e :: r => do
    let c ← shortEscape? e
    let (body, r) ← stringBody? fuel r
    return (c :: body, r)
  | fuel + 1, c :: r =>
    if c = '"' then some ([], r)
    else if c = '\\' || c.toNat < 32 then none
    else (stringBody? fuel r).map fun (body, r) => (c :: body, r)

/-- An integer, if it fits 64 bits with or without a sign. -/
def integer? (negative : Bool) (n : Nat) : Option Int :=
  if negative then if n ≤ 2 ^ 63 && n != 0 then some (-n) else none
  else if n < 2 ^ 64 then some n else none

/-- A number and the rest. -/
def number? (t : Text) : Option (Json × Text) := do
  let (negative, t) := match t with
    | '-' :: r => (true, r)
    | _ => (false, t)
  let (whole, t) := Numeral.splitDigits t
  if whole.isEmpty || (whole.head? = some '0' && 1 < whole.length) then none
  let (fraction, t) ← match t with
    | '.' :: r =>
      let (digits, r) := Numeral.splitDigits r
      if digits.isEmpty then none else some (some digits, r)
    | _ => some (none, t)
  let (exponent, t) ← match t with
    | e :: r =>
      if e = 'e' || e = 'E' then
        let (negative, r) := Numeral.splitSign r
        let (digits, r) := Numeral.splitDigits r
        if digits.isEmpty then none
        else
          let n : Int := Numeral.digitsValue digits
          some (some (if negative then -n else n), r)
      else some (none, t)
    | [] => some (none, t)
  let digits := Numeral.digitsValue (whole ++ fraction.getD [])
  let real := Decimal.nearest negative digits (exponent.getD 0 - (fraction.getD []).length)
  match fraction, exponent, integer? negative digits with
  | none, none, some n => return (.integer n, t)
  | _, _, _ => if Double.isFinite real then return (.decimal real, t) else none

/-- The containers that a document may nest. -/
def maxDepth : Nat := 127

mutual

/-- A value and the rest, with `depth` more levels of containers allowed. -/
def value? : (fuel depth : Nat) → Text → Option (Json × Text)
  | 0, _, _ => none
  | fuel + 1, depth, t =>
    match dropSpace t with
    | [] => none
    | '"' :: r => (stringBody? (r.length + 1) r).map fun (s, r) => (.string s, r)
    | '[' :: r =>
      match depth with
      | 0 => none
      | depth + 1 =>
        match dropSpace r with
        | ']' :: r => some (.array [], r)
        | r => (items? fuel depth r).map fun (items, r) => (.array items, r)
    | '\x7b' :: r =>
      match depth with
      | 0 => none
      | depth + 1 =>
        match dropSpace r with
        | '\x7d' :: r => some (.object [], r)
        | r => (fields? fuel depth r).map fun (fields, r) => (.object fields, r)
    | t =>
      match Text.dropStart? (text "null") t, Text.dropStart? (text "true") t,
        Text.dropStart? (text "false") t with
      | some r, _, _ => some (.null, r)
      | _, some r, _ => some (.bool true, r)
      | _, _, some r => some (.bool false, r)
      | none, none, none => number? t

/-- The items of an array up to its closing bracket, and the rest. -/
def items? : (fuel depth : Nat) → Text → Option (List Json × Text)
  | 0, _, _ => none
  | fuel + 1, depth, t => do
    let (item, t) ← value? fuel depth t
    match dropSpace t with
    | ',' :: r =>
      let (items, r) ← items? fuel depth r
      return (item :: items, r)
    | ']' :: r => return ([item], r)
    | _ => none

/-- The fields of an object up to its closing brace, and the rest. -/
def fields? : (fuel depth : Nat) → Text → Option (List (Text × Json) × Text)
  | 0, _, _ => none
  | fuel + 1, depth, t => do
    let (name, t) ← match dropSpace t with
      | '"' :: r => stringBody? (r.length + 1) r
      | _ => none
    let t ← Text.dropStart? [':'] (dropSpace t)
    let (value, t) ← value? fuel depth t
    match dropSpace t with
    | ',' :: r =>
      let (fields, r) ← fields? fuel depth r
      return ((name, value) :: fields, r)
    | '\x7d' :: r => return ([(name, value)], r)
    | _ => none

end

/-- The document that a text is. Each level of a value reads a character, so twice the length is
    fuel enough. -/
def parse? (t : Text) : Option Json := do
  let (value, rest) ← value? (2 * t.length + 2) maxDepth t
  if (dropSpace rest).isEmpty then some value else none

/-! ## Writing -/

/-- A hexadecimal digit. -/
def hexDigit (n : Nat) : Char := (Nat.toDigits 16 n).headD '0'

/-- A character inside a string. -/
def escape (c : Char) : Text :=
  if c = '"' then text "\\\""
  else if c = '\\' then text "\\\\"
  else if c = '\x08' then text "\\b"
  else if c = '\x0c' then text "\\f"
  else if c = '\n' then text "\\n"
  else if c = '\r' then text "\\r"
  else if c = '\t' then text "\\t"
  else if c.toNat < 32 then text "\\u00" ++ [hexDigit (c.toNat / 16), hexDigit (c.toNat % 16)]
  else [c]

/-- A string with its quotes. -/
def quote (t : Text) : Text := '"' :: t.flatMap escape ++ ['"']

/-- The numeral of an integer. -/
def integerText (n : Int) : Text := (if n < 0 then ['-'] else []) ++ Text.ofNat n.natAbs

mutual

/-- The document on one line. -/
def compact : Json → Text
  | .null => text "null"
  | .bool b => if b then text "true" else text "false"
  | .integer n => integerText n
  | .decimal x => Numeral.shortestText (Double.decode x)
  | .string t => quote t
  | .array items => '[' :: Text.join [','] (compactItems items) ++ [']']
  | .object fields => '\x7b' :: Text.join [','] (compactFields fields) ++ ['\x7d']

/-- The items of an array, each on one line. -/
def compactItems : List Json → List Text
  | [] => []
  | item :: items => compact item :: compactItems items

/-- The fields of an object, each on one line. -/
def compactFields : List (Text × Json) → List Text
  | [] => []
  | (name, value) :: fields => (quote name ++ ':' :: compact value) :: compactFields fields

end

/-- A line break and the indentation of a level. -/
def newLine (level : Nat) : Text := '\n' :: List.replicate (2 * level) ' '

/-- Parts on lines of their own, one level deeper than the brackets around them. -/
def block (opening closing : Char) (level : Nat) (parts : List Text) : Text :=
  if parts.isEmpty then [opening, closing]
  else
    opening :: newLine (level + 1) ++ Text.join (',' :: newLine (level + 1)) parts ++
      newLine level ++ [closing]

mutual

/-- The document over several lines, each level indented by two more spaces. -/
def prettyAt (level : Nat) : Json → Text
  | .array items => block '[' ']' level (prettyItems (level + 1) items)
  | .object fields => block '\x7b' '\x7d' level (prettyFields (level + 1) fields)
  | value => compact value

/-- The items of an array at a level. -/
def prettyItems (level : Nat) : List Json → List Text
  | [] => []
  | item :: items => prettyAt level item :: prettyItems level items

/-- The fields of an object at a level. -/
def prettyFields (level : Nat) : List (Text × Json) → List Text
  | [] => []
  | (name, value) :: fields =>
    (quote name ++ text ": " ++ prettyAt level value) :: prettyFields level fields

end

/-- The document over several lines. -/
def pretty (value : Json) : Text := prettyAt 0 value

/-! ## Values -/

/-- A natural number. -/
def ofNat (n : Nat) : Json := .integer n

/-- The text of a string. -/
def text? : Json → Option Text
  | .string t => some t
  | _ => none

/-- The number that an integer is, unless it is negative. -/
def nat? : Json → Option Nat
  | .integer n => if n < 0 then none else some n.toNat
  | _ => none

/-- The truth value of a boolean. -/
def bool? : Json → Option Bool
  | .bool b => some b
  | _ => none

/-- The items of an array, all read in the same way. -/
def listOf? {α : Type} (read : Json → Option α) : Json → Option (List α)
  | .array items => items.mapM read
  | _ => none

end Json

end Pseudocode
