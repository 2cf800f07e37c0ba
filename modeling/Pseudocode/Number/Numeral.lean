import Pseudocode.Number.Decimal
import Pseudocode.Text.Class

/-! # Numerals

The texts that stand for numbers, and the texts of numbers.

* `Numeral.decimal?`   an unsigned decimal: digits with a point anywhere, then an exponent
* `Numeral.bits?`      a signed decimal or the name of a special value
* `Numeral.ofText`     the number that a text converts to, NaN if it is none
* `Numeral.toText`     the text that a number is shown as
* `Numeral.leadingInteger`, `Numeral.leadingDecimal`  the number that a text begins with
-/

namespace Pseudocode.Numeral

/-- Not a number. -/
def nan : Float := 0.0 / 0.0

/-- Positive infinity. -/
def infinity : Float := 1.0 / 0.0

/-- The value of ASCII digits in base ten. -/
def digitsValue (digits : Text) : Nat :=
  digits.foldl (fun n c => 10 * n + (c.toNat - 48)) 0

/-- The sign that a text begins with, if any, and the rest. -/
def splitSign : Text → Bool × Text
  | '-' :: r => (true, r)
  | '+' :: r => (false, r)
  | t => (false, t)

/-- The ASCII digits that a text begins with, and the rest. -/
def splitDigits (t : Text) : Text × Text := (t.takeWhile Char.isDigit, t.dropWhile Char.isDigit)

/-- The exponent written by the whole text; the empty text writes none. -/
def exponent? : Text → Option Int
  | [] => some 0
  | e :: r =>
    if e = 'e' || e = 'E' then
      let (negative, r) := splitSign r
      let (digits, rest) := splitDigits r
      if digits.isEmpty || !rest.isEmpty then none
      else some (if negative then -(digitsValue digits) else digitsValue digits)
    else none

/-- The decimal written by the whole text, without a sign: digits before or after a point or both,
    and an optional exponent. -/
def decimal? (t : Text) : Option Decimal.Scientific :=
  let (whole, rest) := splitDigits t
  let (fraction, rest) :=
    match rest with
    | '.' :: r => splitDigits r
    | _ => ([], rest)
  if whole.isEmpty && fraction.isEmpty then none
  else (exponent? rest).map fun e => ⟨digitsValue (whole ++ fraction), e - fraction.length⟩

/-- The bit pattern of the number written by the whole text: a decimal, `inf`, `infinity` or `nan`
    in any case, with an optional sign. -/
def bits? (t : Text) : Option Nat :=
  let (negative, t) := splitSign t
  match decimal? t with
  | some d => some (Decimal.nearestBits d.digits d.exponent + Double.signBit negative)
  | none =>
    if Text.sameWord t (text "nan") then some Double.nanBits
    else if Text.sameWord t (text "inf") || Text.sameWord t (text "infinity") then
      some (Double.infinityBits + Double.signBit negative)
    else none

/-- The number written by the whole text. -/
def float? (t : Text) : Option Float := (bits? t).map fun bits => Float.ofBits (UInt64.ofNat bits)

/-- What the number written by the whole text stands for. -/
def double? (t : Text) : Option Double := (bits? t).map Double.ofBits

/-- The value of a digit in a base up to 36. -/
def digitIn? (base : Nat) (c : Char) : Option Nat :=
  let value? :=
    if c.isDigit then some (c.toNat - 48)
    else if c.isLower then some (c.toNat - 87)
    else if c.isUpper then some (c.toNat - 55)
    else none
  value?.filter (· < base)

/-- The whole number written by hexadecimal digits with an optional sign, if it fits 64 bits. -/
def hexadecimal? (t : Text) : Option Int :=
  let (negative, t) := splitSign t
  if t.isEmpty then none
  else do
    let digits ← t.mapM (digitIn? 16)
    let n : Nat := digits.foldl (fun n d => 16 * n + d) 0
    if negative then if n ≤ 2 ^ 63 then some (-(n : Int)) else none
    else if n < 2 ^ 63 then some n
    else none

/-- The text without the mark of a hexadecimal number, if it begins with one. -/
def dropHexMark? : Text → Option Text
  | '0' :: 'x' :: r => some r
  | '0' :: 'X' :: r => some r
  | _ => none

/-- The characters of a decimal with a sign and an exponent. -/
def isDecimalChar (c : Char) : Bool :=
  c.isDigit || c = '.' || c = 'e' || c = 'E' || c = '+' || c = '-'

/-- The number that a text converts to: surrounding white space is ignored, the empty text is
    zero, and a text that is no number is NaN. -/
def ofText (t : Text) : Float :=
  let t := Text.trim t
  if t.isEmpty then 0
  else if t = text "Infinity" || t = text "+Infinity" then infinity
  else if t = text "-Infinity" then -infinity
  else match dropHexMark? t with
    | some digits => ((hexadecimal? digits).map Double.ofInt).getD nan
    | none => if t.all isDecimalChar then (float? t).getD nan else nan

/-- A number in positional notation with the fewest digits that read back as the same number. -/
def shortestText : Double → Text
  | .nan => text "NaN"
  | .infinite negative => if negative then text "-inf" else text "inf"
  | .finite negative m q =>
    (if negative then ['-'] else []) ++
      if m = 0 then ['0'] else Decimal.positional (Decimal.shortest m q)

/-- The text that a number is shown as: a whole number below 10²¹ has all its digits, any other
    number the fewest that read back; the sign of a zero is not shown. -/
def toText (x : Float) : Text :=
  match Double.decode x with
  | .nan => text "NaN"
  | .infinite negative => if negative then text "-Infinity" else text "Infinity"
  | .finite negative m q =>
    if m = 0 then ['0']
    else if Double.isWhole x && Double.wholePart m q < 10 ^ 21 then
      (if negative then ['-'] else []) ++ Text.ofNat (Double.wholePart m q)
    else shortestText (Double.decode x)

/-! ## The number that a text begins with -/

/-- The whole number that a text begins with, after white space and a sign, in the given base; a
    missing base, zero or NaN is ten, or sixteen after `0x`. Each digit is one rounded step. -/
def leadingInteger (t : Text) (base? : Option Float) : Float :=
  let (negative, t) := splitSign (Text.trimStart t)
  let explicit := base?.bind fun b =>
    let b := Double.trunc b
    if b.isNaN || b == 0 then none else some b
  let base? : Option Nat := match explicit with
    | none => some 10
    | some b => if 2 ≤ b && b ≤ 36 then some (Double.toIndex 36 b) else none
  match base? with
  | none => nan
  | some base =>
    let (base, t) :=
      match if explicit.isNone || base = 16 then dropHexMark? t else none with
      | some rest => (16, rest)
      | none => (base, t)
    let digits := (t.map (digitIn? base)).takeWhile Option.isSome
    if digits.isEmpty then nan
    else
      let sign : Float := if negative then -1 else 1
      sign * digits.foldl (fun n d => n * Double.ofNat base + Double.ofNat (d.getD 0)) 0

/-- The exponent that a text begins with, if it is complete. -/
def exponentStart (t : Text) : Text :=
  match t with
  | e :: r =>
    if e = 'e' || e = 'E' then
      let sign := match r with
        | '-' :: _ => ['-']
        | '+' :: _ => ['+']
        | _ => []
      let digits := (splitDigits (r.drop sign.length)).1
      if digits.isEmpty then [] else e :: sign ++ digits
    else []
  | [] => []

/-- The longest decimal numeral, sign included, that a text begins with. -/
def decimalStart (t : Text) : Text :=
  let sign := match t with
    | '-' :: _ => ['-']
    | '+' :: _ => ['+']
    | _ => []
  let (whole, rest) := splitDigits (t.drop sign.length)
  let (fraction, rest) :=
    match rest with
    | '.' :: r => ('.' :: (splitDigits r).1, (splitDigits r).2)
    | _ => ([], rest)
  if whole.isEmpty && fraction.length ≤ 1 then [] else sign ++ whole ++ fraction ++ exponentStart rest

/-- The number that a text begins with, after white space: a decimal or a signed `Infinity`. -/
def leadingDecimal (t : Text) : Float :=
  let t := Text.trimStart t
  if Text.startsWith (text "Infinity") t || Text.startsWith (text "+Infinity") t then infinity
  else if Text.startsWith (text "-Infinity") t then -infinity
  else
    let numeral := decimalStart t
    if numeral.isEmpty then nan else ofText numeral

end Pseudocode.Numeral
