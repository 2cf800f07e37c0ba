import Pseudocode.Number.Numeral
import Pseudocode.Script.Program

/-! # Values of the script

Arrays and functions are references into a heap, so that an array can be shared and can contain
itself; every other value stands for itself. The conversions between values need the heap:

* `Heap.display`       the text that a value is shown as
* `Heap.toNumber`      the number that a value converts to
* `Heap.looseEquals`   equality with conversions, and `Value.strictEquals` without any
* `Heap.binary`        the operators between two values
-/

namespace Pseudocode.Script

/-- The functions that every script can call. -/
inductive Native where
  | print
  | input
  | parseInt
  | parseFloat
  | number
  | string
  | boolean
  | array
  | isNaN
  deriving DecidableEq, Repr

/-- The name of a function. -/
def Native.name : Native → Text
  | print => text "print"
  | input => text "input"
  | parseInt => text "parseInt"
  | parseFloat => text "parseFloat"
  | number => text "Number"
  | string => text "String"
  | boolean => text "Boolean"
  | array => text "Array"
  | isNaN => text "isNaN"

/-- A value. Arrays and functions are given by their index in the heap. -/
inductive Value where
  | undefined
  | null
  | bool (value : Bool)
  | number (value : Float)
  | string (value : Text)
  | array (ref : Nat)
  | function (ref : Nat)
  | native (function : Native)
  /-- The object that holds the mathematical functions. -/
  | math
  deriving Inhabited

/-- The frames in which a name is looked up, innermost first, by their index. -/
abbrev Scope := List Nat

/-- A function of the script together with the scope it was declared in. -/
structure Closure where
  name : Text
  parameters : List Text
  body : List Command
  place : Position
  scope : Scope

/-- The arrays and functions that values refer to. -/
structure Heap where
  arrays : Array (Array Value)
  closures : Array Closure

namespace Value

/-- Undefined or null. -/
def isNullish : Value → Bool
  | undefined | null => true
  | _ => false

/-- A function of the script or one that every script has. -/
def isCallable : Value → Bool
  | function _ | native _ => true
  | _ => false

/-- Arrays, functions and the mathematical object. -/
def isObject : Value → Bool
  | array _ | function _ | native _ | math => true
  | _ => false

/-- Whether the value counts as true in a condition. -/
def isTruthy : Value → Bool
  | undefined | null => false
  | bool b => b
  | number x => !(x == 0) && !x.isNaN
  | string t => !t.isEmpty
  | array _ | function _ | native _ | math => true

/-- The name of the value's type. -/
def typeName : Value → Text
  | undefined => text "undefined"
  | null | array _ | math => text "object"
  | bool _ => text "boolean"
  | number _ => text "number"
  | string _ => text "string"
  | function _ | native _ => text "function"

/-- Equality without conversions: an array or a function equals itself only. -/
def strictEquals : Value → Value → Bool
  | undefined, undefined | null, null | math, math => true
  | bool a, bool b => a == b
  | number a, number b => a == b
  | string a, string b => a == b
  | array a, array b => a == b
  | function a, function b => a == b
  | native a, native b => a == b
  | _, _ => false

/-- The value of an answer to an input request: a number if it reads as a finite one, and otherwise
    the text of the answer. -/
def ofAnswer (answer : Text) : Value :=
  let t := Text.trim answer
  if !t.isEmpty && Double.isFinite (Numeral.ofText t) then number (Numeral.ofText t)
  else string answer

end Value

/-- The index that a property name stands for: a number without leading zeros that fits 64 bits. -/
def arrayIndex? (key : Text) : Option Nat :=
  let n := Numeral.digitsValue key
  if key.all Char.isDigit && Text.ofNat n = key && n < 2 ^ 64 then some n else none

/-- Comparison by the first character that differs; a beginning of a text comes before it. -/
def compareTexts : Text → Text → Ordering
  | [], [] => .eq
  | [], _ :: _ => .lt
  | _ :: _, [] => .gt
  | a :: as, b :: bs =>
    if a.toNat < b.toNat then .lt else if b.toNat < a.toNat then .gt else compareTexts as bs

/-- Comparison of numbers; NaN compares with nothing. -/
def compareNumbers? (x y : Float) : Option Ordering :=
  if x < y then some .lt else if y < x then some .gt else if x == y then some .eq else none

namespace Heap

/-- No arrays and no functions. -/
def empty : Heap := ⟨#[], #[]⟩

/-- The items of an array. -/
def items (h : Heap) (ref : Nat) : Array Value := h.arrays[ref]?.getD #[]

/-- Changes the items of an array. -/
def modify (h : Heap) (ref : Nat) (f : Array Value → Array Value) : Heap :=
  { h with arrays := h.arrays.modify ref f }

/-- A new array. -/
def allocate (h : Heap) (items : Array Value) : Value × Heap :=
  (.array h.arrays.size, { h with arrays := h.arrays.push items })

/-- A new function. -/
def addClosure (h : Heap) (c : Closure) : Value × Heap :=
  (.function h.closures.size, { h with closures := h.closures.push c })

/-! ## The text of a value -/

/-- The text of a function of the script. -/
def closureText (h : Heap) (ref : Nat) : Text :=
  match h.closures[ref]? with
  | some c =>
    text "function " ++ c.name ++ '(' :: Text.join (text ", ") c.parameters ++
      text ") \x7b ... \x7d"
  | none => []

/-- The text of a value that is no array. -/
def plainText (h : Heap) : Value → Text
  | .undefined => text "undefined"
  | .null => text "null"
  | .bool b => if b then text "true" else text "false"
  | .number x => Numeral.toText x
  | .string t => t
  | .array _ => []
  | .function ref => h.closureText ref
  | .native f => text "function " ++ f.name ++ text "() \x7b [native code] \x7d"
  | .math => text "[object Math]"

/-- How deep arrays may nest in a text; deeper ones are left out. -/
def maxRenderDepth : Nat := 10000

/-- Adds the texts of an array's items to those of the items before them, and passes on which arrays
    are open. Nullish items are empty; `render` makes the texts of arrays. -/
def renderItems (h : Heap) (render : (ref : Nat) → (opened : List Nat) → Option (Text × List Nat)) :
    (items : List Value) → (before : List Text) → (opened : List Nat) →
      Option (List Text × List Nat)
  | [], before, opened => some (before.reverse, opened)
  | item :: items, before, opened => do
    let (itemText, opened) ← match item with
      | .undefined | .null => some ([], opened)
      | .array ref => render ref opened
      | other => some (h.plainText other, opened)
    renderItems h render items (itemText :: before) opened

/-- The texts of an array's items with a separator between them, and the arrays that are open
    afterwards. An array is open while its items are rendered. One that is open already is empty, and
    so is one inside too many open ones. Gives up when `fuel` arrays inside each other are not enough,
    which never happens if there is fuel for all that may be open. -/
def render (h : Heap) : (fuel : Nat) → (separator : Text) → (ref : Nat) → (opened : List Nat) →
    Option (Text × List Nat)
  | 0, _, _, _ => none
  | fuel + 1, separator, ref, opened =>
    if maxRenderDepth ≤ opened.length || ref ∈ opened then some ([], opened)
    else do
      let (texts, opened) ←
        h.renderItems (h.render fuel [',']) (h.items ref).toList [] (ref :: opened)
      some (Text.join separator texts, opened.erase ref)

/-- The text of an array while others are open. -/
def renderWithin (h : Heap) (opened : List Nat) (separator : Text) (ref : Nat) : Text :=
  ((h.render (maxRenderDepth + 1) separator ref opened).map Prod.fst).getD []

/-- The texts of an array's items with a separator between them. -/
def join (h : Heap) (separator : Text) (ref : Nat) : Text := h.renderWithin [] separator ref

/-- The text that a value is shown as. -/
def display (h : Heap) : Value → Text
  | .array ref => h.join [','] ref
  | other => h.plainText other

/-- Whether the text of an array inside `opened` is made from the items of `target`. -/
def readsWithin (h : Heap) (target : Nat) : (depth : Nat) → (opened : List Nat) → (ref : Nat) → Bool
  | 0, _, _ => false
  | depth + 1, opened, ref =>
    if ref ∈ opened then false
    else ref == target || (h.items ref).any fun item =>
      match item with
      | .array inner => readsWithin h target depth (ref :: opened) inner
      | _ => false

/-- Whether the text of a value is made from the items of `target`. -/
def displayReads (h : Heap) (target : Nat) : Value → Bool
  | .array ref => h.readsWithin target maxRenderDepth [] ref
  | _ => false

/-! ## Conversions -/

/-- The number that a value converts to. An array converts if it is empty, or by the text of its
    only item. -/
def toNumber (h : Heap) : Value → Float
  | .undefined => Numeral.nan
  | .null => 0
  | .bool b => if b then 1 else 0
  | .number x => x
  | .string t => Numeral.ofText t
  | .array ref =>
    match (h.items ref).toList with
    | [] => 0
    | [item] => Numeral.ofText (h.display item)
    | _ => Numeral.nan
  | .function _ | .native _ | .math => Numeral.nan

/-- Whether converting a value to a number reads the items of `target`. -/
def toNumberReads (h : Heap) (target : Nat) : Value → Bool
  | .array ref =>
    ref == target ||
      match (h.items ref).toList with
      | [item] => h.displayReads target item
      | _ => false
  | _ => false

/-- Objects are computed with by their text. -/
def toPrimitive (h : Heap) (v : Value) : Value :=
  if v.isObject then .string (h.display v) else v

/-! ## Operators -/

/-- Equality of values that are neither nullish nor objects. -/
def primitiveEquals (h : Heap) : Value → Value → Bool
  | .string a, .string b => a == b
  | .bool a, .bool b => a == b
  | a, b => h.toNumber a == h.toNumber b

/-- Equality with conversions: nullish values equal each other, two objects are compared as such,
    and an object equals a value that its text equals. -/
def looseEquals (h : Heap) (a b : Value) : Bool :=
  if a.isNullish || b.isNullish then a.isNullish && b.isNullish
  else if a.isObject && b.isObject then a.strictEquals b
  else h.primitiveEquals (h.toPrimitive a) (h.toPrimitive b)

/-- Comparison of texts if both are texts, and of numbers otherwise. -/
def compare? (h : Heap) (a b : Value) : Option Ordering :=
  match h.toPrimitive a, h.toPrimitive b with
  | .string s, .string t => some (compareTexts s t)
  | a, b => compareNumbers? (h.toNumber a) (h.toNumber b)

/-- The sum: texts are put together if one of the values is a text. -/
def add (h : Heap) (a b : Value) : Value :=
  match h.toPrimitive a, h.toPrimitive b with
  | .string s, b => .string (s ++ h.display b)
  | a, .string t => .string (h.display a ++ t)
  | a, b => .number (h.toNumber a + h.toNumber b)

/-- A binary operator on two values. -/
def binary (h : Heap) (operator : BinaryOperator) (a b : Value) : Value :=
  match operator with
  | .add => h.add a b
  | .subtract => .number (h.toNumber a - h.toNumber b)
  | .multiply => .number (h.toNumber a * h.toNumber b)
  | .divide => .number (h.toNumber a / h.toNumber b)
  | .remainder => .number (Double.remainder (h.toNumber a) (h.toNumber b))
  | .less => .bool (h.compare? a b == some .lt)
  | .lessEqual => .bool (h.compare? a b == some .lt || h.compare? a b == some .eq)
  | .greater => .bool (h.compare? a b == some .gt)
  | .greaterEqual => .bool (h.compare? a b == some .gt || h.compare? a b == some .eq)
  | .equal => .bool (h.looseEquals a b)
  | .notEqual => .bool (!h.looseEquals a b)
  | .strictEqual => .bool (a.strictEquals b)
  | .strictNotEqual => .bool (!a.strictEquals b)
  | .and => if a.isTruthy then b else a
  | .or => if a.isTruthy then a else b

end Heap

end Pseudocode.Script
