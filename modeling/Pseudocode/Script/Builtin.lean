import Pseudocode.Script.Value
import Pseudocode.Text.Case

/-! # Built-in functions and methods

What a script can call without declaring it. The methods of a value are found by their name first;
a method that exists may still refuse its arguments.

An array cannot be read by a conversion while an operation on it is under way: such an operation
does not end with an error of the script but with a `conflict`.
-/

namespace Pseudocode.Script

/-- The kinds of errors that a script can run into. -/
inductive ErrorName where
  | error
  | reference
  | type
  | range
  | syntaxError
  deriving DecidableEq, Repr

/-- The name that an error is reported under. -/
def ErrorName.toText : ErrorName → Text
  | error => text "Error"
  | reference => text "ReferenceError"
  | type => text "TypeError"
  | range => text "RangeError"
  | syntaxError => text "SyntaxError"

/-- What can go wrong while a script runs. -/
inductive ErrorCause where
  | undefinedName (name : Text)
  | redeclared (name : Text)
  | constantAssignment
  | noTarget
  /-- A property of undefined or, if `isNull` is set, of null is read. -/
  | readOfNullish (isNull : Bool) (key : Text)
  /-- A property of undefined or, if `isNull` is set, of null is written. -/
  | writeOfNullish (isNull : Bool) (key : Text)
  | notFunction (description : Text)
  | notConstructor (name : Text)
  | unavailable (function : Native)
  | arrayLength
  | fixedDigits
  | callDepth
  deriving DecidableEq, Repr

namespace ErrorCause

/-- The kind of error that a cause is. -/
def name : ErrorCause → ErrorName
  | undefinedName _ => .reference
  | redeclared _ | noTarget => .syntaxError
  | constantAssignment | readOfNullish _ _ | writeOfNullish _ _ | notFunction _ | notConstructor _
  | unavailable _ => .type
  | arrayLength | fixedDigits | callDepth => .range

/-- The word for undefined or null. -/
def nullishWord (isNull : Bool) : Text := if isNull then text "null" else text "undefined"

/-- The wording of a cause. -/
def message : ErrorCause → Text
  | undefinedName name => name ++ text " is not defined"
  | redeclared name => text "Identifier '" ++ name ++ text "' has already been declared"
  | constantAssignment => text "Assignment to constant variable."
  | noTarget => text "Invalid left-hand side in assignment"
  | readOfNullish isNull key =>
    text "Cannot read properties of " ++ nullishWord isNull ++ text " (reading '" ++ key ++ text "')"
  | writeOfNullish isNull key =>
    text "Cannot set properties of " ++ nullishWord isNull ++ text " (setting '" ++ key ++ text "')"
  | notFunction description => description ++ text " is not a function"
  | notConstructor name => name ++ text " is not a constructor"
  | unavailable function => function.name ++ text " is not available here"
  | arrayLength => text "Invalid array length"
  | fixedDigits => text "toFixed() digits argument must be between 0 and 100"
  | callDepth => text "Maximum call stack size exceeded"

end ErrorCause

/-- Why an operation on values did not end with a value. -/
inductive Refusal where
  | error (cause : ErrorCause)
  /-- A conversion read the array that was being changed. -/
  | conflict
  deriving DecidableEq, Repr

/-- What an operation on values ends with, and the heap after it. -/
abbrev Outcome (α : Type) := EStateM.Result Refusal Heap α

/-- The argument with a number, undefined if there is none. -/
def argument (arguments : List Value) (i : Nat) : Value := arguments[i]?.getD .undefined

/-- The greatest length of an array. -/
def maxArrayLength : Nat := 1000000

/-! ## Mathematics -/

/-- The mathematical functions. -/
inductive MathFunction where
  | floor
  | ceil
  | round
  | trunc
  | abs
  | sqrt
  | sign
  | pow
  | min
  | max
  deriving DecidableEq, Repr

namespace MathFunction

/-- The function of a name. -/
def ofName? (name : Text) : Option MathFunction :=
  [(text "floor", floor), (text "ceil", ceil), (text "round", round), (text "trunc", trunc),
    (text "abs", abs), (text "sqrt", sqrt), (text "sign", sign), (text "pow", pow),
    (text "min", min), (text "max", max)].lookup name

/-- The lesser number, the first one of equals; NaN if one of them is. -/
def lesser (x y : Float) : Float :=
  if x.isNaN || y.isNaN then Numeral.nan else if y < x then y else x

/-- The greater number, the first one of equals; NaN if one of them is. -/
def greater (x y : Float) : Float :=
  if x.isNaN || y.isNaN then Numeral.nan else if x < y then y else x

/-- The sign of a number as a number; zeros and NaN are their own signs. -/
def signOf (x : Float) : Float :=
  if x.isNaN || x == 0 then x else if x < 0 then -1 else 1

/-- The function on the numbers of its arguments. A missing argument is NaN. -/
def apply (f : MathFunction) (numbers : List Float) : Float :=
  let x := numbers[0]?.getD Numeral.nan
  match f with
  | floor => Double.floor x
  | ceil => Double.ceil x
  | round => Double.floor (x + 0.5)
  | trunc => Double.trunc x
  | abs => x.abs
  | sqrt => x.sqrt
  | sign => signOf x
  | pow => x.pow (numbers[1]?.getD Numeral.nan)
  | min => numbers.foldl lesser Numeral.infinity
  | max => numbers.foldl greater (-Numeral.infinity)

end MathFunction

/-- The mathematical constants. -/
def mathConstant? (name : Text) : Option Float :=
  [(text "PI", 3.141592653589793), (text "E", 2.718281828459045),
    (text "SQRT2", 1.4142135623730951), (text "LN2", 0.6931471805599453),
    (text "LN10", 2.302585092994046)].lookup name

namespace Heap

/-! ## Arrays -/

/-- Ends with a new array of the given items. -/
def newArray (h : Heap) (items : Array Value) : Outcome Value :=
  let (v, h) := h.allocate items
  .ok v h

/-- A new array: of the given length if the only argument is a number, and of the arguments
    otherwise. -/
def constructArray (h : Heap) (arguments : List Value) : Outcome Value :=
  match arguments with
  | [.number n] =>
    if n < 0 || !Double.isWhole n || Double.ofNat maxArrayLength < n then
      .error (.error .arrayLength) h
    else h.newArray (Array.replicate (Double.toIndex maxArrayLength n) .undefined)
  | arguments => h.newArray arguments.toArray

/-- A position in a sequence of `length` items: a negative number counts from the end, and a missing
    or undefined one is the `default`. -/
def relativeIndex (h : Heap) (value : Value) (length default : Nat) : Nat :=
  match value with
  | .undefined => default
  | value =>
    let n := h.toNumber value
    let n := if n.isNaN then 0 else Double.trunc n
    if n < 0 then Double.toIndex length (Double.ofNat length + n) else Double.toIndex length n

/-- The methods of arrays. -/
inductive ArrayMethod where
  | push
  | pop
  | fill
  | join
  | indexOf
  | includes
  | slice
  | reverse
  | toString
  deriving DecidableEq, Repr

/-- The method of a name. -/
def ArrayMethod.ofName? (name : Text) : Option ArrayMethod :=
  [(text "push", push), (text "pop", pop), (text "fill", fill), (text "join", join),
    (text "indexOf", indexOf), (text "includes", includes), (text "slice", slice),
    (text "reverse", reverse), (text "toString", toString)].lookup name

/-- Not a number. -/
def isNaNValue : Value → Bool
  | .number x => x.isNaN
  | _ => false

/-- The number of an index, or minus one. -/
def indexValue (index : Option Nat) : Value :=
  .number (match index with
    | some i => Double.ofNat i
    | none => -1)

/-- Calls a method of an array. -/
def callArray (h : Heap) (ref : Nat) (method : ArrayMethod) (arguments : List Value) : Outcome Value :=
  let items := h.items ref
  match method with
  | .push =>
    if maxArrayLength < items.size + arguments.length then .error (.error .arrayLength) h
    else
      .ok (.number (Double.ofNat (items.size + arguments.length)))
        (h.modify ref (· ++ arguments.toArray))
  | .pop => .ok (items.back?.getD .undefined) (h.modify ref Array.pop)
  | .fill =>
    if h.toNumberReads ref (argument arguments 1) || h.toNumberReads ref (argument arguments 2) then
      .error .conflict h
    else
      let start := h.relativeIndex (argument arguments 1) items.size 0
      let stop := h.relativeIndex (argument arguments 2) items.size items.size
      let value := argument arguments 0
      .ok (.array ref) (h.modify ref fun items =>
        items.mapIdx fun i old => if start ≤ i ∧ i < stop then value else old)
  | .join =>
    let separator := match argument arguments 0 with
      | .undefined => [',']
      | value => h.display value
    .ok (.string (h.join separator ref)) h
  | .indexOf =>
    .ok (indexValue (items.findIdx? fun item => item.strictEquals (argument arguments 0))) h
  | .includes =>
    let needle := argument arguments 0
    let found := items.any fun item =>
      item.strictEquals needle || (isNaNValue needle && isNaNValue item)
    .ok (.bool found) h
  | .slice =>
    let start := h.relativeIndex (argument arguments 0) items.size 0
    let stop := h.relativeIndex (argument arguments 1) items.size items.size
    h.newArray (items.extract start stop)
  | .reverse => .ok (.array ref) (h.modify ref Array.reverse)
  | .toString => .ok (.string (h.display (.array ref))) h

/-! ## Strings -/

/-- The methods of strings. -/
inductive StringMethod where
  | toUpperCase
  | toLowerCase
  | trim
  | charAt
  | substring
  | indexOf
  | includes
  | split
  | toString
  deriving DecidableEq, Repr

/-- The method of a name. -/
def StringMethod.ofName? (name : Text) : Option StringMethod :=
  [(text "toUpperCase", toUpperCase), (text "toLowerCase", toLowerCase), (text "trim", trim),
    (text "charAt", charAt), (text "substring", substring), (text "indexOf", indexOf),
    (text "includes", includes), (text "split", split), (text "toString", toString)].lookup name

/-- An end of a part of a text: at least zero and at most its length. -/
def clampIndex (h : Heap) (value : Value) (length default : Nat) : Nat :=
  match value with
  | .undefined => default
  | value => Double.toIndex length (h.toNumber value)

/-- The parts of a text: the whole text if there is no separator, its characters if the separator is
    empty, and otherwise what stands between the separators. -/
def splitParts (h : Heap) (t : Text) (separator : Value) : List Text :=
  match separator with
  | .undefined => [t]
  | separator =>
    match h.display separator with
    | [] => t.map ([·])
    | separator => Text.splitOn separator t

/-- Calls a method of a string. -/
def callString (h : Heap) (t : Text) (method : StringMethod) (arguments : List Value) : Outcome Value :=
  match method with
  | .toUpperCase => .ok (.string (Text.toUpperCase t)) h
  | .toLowerCase => .ok (.string (Text.toLowerCase t)) h
  | .trim => .ok (.string (Text.trim t)) h
  | .charAt =>
    let index := h.toNumber (argument arguments 0)
    let index := if index.isNaN then 0 else Double.trunc index
    let found := if index < 0 then none else t[Double.toIndex t.length index]?
    .ok (.string found.toList) h
  | .substring =>
    let a := h.clampIndex (argument arguments 0) t.length 0
    let b := h.clampIndex (argument arguments 1) t.length t.length
    .ok (.string ((t.drop (min a b)).take (max a b - min a b))) h
  | .indexOf => .ok (indexValue (Text.indexOf? (h.display (argument arguments 0)) t)) h
  | .includes => .ok (.bool (Text.contains (h.display (argument arguments 0)) t)) h
  | .split =>
    h.newArray ((h.splitParts t (argument arguments 0)).map Value.string).toArray
  | .toString => .ok (.string t) h

/-! ## Numbers -/

/-- The methods of numbers. -/
inductive NumberMethod where
  | toFixed
  | toString
  deriving DecidableEq, Repr

/-- The method of a name. -/
def NumberMethod.ofName? (name : Text) : Option NumberMethod :=
  [(text "toFixed", toFixed), (text "toString", toString)].lookup name

/-- Calls a method of a number. -/
def callNumber (h : Heap) (x : Float) (method : NumberMethod) (arguments : List Value) : Outcome Value :=
  match method with
  | .toFixed =>
    let places := match argument arguments 0 with
      | .undefined => 0
      | value => Double.trunc (h.toNumber value)
    if 0 ≤ places && places ≤ 100 then
      match Double.decode x with
      | .finite negative significand exponent =>
        .ok (.string (Decimal.fixed (Double.toIndex 100 places) negative significand exponent)) h
      | _ => .ok (.string (Numeral.toText x)) h
    else .error (.error .fixedDigits) h
  | .toString => .ok (.string (Numeral.toText x)) h

/-! ## Methods of any value -/

/-- The method of a value under a name, as what it does to the heap with its arguments; none if the
    value has no such method. -/
def method? (object : Value) (name : Text) : Option (Heap → List Value → Outcome Value) :=
  match object with
  | .math => (MathFunction.ofName? name).map fun f h arguments =>
    .ok (.number (f.apply (arguments.map h.toNumber))) h
  | .array ref => (ArrayMethod.ofName? name).map fun m h arguments => h.callArray ref m arguments
  | .string t => (StringMethod.ofName? name).map fun m h arguments => h.callString t m arguments
  | .number x => (NumberMethod.ofName? name).map fun m h arguments => h.callNumber x m arguments
  | .bool _ | .function _ | .native _ =>
    if name = text "toString" then some fun h _ => .ok (.string (h.display object)) h else none
  | .undefined | .null => none

/-! ## Functions -/

/-- Calls a function that does not talk to the host. -/
def callNative (h : Heap) (function : Native) (arguments : List Value) : Outcome Value :=
  match function with
  | .parseInt =>
    .ok (.number (Numeral.leadingInteger (h.display (argument arguments 0))
      (arguments[1]?.map h.toNumber))) h
  | .parseFloat => .ok (.number (Numeral.leadingDecimal (h.display (argument arguments 0)))) h
  | .number => .ok (.number ((arguments.head?.map h.toNumber).getD 0)) h
  | .string => .ok (.string ((arguments.head?.map h.display).getD [])) h
  | .boolean => .ok (.bool (argument arguments 0).isTruthy) h
  | .array => h.constructArray arguments
  | .isNaN => .ok (.bool (h.toNumber (argument arguments 0)).isNaN) h
  | .print | .input => .error (.error (.unavailable function)) h

/-! ## Properties -/

/-- The value of a property. A missing property is undefined. -/
def getMember (h : Heap) (object : Value) (name : Text) : Except ErrorCause Value :=
  match object with
  | .undefined => .error (.readOfNullish false name)
  | .null => .error (.readOfNullish true name)
  | .array ref =>
    .ok (if name = text "length" then .number (Double.ofNat (h.items ref).size) else .undefined)
  | .string t => .ok (if name = text "length" then .number (Double.ofNat t.length) else .undefined)
  | .math => .ok (((mathConstant? name).map Value.number).getD .undefined)
  | .function ref =>
    match h.closures[ref]? with
    | some c =>
      .ok (if name = text "name" then .string c.name
        else if name = text "length" then .number (Double.ofNat c.parameters.length)
        else .undefined)
    | none => .ok .undefined
  | .native f => .ok (if name = text "name" then .string f.name else .undefined)
  | .bool _ | .number _ => .ok .undefined

/-- The value of a property whose name is computed: an item, a character or a member. -/
def getIndex (h : Heap) (object key : Value) : Except ErrorCause Value :=
  let key := h.display key
  match arrayIndex? key, object with
  | some i, .array ref => .ok ((h.items ref)[i]?.getD .undefined)
  | some i, .string t => .ok (((t[i]?).map fun c => .string [c]).getD .undefined)
  | _, _ => h.getMember object key

/-- The items with a new length: cut off, or filled up with undefined. -/
def resize (length : Nat) (items : Array Value) : Array Value :=
  if length ≤ items.size then items.take length
  else items ++ Array.replicate (length - items.size) .undefined

/-- The items with one of them set; the gap before a new one is undefined. -/
def setItem (i : Nat) (value : Value) (items : Array Value) : Array Value :=
  if i < items.size then items.setIfInBounds i value
  else (items ++ Array.replicate (i - items.size) Value.undefined).push value

/-- Sets a property. Only the items and the length of an array can be set; other values ignore it. -/
def setProperty (h : Heap) (object : Value) (key : Text) (value : Value) : Outcome Unit :=
  match object with
  | .undefined => .error (.error (.writeOfNullish false key)) h
  | .null => .error (.error (.writeOfNullish true key)) h
  | .array ref =>
    if key = text "length" then
      if h.toNumberReads ref value then .error .conflict h
      else
        let length := h.toNumber value
        if length < 0 || !Double.isWhole length || Double.ofNat maxArrayLength < length then
          .error (.error .arrayLength) h
        else .ok () (h.modify ref (resize (Double.toIndex maxArrayLength length)))
    else match arrayIndex? key with
      | none => .ok () h
      | some i =>
        if maxArrayLength ≤ i then .error (.error .arrayLength) h
        else .ok () (h.modify ref (setItem i value))
  | _ => .ok () h

end Heap

/-- The names that every script knows, apart from those of its parameters. -/
def globalBindings : List (Text × Value) := [
  (text "Math", .math),
  (text "parseInt", .native .parseInt),
  (text "parseFloat", .native .parseFloat),
  (text "Number", .native .number),
  (text "String", .native .string),
  (text "Boolean", .native .boolean),
  (text "Array", .native .array),
  (text "isNaN", .native .isNaN),
  (text "NaN", .number Numeral.nan),
  (text "Infinity", .number Numeral.infinity)]

end Pseudocode.Script
