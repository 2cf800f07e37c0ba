import Pseudocode.Json

/-! # Records

A record is written as the object of its fields. It is read from such an object, in any order and
with any other fields, or from the array of its values in the order of the fields. Fields that are
missing at the end of the array count as missing.
-/

namespace Pseudocode.Wire

/-- The fields of a record whose fields have the names `names`. None of them may be repeated. -/
def fields? (names : List Text) : Json → Option (List (Text × Json))
  | .object fields =>
    if names.all fun name => (fields.filter (·.1 = name)).length ≤ 1 then some fields else none
  | .array items => if items.length ≤ names.length then some (names.zip items) else none
  | _ => none

/-- A field that has to be there. -/
def required? {α : Type} (read : Json → Option α) (name : Text) (fields : List (Text × Json)) :
    Option α :=
  (fields.lookup name).bind read

/-- A field that may be missing or null. -/
def optional? {α : Type} (read : Json → Option α) (name : Text) (fields : List (Text × Json)) :
    Option (Option α) :=
  match fields.lookup name with
  | none | some .null => some none
  | some value => (read value).map some

/-- A field that has a value if it is missing. -/
def defaulted? {α : Type} (read : Json → Option α) (value : α) (name : Text)
    (fields : List (Text × Json)) : Option α :=
  match fields.lookup name with
  | none => some value
  | some json => read json

/-- A field that is written only if it has a value. -/
def optionalField {α : Type} (write : α → Json) (name : Text) (value : Option α) :
    List (Text × Json) :=
  (value.map fun v => (name, write v)).toList

/-- The one of `all` that is written as its name. The name may also be the only field of an object
    whose value is `isUnit`. -/
def word? {α : Type} (isUnit : Json → Bool) (all : List α) (name : α → Text) : Json → Option α
  | .string t => all.find? fun a => name a = t
  | .object [(t, value)] => if isUnit value then all.find? fun a => name a = t else none
  | _ => none

end Pseudocode.Wire
