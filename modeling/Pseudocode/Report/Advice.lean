import Pseudocode.Text.Class

/-! # Advice

Hints for messages that are known to puzzle people. Each hint looks for a phrase in the message.
-/

namespace Pseudocode.Advice

/-- The first word of a message that is followed by a phrase. -/
def wordBefore? (phrase : Text) : Text → Option Text
  | [] => none
  | c :: r =>
    if Text.isBlank c then wordBefore? phrase r
    else if Text.startsWith phrase (r.dropWhile fun c => !Text.isBlank c) then
      some (c :: r.takeWhile fun c => !Text.isBlank c)
    else wordBefore? phrase r

/-- The hint for a name that is not defined. -/
def undeclared (name : Text) : Text :=
  ['\''] ++ name ++
    text "' may need to be declared before it is used (for example \x60var " ++ name ++
    text " = 0\x60); also check its spelling."

/-- Phrases of messages, any of which asks for the hint. -/
def hints : List (List Text × Text) := [
  ([text "Cannot read propert", text "Cannot set propert"],
    text "A value here is undefined or null. Check that the variable or array element was given a value first."),
  ([text "is not a function"],
    text "Only functions can be called. Check the name and that it is declared with \x60function\x60."),
  ([text "Assignment to constant"],
    text "Constants cannot change after they are declared. Use \x60var\x60 for values that change."),
  ([text "has already been declared"],
    text "Each name can be declared once per block. Assign to the existing variable instead."),
  ([text "Maximum call stack size exceeded"],
    text "A function keeps calling itself. Make sure the recursion has a case that returns without calling again."),
  ([text "Invalid array length"],
    text "Array sizes must be whole numbers that are not negative."),
  ([text "timed out"],
    text "The program ran too long. Check for a loop whose condition never becomes false.")]

/-- The hints for a message. -/
def forMessage (message : Text) : List Text :=
  ((wordBefore? (text " is not defined") message).map undeclared).toList ++
    (hints.filter fun (phrases, _) => phrases.any fun p => Text.contains p message).map Prod.snd

end Pseudocode.Advice
