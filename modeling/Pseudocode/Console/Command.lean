import Pseudocode.Limits
import Pseudocode.Number.Numeral

/-! # Commands

The command line names a command, its file and its options. Options may stand before and after the
file, each at most once, and after `--` nothing is an option any more.
-/

namespace Pseudocode.Console

/-- What the command line asks for. A program without a file is read from standard input. -/
inductive Command where
  | check (file : Option Text)
  | translate (file : Option Text) (mapping : Bool)
  | run (file : Text) (limits : Limits)
  | serve (policy : TimeoutPolicy)
  deriving DecidableEq, Repr

namespace Command

/-- An option and the value that it needs. -/
inductive Flag where
  | mapping
  | timeout (milliseconds : Nat)
  | cumulative
  deriving DecidableEq, Repr

namespace Flag

/-- Whether two flags are the same option. -/
def same : Flag → Flag → Bool
  | mapping, mapping | timeout _, timeout _ | cumulative, cumulative => true
  | _, _ => false

/-- A time in milliseconds that fits 64 bits. -/
def milliseconds? (t : Text) : Option Nat :=
  let digits := (Text.dropStart? ['+'] t).getD t
  let n := Numeral.digitsValue digits
  if !digits.isEmpty && digits.all Char.isDigit && n < 2 ^ 64 then some n else none

/-- The flag that is one word. -/
def ofWord? (word : Text) : Option Flag :=
  if word = text "--mapping" then some mapping
  else if word = text "--cumulative-timeout" then some cumulative
  else
    let value := Text.dropStart? (text "--timeout=") word <|> Text.dropStart? (text "-t=") word <|>
      Text.dropStart? (text "-t") word
    (value.bind milliseconds?).map timeout

/-- Whether the next word is the value of a flag. -/
def needsValue (word : Text) : Bool := word = text "--timeout" || word = text "-t"

/-- Whether a word is no value and no file. -/
def isOption (word : Text) : Bool := Text.startsWith ['-'] word && word != ['-']

end Flag

/-- The files and the flags of a command line, or nothing if one of its words means nothing. -/
def words? : List Text → Option (List Text × List Flag)
  | [] => some ([], [])
  | word :: rest =>
    if word = text "--" then some (rest, [])
    else if Flag.needsValue word then
      match rest with
      | value :: rest =>
        if Flag.isOption value then none
        else do
          let milliseconds ← Flag.milliseconds? value
          let (files, flags) ← words? rest
          return (files, .timeout milliseconds :: flags)
      | [] => none
    else if Flag.isOption word then do
      let flag ← Flag.ofWord? word
      let (files, flags) ← words? rest
      return (files, flag :: flags)
    else do
      let (files, flags) ← words? rest
      return (word :: files, flags)

/-- The only file, if there is one. More files mean nothing, nor does a file without a name. -/
def file? : List Text → Option (Option Text)
  | [] => some none
  | [file] => if file.isEmpty then none else some (some file)
  | _ => none

/-- Whether all flags are among the allowed ones, and none is repeated. -/
def fits (allowed : List Flag) (flags : List Flag) : Bool :=
  flags.all (fun f => allowed.any f.same) &&
    allowed.all fun f => (flags.filter f.same).length ≤ 1

/-- The budget that the flags ask for. -/
def budget? (flags : List Flag) : Option Nat :=
  flags.findSome? fun
    | .timeout milliseconds => some milliseconds
    | _ => none

/-- The policy that the flags ask for. -/
def policy (flags : List Flag) : TimeoutPolicy :=
  if flags.any Flag.cumulative.same then .cumulative else .resetAfterInput

/-- The command of a command line. -/
def parse? : List Text → Option Command
  | [] => none
  | name :: rest => do
    let (files, flags) ← words? rest
    let file ← file? files
    if name = text "check" then if fits [] flags then some (.check file) else none
    else if name = text "translate" then
      if fits [.mapping] flags then some (.translate file (flags.any Flag.mapping.same)) else none
    else if name = text "run" then
      if fits [.timeout 0, .cumulative] flags then
        file.map fun file => .run file (Limits.forRequest (budget? flags) (policy flags))
      else none
    else if name = text "serve" then
      if fits [.cumulative] flags && file.isNone then some (.serve (policy flags)) else none
    else none

/-- How to call the program. -/
def usage : Text := Text.join ['\n'] [
  text "usage: check [FILE]",
  text "       translate [FILE] [--mapping]",
  text "       run FILE [-t|--timeout MS] [--cumulative-timeout]",
  text "       serve [--cumulative-timeout]",
  []]

end Command

end Pseudocode.Console
