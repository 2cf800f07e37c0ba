import Pseudocode.Script.Machine

/-! # Evaluation

What expressions and statements do on the machine. The watchdog is asked before every statement that
does something, before every round of a loop and before every call, so a run cannot go on without
spending its budget.

Evaluation takes `fuel`, a bound on how deep steps nest; a loop nests its next round. It changes
nothing but to stop a run that would need more, and `Machine.fuel` is enough for every run that the
watchdog watches.
-/

namespace Pseudocode.Script

/-- How a statement ends. -/
inductive Flow where
  | normal
  | returned (value : Value)
  | broken
  | continued

/-- The name of the function that a program is wrapped in. -/
def entryPoint : Text := text "__program__"

/-- How the script itself is called in a trace. -/
def topLevel : Text := text "<anonymous>"

namespace Eval

/-- Binds the parameters of a call; a missing argument is undefined. -/
def bindParameters (scope : Scope) : (parameters : List Text) → List Value → Eval Unit
  | [], _ => pure ()
  | p :: ps, [] => do define scope p .undefined; bindParameters scope ps []
  | p :: ps, v :: vs => do define scope p v; bindParameters scope ps vs

/-- Binds the functions of a block before its first statement. -/
def hoist (scope : Scope) : List Command → Eval Unit
  | [] => pure ()
  | .function place name _ parameters _ body :: rest => do
    define scope name (← newClosure ⟨name, parameters, body, place, scope⟩)
    hoist scope rest
  | _ :: rest => hoist scope rest

/-- Binds a declared name. -/
def bindDeclared (scope : Scope) (kind : BindingKind) (name : Text) (value : Value)
    (place : Position) : Eval Unit :=
  match kind with
  | .let => declare scope name ⟨value, true⟩ place
  | .const => declare scope name ⟨value, false⟩ place
  | .var => define scope name value

/-- The value of a unary operator. -/
def unary (operator : UnaryOperator) (value : Value) : Eval Value :=
  match operator with
  | .not => pure (.bool !value.isTruthy)
  | .negate => fromHeap fun h => .number (-h.toNumber value)
  | .plus => fromHeap fun h => .number (h.toNumber value)
  | .typeOf => pure (.string value.typeName)
  | .await => pure value

/-- Calls a method; `description` stands for the method in messages. -/
def callMethod (object : Value) (method : Text) (arguments : List Value) (description : Text)
    (place : Position) : Eval Value :=
  match object with
  | .undefined => fail place (.readOfNullish false method)
  | .null => fail place (.readOfNullish true method)
  | object =>
    match Heap.method? object method with
    | some call => onHeap place fun h => call h arguments
    | none => fail place (.notFunction description)

/-- Calls a function that every script has. -/
def callNative (function : Native) (arguments : List Value) (place : Position) : Eval Value :=
  match function with
  | .print => do
    print (← fromHeap fun h => Text.join [' '] (arguments.map h.display))
    return .undefined
  | .input => do
    let prompt ← fromHeap fun h => (arguments.head?.map h.display).getD []
    return Value.ofAnswer (← input prompt)
  | function => onHeap place fun h => h.callNative function arguments

end Eval

open Eval

mutual

/-- The value of an expression. -/
def evaluate : (fuel : Nat) → Scope → Expression → Eval Value
  | 0, _, _ => throw .outOfFuel
  | fuel + 1, scope, e =>
    match e with
    | .number _ x => return .number x
    | .string _ t => return .string t
    | .bool _ b => return .bool b
    | .null _ => return .null
    | .undefined _ => return .undefined
    | .array place items => do
      let values ← evaluateAll fuel scope items
      onHeap place fun h => h.newArray values.toArray
    | .identifier place name => find scope name place
    | .unary _ .typeOf (.identifier _ name) =>
      return .string (((← find? scope name).getD .undefined).typeName)
    | .unary _ operator operand => do unary operator (← evaluate fuel scope operand)
    | .binary _ .and left right => do
      let value ← evaluate fuel scope left
      if value.isTruthy then evaluate fuel scope right else return value
    | .binary _ .or left right => do
      let value ← evaluate fuel scope left
      if value.isTruthy then return value else evaluate fuel scope right
    | .binary _ operator left right => do
      let a ← evaluate fuel scope left
      let b ← evaluate fuel scope right
      fromHeap fun h => h.binary operator a b
    | .conditional _ test yes no => do
      if (← evaluate fuel scope test).isTruthy then evaluate fuel scope yes
      else evaluate fuel scope no
    | .assign _ operator target value => do
      let value ← match operator.binary? with
        | none => evaluate fuel scope value
        | some operator => do
          let current ← evaluate fuel scope target
          let operand ← evaluate fuel scope value
          fromHeap fun h => h.binary operator current operand
      store fuel scope target value
      return value
    | .call place callee operands => do
      tick place
      match callee with
      | .member _ object method =>
        let object ← evaluate fuel scope object
        let values ← evaluateAll fuel scope operands
        callMethod object method values callee.describe place
      | callee =>
        let function ← evaluate fuel scope callee
        let values ← evaluateAll fuel scope operands
        match function with
        | .function ref => callClosure fuel ref values place
        | .native function => callNative function values place
        | _ => fail place (.notFunction callee.describe)
    | .index place object key => do
      let object ← evaluate fuel scope object
      let key ← evaluate fuel scope key
      readHeap place fun h => h.getIndex object key
    | .member place object name => do
      let object ← evaluate fuel scope object
      readHeap place fun h => h.getMember object name
    | .construct place name operands => do
      tick place
      let constructor ← find scope name place
      let values ← evaluateAll fuel scope operands
      match constructor with
      | .native .array => onHeap place fun h => h.constructArray values
      | _ => fail place (.notConstructor name)

/-- The values of expressions, from the left. -/
def evaluateAll : (fuel : Nat) → Scope → List Expression → Eval (List Value)
  | 0, _, _ => throw .outOfFuel
  | _ + 1, _, [] => return []
  | fuel + 1, scope, e :: es => do
    let v ← evaluate fuel scope e
    return v :: (← evaluateAll fuel scope es)

/-- Puts a value where an expression says. -/
def store : (fuel : Nat) → Scope → (target : Expression) → Value → Eval Unit
  | 0, _, _, _ => throw .outOfFuel
  | fuel + 1, scope, target, value =>
    match target with
    | .identifier place name => assign scope name value place
    | .index place object key => do
      let object ← evaluate fuel scope object
      let key ← evaluate fuel scope key
      let name ← fromHeap fun h => h.display key
      onHeap place fun h => h.setProperty object name value
    | .member place object name => do
      let object ← evaluate fuel scope object
      onHeap place fun h => h.setProperty object name value
    | target => fail target.position .noTarget

/-- Calls a function of the script. -/
def callClosure : (fuel : Nat) → (ref : Nat) → List Value → (place : Position) → Eval Value
  | 0, _, _, _ => throw .outOfFuel
  | fuel + 1, ref, arguments, place => do
    checkCalls place
    match ← fromHeap fun h => h.closures[ref]? with
    | none => return .undefined
    | some closure =>
      let scope ← openScope closure.scope
      bindParameters scope closure.parameters arguments
      match ← within ⟨closure.name, place⟩ (runBlock fuel scope closure.body) with
      | .returned value => return value
      | _ => return .undefined

/-- Declares names one after the other. -/
def runDeclarators : (fuel : Nat) → Scope → BindingKind →
    List (Declarator Expression Position) → Eval Unit
  | 0, _, _, _ => throw .outOfFuel
  | _ + 1, _, _, [] => return ()
  | fuel + 1, scope, kind, d :: ds => do
    tick d.place
    let value ← match d.value with
      | some e => evaluate fuel scope e
      | none => pure .undefined
    bindDeclared scope kind d.name value d.place
    runDeclarators fuel scope kind ds

/-- Runs the statements of a block in a scope of its own. -/
def runBlock : (fuel : Nat) → Scope → List Command → Eval Flow
  | 0, _, _ => throw .outOfFuel
  | fuel + 1, scope, commands => do
    hoist scope commands
    runAll fuel scope commands

/-- Runs statements up to the first one that does not end normally. -/
def runAll : (fuel : Nat) → Scope → List Command → Eval Flow
  | 0, _, _ => throw .outOfFuel
  | _ + 1, _, [] => return .normal
  | fuel + 1, scope, c :: cs => do
    match ← run fuel scope c with
    | .normal => runAll fuel scope cs
    | flow => return flow

/-- The rounds of a loop. -/
def runLoop : (fuel : Nat) → Scope → (place : Position) → (test update : Option Expression) →
    (body : Command) → Eval Flow
  | 0, _, _, _, _, _ => throw .outOfFuel
  | fuel + 1, scope, place, test, update, body => do
    tick place
    let goesOn ← match test with
      | some test => Value.isTruthy <$> evaluate fuel scope test
      | none => pure true
    if goesOn then
      match ← run fuel scope body with
      | .broken => return .normal
      | .returned value => return .returned value
      | _ =>
        match update with
        | some update => let _ ← evaluate fuel scope update
        | none => pure ()
        runLoop fuel scope place test update body
    else return .normal

/-- Runs a statement. -/
def run : (fuel : Nat) → Scope → Command → Eval Flow
  | 0, _, _ => throw .outOfFuel
  | fuel + 1, scope, c =>
    match c with
    | .expression e => do
      tick e.position
      let _ ← evaluate fuel scope e
      return .normal
    | .declaration kind declarators => do
      runDeclarators fuel scope kind declarators
      return .normal
    | .function _ _ _ _ _ _ | .empty => return .normal
    | .returning place value => do
      tick place
      match value with
      | some e => return .returned (← evaluate fuel scope e)
      | none => return .returned .undefined
    | .branch test yes no => do
      tick test.position
      if (← evaluate fuel scope test).isTruthy then run fuel scope yes
      else match no with
        | some no => run fuel scope no
        | none => return .normal
    | .whileLoop test body => runLoop fuel scope test.position (some test) none body
    | .forLoop place start test update body => do
      let scope ← openScope scope
      match start with
      | some (.declaration kind declarators) => runDeclarators fuel scope kind declarators
      | some (.expression e) => let _ ← evaluate fuel scope e
      | none => pure ()
      runLoop fuel scope place test update body
    | .block body => do
      let scope ← openScope scope
      runBlock fuel scope body
    | .breaking place => do
      tick place
      return .broken
    | .continuing place => do
      tick place
      return .continued

end

/-! ## Programs -/

/-- The position of a call that nothing in the script has made. -/
def nowhere : Position := ⟨0, 0⟩

/-- Runs the statements of a program, and then the function that it is wrapped in, if there is one.
    The functions of the host are its arguments. -/
def runProgram (fuel : Nat) (program : Program) : Eval Unit := do
  let _ ← within ⟨topLevel, nowhere⟩ (runBlock fuel Machine.globalScope program)
  match ← find? Machine.globalScope entryPoint with
  | some (.function ref) =>
    match ← fromHeap fun h => h.closures[ref]? with
    | some closure =>
      let _ ← callClosure fuel ref [.native .print, .native .input] closure.place
    | none => pure ()
  | _ => pure ()

/-- How a run ended. -/
inductive Ending where
  | done
  | unwound (why : Unwind)

/-- What a run showed to the host, and how it ended. -/
structure Result where
  log : List Interaction
  ending : Ending

/-- Fuel for a run on a machine. The watchdog counts at most its budget between two answers, and
    steps that it does not count nest no deeper than the program. -/
def Machine.fuel (m : Machine) (program : Program) : Nat :=
  (m.answers.length + 2) * (m.watchdog.budget + 2) * (Command.sizeAll program + 8)

/-- Runs a program on a machine. -/
def Program.run (program : Program) (m : Machine) : Result :=
  match runProgram (m.fuel program) program m with
  | .ok () m => ⟨m.log.reverse, .done⟩
  | .error why m => ⟨m.log.reverse, .unwound why⟩

end Pseudocode.Script
