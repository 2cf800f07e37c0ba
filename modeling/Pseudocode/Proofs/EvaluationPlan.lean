import Pseudocode.Proofs.EvaluationRelation
import Pseudocode.Proofs.EvaluationProperty

/-!
# Plans of evaluation

What evaluation does, written down as data: a plan says which operation is performed, or which task
is begun, and how the plan goes on with what comes of it. A plan shows the states that a run is in on
its way, also when the run is unwound, and that is what properties of every state are about.

* `Operation`            the operations that evaluation is put together from
* `Task`                 what evaluation nests: expressions, statements, calls
* `Plan`                 operations and tasks one after the other
* `Task.perform_succ`    a task does what its plan says
* `Program.plan`         the plan of a run
-/

namespace Pseudocode.Script

/-! ## Operations and tasks -/

/-- An operation that evaluation is put together from. -/
inductive Operation : Type → Type 1 where
  | tick (place : Position) : Operation Unit
  | fail {α : Type} (place : Position) (cause : ErrorCause) : Operation α
  | onHeap {α : Type} (place : Position) {operation : Heap → Outcome α}
    (hoperation : Heap.IsOperation operation) : Operation α
  | fromHeap {α : Type} (look : Heap → α) : Operation α
  | readHeap {α : Type} (place : Position) (look : Heap → Except ErrorCause α) : Operation α
  | openScope (scope : Scope) : Operation Scope
  | find? (scope : Scope) (name : Text) : Operation (Option Value)
  | define (scope : Scope) (name : Text) (value : Value) : Operation Unit
  | declare (scope : Scope) (name : Text) (binding : Binding) (place : Position) : Operation Unit
  | assign (scope : Scope) (name : Text) (value : Value) (place : Position) : Operation Unit
  | newClosure (closure : Closure) : Operation Value
  | checkCalls (place : Position) : Operation Unit
  | print (shown : Text) : Operation Unit
  | input (prompt : Text) : Operation Text

/-- What an operation does on the machine. -/
def Operation.perform {α : Type} : Operation α → Eval α
  | .tick place => Eval.tick place
  | .fail place cause => Eval.fail place cause
  | @Operation.onHeap _ place operation _ => Eval.onHeap place operation
  | .fromHeap look => Eval.fromHeap look
  | .readHeap place look => Eval.readHeap place look
  | .openScope scope => Eval.openScope scope
  | .find? scope name => Eval.find? scope name
  | .define scope name value => Eval.define scope name value
  | .declare scope name binding place => Eval.declare scope name binding place
  | .assign scope name value place => Eval.assign scope name value place
  | .newClosure closure => Eval.newClosure closure
  | .checkCalls place => Eval.checkCalls place
  | .print shown => Eval.print shown
  | .input prompt => Eval.input prompt

/-- Something that evaluation does in several steps. -/
inductive Task : Type → Type where
  | evaluate (scope : Scope) (e : Expression) : Task Value
  | evaluateAll (scope : Scope) (es : List Expression) : Task (List Value)
  | store (scope : Scope) (target : Expression) (value : Value) : Task Unit
  | callClosure (ref : Nat) (values : List Value) (place : Position) : Task Value
  | runDeclarators (scope : Scope) (kind : BindingKind) (ds : List (Declarator Expression Position)) :
    Task Unit
  | runBlock (scope : Scope) (commands : List Command) : Task Flow
  | runAll (scope : Scope) (commands : List Command) : Task Flow
  | runLoop (scope : Scope) (place : Position) (test update : Option Expression) (body : Command) :
    Task Flow
  | run (scope : Scope) (c : Command) : Task Flow

/-- What a task does on the machine. -/
def Task.perform {α : Type} (fuel : Nat) : Task α → Eval α
  | .evaluate scope e => Script.evaluate fuel scope e
  | .evaluateAll scope es => Script.evaluateAll fuel scope es
  | .store scope target value => Script.store fuel scope target value
  | .callClosure ref values place => Script.callClosure fuel ref values place
  | .runDeclarators scope kind ds => Script.runDeclarators fuel scope kind ds
  | .runBlock scope commands => Script.runBlock fuel scope commands
  | .runAll scope commands => Script.runAll fuel scope commands
  | .runLoop scope place test update body => Script.runLoop fuel scope place test update body
  | .run scope c => Script.run fuel scope c

/-- Without fuel no task is begun. -/
theorem Task.perform_zero {α : Type} (t : Task α) : t.perform 0 = throw .outOfFuel := by
  cases t <;> rfl

/-! ## Plans -/

/-- Operations and tasks one after the other. A task may be done inside a call. -/
inductive Plan (α : Type) : Type 1 where
  | done (a : α)
  | step {β : Type} (o : Operation β) (next : β → Plan α)
  | task {β : Type} (entered : Option Call) (t : Task β) (next : β → Plan α)

/-- Does something in a call, if one is entered. -/
def Eval.inside {α : Type} : (entered : Option Call) → Eval α → Eval α
  | none, action => action
  | some call, action => within call action

namespace Plan

variable {α β : Type}

/-- A plan, and then what follows from its value. -/
protected def bind : Plan α → (α → Plan β) → Plan β
  | .done a, f => f a
  | .step o next, f => .step o fun b => (next b).bind f
  | .task entered t next, f => .task entered t fun b => (next b).bind f

instance : Monad Plan where
  pure := .done
  bind := .bind

instance : MonadLift Operation Plan := ⟨fun o => .step o .done⟩

instance : MonadLift Task Plan := ⟨fun t => .task none t .done⟩

/-- What a plan does on the machine. -/
def perform (fuel : Nat) : Plan α → Eval α
  | .done a => pure a
  | .step o next => o.perform >>= fun b => (next b).perform fuel
  | .task entered t next => Eval.inside entered (t.perform fuel) >>= fun b => (next b).perform fuel

variable (n : Nat)

@[simp] theorem perform_pure (a : α) : (pure a : Plan α).perform n = pure a := rfl

@[simp] theorem perform_bind (p : Plan α) (f : α → Plan β) :
    (p >>= f).perform n = p.perform n >>= fun a => (f a).perform n := by
  induction p with
  | done a => exact (pure_bind a fun a => (f a).perform n).symm
  | step o next ih =>
    exact (bind_congr ih).trans (bind_assoc _ _ _).symm
  | task entered t next ih =>
    exact (bind_congr ih).trans (bind_assoc _ _ _).symm

@[simp] theorem perform_operation (o : Operation α) :
    (liftM o : Plan α).perform n = o.perform :=
  bind_pure _

@[simp] theorem perform_task (t : Task α) : (liftM t : Plan α).perform n = t.perform n :=
  bind_pure _

@[simp] theorem perform_inside (call : Call) (t : Task α) :
    (Plan.task (some call) t .done).perform n = Eval.within call (t.perform n) :=
  bind_pure _

/-! ## The plan of a task -/

/-- The value of a name. -/
def find (scope : Scope) (name : Text) (place : Position) : Plan Value := do
  match ← Operation.find? scope name with
  | some v => return v
  | none => Operation.fail place (.undefinedName name)

/-- Binds the parameters of a call. -/
def bindParameters (scope : Scope) : (parameters : List Text) → List Value → Plan Unit
  | [], _ => pure ()
  | p :: ps, [] => do Operation.define scope p .undefined; bindParameters scope ps []
  | p :: ps, v :: vs => do Operation.define scope p v; bindParameters scope ps vs

/-- Binds the functions of a block. -/
def hoist (scope : Scope) : List Command → Plan Unit
  | [] => pure ()
  | .function place name _ parameters _ body :: rest => do
    let v ← Operation.newClosure ⟨name, parameters, body, place, scope⟩
    Operation.define scope name v
    hoist scope rest
  | _ :: rest => hoist scope rest

/-- Binds a declared name. -/
def bindDeclared (scope : Scope) (kind : BindingKind) (name : Text) (value : Value)
    (place : Position) : Plan Unit :=
  match kind with
  | .let => Operation.declare scope name ⟨value, true⟩ place
  | .const => Operation.declare scope name ⟨value, false⟩ place
  | .var => Operation.define scope name value

/-- The value of a unary operator. -/
def unary (operator : UnaryOperator) (value : Value) : Plan Value :=
  match operator with
  | .not => pure (.bool !value.isTruthy)
  | .negate => Operation.fromHeap fun h => .number (-h.toNumber value)
  | .plus => Operation.fromHeap fun h => .number (h.toNumber value)
  | .typeOf => pure (.string value.typeName)
  | .await => pure value

/-- Calls a method. -/
def callMethod (object : Value) (method : Text) (arguments : List Value) (description : Text)
    (place : Position) : Plan Value :=
  match object with
  | .undefined => Operation.fail place (.readOfNullish false method)
  | .null => Operation.fail place (.readOfNullish true method)
  | object =>
    match hmethod : Heap.method? object method with
    | some _ => Operation.onHeap place (.method hmethod arguments)
    | none => Operation.fail place (.notFunction description)

/-- Calls a function that every script has. -/
def callNative (function : Native) (arguments : List Value) (place : Position) : Plan Value :=
  match function with
  | .print => do
    let shown ← Operation.fromHeap fun h => Text.join [' '] (arguments.map h.display)
    Operation.print shown
    return .undefined
  | .input => do
    let prompt ← Operation.fromHeap fun h => (arguments.head?.map h.display).getD []
    let answer ← Operation.input prompt
    return Value.ofAnswer answer
  | function => Operation.onHeap place (.callNative function arguments)

/-- What becomes of a call, once the function and its arguments are known. -/
def callFound (function : Value) (values : List Value) (description : Text) (place : Position) :
    Plan Value :=
  match function with
  | .function ref => Task.callClosure ref values place
  | .native function => callNative function values place
  | _ => Operation.fail place (.notFunction description)

/-- The value of an expression. -/
def evaluate (scope : Scope) : Expression → Plan Value
  | .number _ x => return .number x
  | .string _ t => return .string t
  | .bool _ b => return .bool b
  | .null _ => return .null
  | .undefined _ => return .undefined
  | .array place items => do
    let values ← Task.evaluateAll scope items
    Operation.onHeap place (.newArray values.toArray)
  | .identifier place name => find scope name place
  | .unary _ .typeOf (.identifier _ name) => do
    let found ← Operation.find? scope name
    return .string (found.getD .undefined).typeName
  | .unary _ operator operand => do
    let value ← Task.evaluate scope operand
    unary operator value
  | .binary _ .and left right => do
    let value ← Task.evaluate scope left
    if value.isTruthy then Task.evaluate scope right else return value
  | .binary _ .or left right => do
    let value ← Task.evaluate scope left
    if value.isTruthy then return value else Task.evaluate scope right
  | .binary _ operator left right => do
    let a ← Task.evaluate scope left
    let b ← Task.evaluate scope right
    Operation.fromHeap fun h => h.binary operator a b
  | .conditional _ test yes no => do
    let value ← Task.evaluate scope test
    if value.isTruthy then Task.evaluate scope yes else Task.evaluate scope no
  | .assign _ operator target value =>
    match operator.binary? with
    | none => do
      let value ← Task.evaluate scope value
      Task.store scope target value
      return value
    | some operator => do
      let current ← Task.evaluate scope target
      let operand ← Task.evaluate scope value
      let value ← Operation.fromHeap fun h => h.binary operator current operand
      Task.store scope target value
      return value
  | .call place (.member dot object method) operands => do
    Operation.tick place
    let value ← Task.evaluate scope object
    let values ← Task.evaluateAll scope operands
    callMethod value method values (Expression.member dot object method).describe place
  | .call place callee operands => do
    Operation.tick place
    let function ← Task.evaluate scope callee
    let values ← Task.evaluateAll scope operands
    callFound function values callee.describe place
  | .index place object key => do
    let object ← Task.evaluate scope object
    let key ← Task.evaluate scope key
    Operation.readHeap place fun h => h.getIndex object key
  | .member place object name => do
    let object ← Task.evaluate scope object
    Operation.readHeap place fun h => h.getMember object name
  | .construct place name operands => do
    Operation.tick place
    let constructor ← find scope name place
    let values ← Task.evaluateAll scope operands
    match constructor with
    | .native .array => Operation.onHeap place (.constructArray values)
    | _ => Operation.fail place (.notConstructor name)

/-- Puts a value where an expression says. -/
def store (scope : Scope) (target : Expression) (value : Value) : Plan Unit :=
  match target with
  | .identifier place name => Operation.assign scope name value place
  | .index place object key => do
    let object ← Task.evaluate scope object
    let key ← Task.evaluate scope key
    let name ← Operation.fromHeap fun h => h.display key
    Operation.onHeap place (.setProperty object name value)
  | .member place object name => do
    let object ← Task.evaluate scope object
    Operation.onHeap place (.setProperty object name value)
  | target => Operation.fail target.position .noTarget

/-- Calls a function of the script. -/
def callClosure (ref : Nat) (values : List Value) (place : Position) : Plan Value := do
  Operation.checkCalls place
  match ← Operation.fromHeap fun h => h.closures[ref]? with
  | none => return .undefined
  | some closure =>
    let scope ← Operation.openScope closure.scope
    bindParameters scope closure.parameters values
    match ← Plan.task (some ⟨closure.name, place⟩) (.runBlock scope closure.body) .done with
    | .returned value => return value
    | _ => return .undefined

/-- What follows the body of a loop: the next round, unless the body has left the loop. -/
def nextRound (scope : Scope) (place : Position) (test update : Option Expression)
    (body : Command) : Flow → Plan Flow
  | .broken => return .normal
  | .returned value => return .returned value
  | .normal | .continued =>
    match update with
    | none => Task.runLoop scope place test update body
    | some e => do
      let _ ← Task.evaluate scope e
      Task.runLoop scope place test update body

/-- Whether a loop goes on. -/
def goesOn (scope : Scope) (test : Option Expression) : Plan Bool :=
  match test with
  | none => pure true
  | some e => do
    let value ← Task.evaluate scope e
    return value.isTruthy

/-- The rounds of a loop. -/
def runLoop (scope : Scope) (place : Position) (test update : Option Expression)
    (body : Command) : Plan Flow := do
  Operation.tick place
  let onward ← goesOn scope test
  if onward then
    let flow ← Task.run scope body
    nextRound scope place test update body flow
  else return .normal

/-- A statement. -/
def run (scope : Scope) : Command → Plan Flow
  | .expression e => do
    Operation.tick e.position
    let _ ← Task.evaluate scope e
    return .normal
  | .declaration kind declarators => do
    Task.runDeclarators scope kind declarators
    return .normal
  | .function _ _ _ _ _ _ | .empty => return .normal
  | .returning place value => do
    Operation.tick place
    match value with
    | some e => do
      let v ← Task.evaluate scope e
      return .returned v
    | none => return .returned .undefined
  | .branch test yes no => do
    Operation.tick test.position
    let value ← Task.evaluate scope test
    if value.isTruthy then Task.run scope yes
    else match no with
      | some no => Task.run scope no
      | none => return .normal
  | .whileLoop test body => Task.runLoop scope test.position (some test) none body
  | .forLoop place start test update body => do
    let scope ← Operation.openScope scope
    match start with
    | some (.declaration kind declarators) => Task.runDeclarators scope kind declarators
    | some (.expression e) => do
      let _ ← Task.evaluate scope e
    | none => pure ()
    Task.runLoop scope place test update body
  | .block body => do
    let scope ← Operation.openScope scope
    Task.runBlock scope body
  | .breaking place => do
    Operation.tick place
    return .broken
  | .continuing place => do
    Operation.tick place
    return .continued

end Plan

/-- What a task consists of. -/
def Task.plan {α : Type} : Task α → Plan α
  | .evaluate scope e => Plan.evaluate scope e
  | .evaluateAll _ [] => return []
  | .evaluateAll scope (e :: es) => do
    let v ← Task.evaluate scope e
    let vs ← Task.evaluateAll scope es
    return v :: vs
  | .store scope target value => Plan.store scope target value
  | .callClosure ref values place => Plan.callClosure ref values place
  | .runDeclarators _ _ [] => return ()
  | .runDeclarators scope kind (d :: ds) => do
    Operation.tick d.place
    let value ← match d.value with
      | some e => liftM (Task.evaluate scope e)
      | none => pure .undefined
    Plan.bindDeclared scope kind d.name value d.place
    Task.runDeclarators scope kind ds
  | .runBlock scope commands => do
    Plan.hoist scope commands
    Task.runAll scope commands
  | .runAll _ [] => return .normal
  | .runAll scope (c :: cs) => do
    match ← Task.run scope c with
    | .normal => Task.runAll scope cs
    | flow => return flow
  | .runLoop scope place test update body => Plan.runLoop scope place test update body
  | .run scope c => Plan.run scope c

/-! ## A task does what its plan says -/

namespace Plan

variable (n : Nat)

@[simp] theorem perform_ite {α : Type} (c : Prop) [Decidable c] (p q : Plan α) :
    (if c then p else q).perform n = if c then p.perform n else q.perform n :=
  apply_ite _ _ _ _

@[simp] theorem perform_find (scope : Scope) (name : Text) (place : Position) :
    (find scope name place).perform n = Eval.find scope name place := by
  simp only [find, perform_bind, perform_operation, Eval.find]
  refine bind_congr fun found => ?_
  cases found <;> simp [Operation.perform]

@[simp] theorem perform_bindParameters (scope : Scope) (parameters : List Text) :
    ∀ values, (bindParameters scope parameters values).perform n =
      Eval.bindParameters scope parameters values := by
  induction parameters with
  | nil => exact fun _ => rfl
  | cons p ps ih =>
    intro values
    cases values <;> simp [bindParameters, Eval.bindParameters, Operation.perform, ih]

@[simp] theorem perform_hoist (scope : Scope) (commands : List Command) :
    (hoist scope commands).perform n = Eval.hoist scope commands := by
  induction commands with
  | nil => rfl
  | cons c rest ih =>
    cases c with
    | function => simp [hoist, Eval.hoist, Operation.perform, ih]
    | _ => exact ih

@[simp] theorem perform_bindDeclared (scope : Scope) (kind : BindingKind) (name : Text)
    (value : Value) (place : Position) :
    (bindDeclared scope kind name value place).perform n =
      Eval.bindDeclared scope kind name value place := by
  cases kind <;> exact perform_operation n _

@[simp] theorem perform_unary (operator : UnaryOperator) (value : Value) :
    (unary operator value).perform n = Eval.unary operator value := by
  cases operator <;> rfl

@[simp] theorem perform_callMethod (object : Value) (method : Text) (values : List Value)
    (description : Text) (place : Position) :
    (callMethod object method values description place).perform n =
      Eval.callMethod object method values description place := by
  unfold callMethod Eval.callMethod
  split
  · exact perform_operation n _
  · exact perform_operation n _
  · split <;> simp_all [Operation.perform]

@[simp] theorem perform_callNative (function : Native) (values : List Value) (place : Position) :
    (callNative function values place).perform n = Eval.callNative function values place := by
  cases function with
  | print | input => simp [callNative, Eval.callNative, Operation.perform]
  | _ => exact perform_operation n _

@[simp] theorem perform_goesOn (scope : Scope) (test : Option Expression) :
    (goesOn scope test).perform n = Script.goesOn n scope test := by
  cases test <;> simp [goesOn, Script.goesOn, Task.perform]

@[simp] theorem perform_nextRound (scope : Scope) (place : Position)
    (test update : Option Expression) (body : Command) (flow : Flow) :
    (nextRound scope place test update body flow).perform n =
      Script.nextRound n scope place test update body flow := by
  cases flow <;> cases update <;> simp [nextRound, Script.nextRound, Task.perform]

/-- A unary operator, but for the type of a name. -/
theorem evaluate_unary (scope : Scope) (place : Position) {operator : UnaryOperator}
    {operand : Expression}
    (htypeOf : ¬∃ p name, operator = .typeOf ∧ operand = .identifier p name) :
    evaluate scope (.unary place operator operand) =
      liftM (Task.evaluate scope operand) >>= unary operator := by
  cases operator <;> cases operand <;> first | rfl | exact absurd ⟨_, _, rfl, rfl⟩ htypeOf

/-- A call, but for that of a method. -/
theorem evaluate_call (scope : Scope) (place : Position) {callee : Expression}
    (operands : List Expression) (hmember : ¬∃ p object method, callee = .member p object method) :
    evaluate scope (.call place callee operands) = (do
      Operation.tick place
      let function ← Task.evaluate scope callee
      let values ← Task.evaluateAll scope operands
      callFound function values callee.describe place) := by
  cases callee <;> first | rfl | exact absurd ⟨_, _, _, rfl⟩ hmember

theorem perform_evaluate (scope : Scope) (e : Expression) :
    (evaluate scope e).perform n = Script.evaluate (n + 1) scope e := by
  cases e with
  | unary place operator operand =>
    -- `typeof` of a name looks it up without a failure, so it is evaluated on its own
    by_cases htypeOf : ∃ p name, operator = .typeOf ∧ operand = .identifier p name
    · obtain ⟨p, name, rfl, rfl⟩ := htypeOf
      simp [evaluate, Script.evaluate, Operation.perform]
    · rw [evaluate_unary scope place htypeOf, Script.evaluate_unary n scope place htypeOf]
      simp [Task.perform]
  | binary place operator left right =>
    cases operator <;> simp [evaluate, Script.evaluate, Operation.perform, Task.perform]
  | call place callee operands =>
    -- a method is called on its object, any other callee is evaluated first
    by_cases hmember : ∃ p object method, callee = .member p object method
    · obtain ⟨p, object, method, rfl⟩ := hmember
      simp [evaluate, Script.evaluate, Operation.perform, Task.perform]
    · rw [evaluate_call scope place operands hmember,
        Script.evaluate_call n scope place operands hmember]
      simp only [perform_bind, perform_operation, perform_task]
      refine bind_congr fun _ => bind_congr fun function => bind_congr fun values => ?_
      cases function <;> simp [callFound, Operation.perform, Task.perform]
  | assign place operator target value =>
    simp only [evaluate, Script.evaluate]
    cases operator.binary? <;> simp [Task.perform, Operation.perform]
  | construct place name operands =>
    simp only [evaluate, Script.evaluate, perform_bind, perform_operation, perform_find, perform_task]
    refine bind_congr fun _ => bind_congr fun constructor => bind_congr fun values => ?_
    split <;> simp_all [Operation.perform]
  | _ => simp [evaluate, Script.evaluate, Operation.perform, Task.perform]

theorem perform_store (scope : Scope) (target : Expression) (value : Value) :
    (store scope target value).perform n = Script.store (n + 1) scope target value := by
  cases target <;> simp [store, Script.store, Operation.perform, Task.perform]

theorem perform_callClosure (ref : Nat) (values : List Value) (place : Position) :
    (callClosure ref values place).perform n = Script.callClosure (n + 1) ref values place := by
  simp only [callClosure, Script.callClosure, perform_bind, perform_operation]
  refine bind_congr fun _ => bind_congr fun found => ?_
  cases found with
  | none => rfl
  | some closure =>
    simp only [perform_bind, perform_operation, perform_bindParameters, perform_inside]
    refine bind_congr fun scope => bind_congr fun _ => bind_congr fun flow => ?_
    cases flow <;> rfl

theorem perform_runLoop (scope : Scope) (place : Position) (test update : Option Expression)
    (body : Command) :
    (runLoop scope place test update body).perform n =
      Script.runLoop (n + 1) scope place test update body := by
  rw [runLoop_eq_rounds]
  simp [runLoop, Operation.perform, Task.perform]

theorem perform_run (scope : Scope) (c : Command) :
    (run scope c).perform n = Script.run (n + 1) scope c := by
  cases c with
  | returning place value => cases value <;> simp [run, Script.run, Operation.perform, Task.perform]
  | branch test yes no => cases no <;> simp [run, Script.run, Operation.perform, Task.perform]
  | forLoop place start test update body =>
    cases start with
    | none => simp [run, Script.run, Operation.perform, Task.perform]
    | some start => cases start <;> simp [run, Script.run, Operation.perform, Task.perform]
  | _ => simp [run, Script.run, Operation.perform, Task.perform]

end Plan

/-- A task does what its plan says; what is nested in it has less fuel. -/
theorem Task.perform_succ {α : Type} (n : Nat) (t : Task α) : t.perform (n + 1) = t.plan.perform n := by
  cases t with
  | evaluate scope e => exact (Plan.perform_evaluate n scope e).symm
  | evaluateAll scope es =>
    cases es <;> simp [Task.plan, Task.perform, Script.evaluateAll]
  | store scope target value => exact (Plan.perform_store n scope target value).symm
  | callClosure ref values place => exact (Plan.perform_callClosure n ref values place).symm
  | runDeclarators scope kind ds =>
    cases ds with
    | nil => rfl
    | cons d ds =>
      simp only [Task.plan, Task.perform, Script.runDeclarators, Plan.perform_bind,
        Plan.perform_operation]
      cases d.value <;> simp [Operation.perform, Task.perform]
  | runBlock scope commands => simp [Task.plan, Task.perform, Script.runBlock]
  | runAll scope cs =>
    cases cs with
    | nil => rfl
    | cons c cs =>
      simp only [Task.plan, Task.perform, Script.runAll, Plan.perform_bind, Plan.perform_task]
      refine bind_congr fun flow => ?_
      cases flow <;> simp [Task.perform]
  | runLoop scope place test update body =>
    exact (Plan.perform_runLoop n scope place test update body).symm
  | run scope c => exact (Plan.perform_run n scope c).symm

/-! ## The plan of a run -/

/-- The function that a program is wrapped in is called, if there is one. -/
def Plan.callEntry (found : Option Value) : Plan Unit :=
  match found with
  | some (.function ref) => do
    match ← Operation.fromHeap fun h => h.closures[ref]? with
    | some closure =>
      let _ ← Task.callClosure ref [.native .print, .native .input] closure.place
    | none => pure ()
  | _ => pure ()

/-- The statements of a program are run, and then the function that it is wrapped in. -/
def Program.plan (program : Program) : Plan Unit := do
  let _ ← Plan.task (some ⟨topLevel, nowhere⟩) (.runBlock Machine.globalScope program) .done
  let found ← Operation.find? Machine.globalScope entryPoint
  Plan.callEntry found

/-- A run does what its plan says. -/
theorem runProgram_eq_perform (n : Nat) (program : Program) :
    runProgram n program = program.plan.perform n := by
  simp only [runProgram, Program.plan, Plan.perform_bind, Plan.perform_inside, Plan.perform_operation]
  refine bind_congr fun _ => bind_congr fun found => ?_
  cases found with
  | none => rfl
  | some v =>
    cases v with
    | function ref =>
      simp only [Plan.callEntry, Plan.perform_bind, Plan.perform_operation]
      refine bind_congr fun found => ?_
      cases found <;> simp [Task.perform]
    | _ => rfl

end Pseudocode.Script
