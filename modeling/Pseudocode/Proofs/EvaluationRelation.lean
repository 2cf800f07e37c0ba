import Pseudocode.Script.Evaluation

/-!
# Relations that evaluation respects

A relation between what happens on two machines is respected by evaluation once it is respected by
the operations that evaluation is put together from. `IsClosed` lists them, and `Respects` is what
follows for expressions and statements. The two sides may be given different fuel.

The host is talked to only in a call, and so only after a check of the watchdog. A relation may
therefore ask less of what follows a check: `G` is the relation there, and `P` everywhere else.
-/

namespace Pseudocode.Script

open Eval

/-- A relation between two things that happen on machines, for every type of value. -/
abbrev EvalRelation := (α : Type) → Eval α → Eval α → Prop

/-- `P` is respected by the operations that evaluation consists of, and `G` by those that follow a
    check of the watchdog. -/
structure EvalRelation.IsClosed (P G : EvalRelation) : Prop where
  weaken {α : Type} {x y : Eval α} : P α x y → G α x y
  pure {α : Type} (a : α) : P α (pure a) (pure a)
  bind {α β : Type} {x y : Eval α} {f g : α → Eval β} :
    P α x y → (∀ a, P β (f a) (g a)) → P β (x >>= f) (y >>= g)
  bindAfter {α β : Type} {x y : Eval α} {f g : α → Eval β} :
    G α x y → (∀ a, G β (f a) (g a)) → G β (x >>= f) (y >>= g)
  check {α : Type} {f g : Unit → Eval α} (place : Position) :
    (∀ u, G α (f u) (g u)) → P α (tick place >>= f) (tick place >>= g)
  within {α : Type} {x y : Eval α} (call : Call) :
    P α x y → P α (within call x) (within call y)
  fail (α : Type) (place : Position) (cause : ErrorCause) : P α (fail place cause) (fail place cause)
  onHeap {α : Type} (place : Position) (operation : Heap → Outcome α) :
    P α (onHeap place operation) (onHeap place operation)
  fromHeap {α : Type} (look : Heap → α) : P α (fromHeap look) (fromHeap look)
  readHeap {α : Type} (place : Position) (look : Heap → Except ErrorCause α) :
    P α (readHeap place look) (readHeap place look)
  openScope (scope : Scope) : P Scope (openScope scope) (openScope scope)
  find? (scope : Scope) (name : Text) : P _ (find? scope name) (find? scope name)
  define (scope : Scope) (name : Text) (value : Value) :
    P Unit (define scope name value) (define scope name value)
  declare (scope : Scope) (name : Text) (binding : Binding) (place : Position) :
    P Unit (declare scope name binding place) (declare scope name binding place)
  assign (scope : Scope) (name : Text) (value : Value) (place : Position) :
    P Unit (assign scope name value place) (assign scope name value place)
  newClosure (closure : Closure) : P Value (newClosure closure) (newClosure closure)
  checkCalls (place : Position) : P Unit (checkCalls place) (checkCalls place)
  print (shown : Text) : G Unit (print shown) (print shown)
  input (prompt : Text) : G Text (input prompt) (input prompt)

namespace EvalRelation.IsClosed

variable {P G : EvalRelation}

theorem find (h : IsClosed P G) (scope : Scope) (name : Text) (place : Position) :
    P Value (find scope name place) (find scope name place) := by
  refine h.bind (h.find? scope name) fun found => ?_
  cases found with
  | some v => exact h.pure v
  | none => exact h.fail _ place _

theorem bindParameters (h : IsClosed P G) (scope : Scope) (parameters : List Text) :
    ∀ values, P Unit (bindParameters scope parameters values) (bindParameters scope parameters values) := by
  induction parameters with
  | nil =>
    intro values
    exact h.pure ()
  | cons p ps ih =>
    intro values
    cases values with
    | nil => exact h.bind (h.define scope p .undefined) fun _ => ih []
    | cons v vs => exact h.bind (h.define scope p v) fun _ => ih vs

theorem hoist (h : IsClosed P G) (scope : Scope) (commands : List Command) :
    P Unit (hoist scope commands) (hoist scope commands) := by
  induction commands with
  | nil => exact h.pure ()
  | cons c rest ih =>
    cases c with
    | function place name namePlace parameters isAsync body =>
      exact h.bind (h.newClosure _) fun v => h.bind (h.define scope name v) fun _ => ih
    | _ => exact ih

theorem bindDeclared (h : IsClosed P G) (scope : Scope) (kind : BindingKind) (name : Text)
    (value : Value) (place : Position) :
    P Unit (bindDeclared scope kind name value place) (bindDeclared scope kind name value place) := by
  cases kind with
  | «let» => exact h.declare scope name _ place
  | const => exact h.declare scope name _ place
  | var => exact h.define scope name value

theorem unary (h : IsClosed P G) (operator : UnaryOperator) (value : Value) :
    P Value (unary operator value) (unary operator value) := by
  cases operator <;> simp only [Eval.unary]
  case not => exact h.pure _
  case negate => exact h.fromHeap _
  case plus => exact h.fromHeap _
  case typeOf => exact h.pure _
  case await => exact h.pure _

theorem callMethod (h : IsClosed P G) (object : Value) (method : Text) (values : List Value)
    (description : Text) (place : Position) :
    P Value (callMethod object method values description place)
      (callMethod object method values description place) := by
  unfold Eval.callMethod
  split
  · exact h.fail _ place _
  · exact h.fail _ place _
  · split
    · exact h.onHeap place _
    · exact h.fail _ place _

/-- A native call may talk to the host, which it does after the check of its call. -/
theorem callNative (h : IsClosed P G) (function : Native) (values : List Value) (place : Position) :
    G Value (callNative function values place) (callNative function values place) := by
  cases function with
  | print =>
    exact h.bindAfter (h.weaken (h.fromHeap _)) fun shown => h.bindAfter (h.print shown) fun _ =>
      h.weaken (h.pure _)
  | input =>
    exact h.bindAfter (h.weaken (h.fromHeap _)) fun prompt => h.bindAfter (h.input prompt) fun _ =>
      h.weaken (h.pure _)
  | _ =>
    simp only [Eval.callNative]
    exact h.weaken (h.onHeap place _)

end EvalRelation.IsClosed

/-! ## Expressions and statements -/

/-- A unary operator, but for the type of a name. -/
theorem evaluate_unary (n : Nat) (scope : Scope) (place : Position) {operator : UnaryOperator}
    {operand : Expression}
    (htypeOf : ¬∃ p name, operator = .typeOf ∧ operand = .identifier p name) :
    evaluate (n + 1) scope (.unary place operator operand) =
      evaluate n scope operand >>= Eval.unary operator := by
  cases operator <;> cases operand <;> first | rfl | exact absurd ⟨_, _, rfl, rfl⟩ htypeOf

/-- A call, but for that of a method. -/
theorem evaluate_call (n : Nat) (scope : Scope) (place : Position) {callee : Expression}
    (operands : List Expression) (hmember : ¬∃ p object method, callee = .member p object method) :
    evaluate (n + 1) scope (.call place callee operands) = (do
      tick place
      let function ← evaluate n scope callee
      let values ← evaluateAll n scope operands
      match function with
      | .function ref => callClosure n ref values place
      | .native function => callNative function values place
      | _ => Eval.fail place (.notFunction callee.describe)) := by
  cases callee <;> first | rfl | exact absurd ⟨_, _, _, rfl⟩ hmember

/-- Whether a loop goes on, which it always does if it has no test. -/
def goesOn (n : Nat) (scope : Scope) (test : Option Expression) : Eval Bool :=
  match test with
  | none => pure true
  | some e => evaluate n scope e >>= fun value => pure value.isTruthy

/-- What follows the body of a loop: the next round, unless the body has left the loop. -/
def nextRound (n : Nat) (scope : Scope) (place : Position) (test update : Option Expression)
    (body : Command) (flow : Flow) : Eval Flow :=
  match flow with
  | .broken => pure .normal
  | .returned value => pure (.returned value)
  | .normal | .continued =>
    match update with
    | none => runLoop n scope place test update body
    | some e => evaluate n scope e >>= fun _ => runLoop n scope place test update body

/-- A loop is run round by round, and every round begins with a check. -/
theorem runLoop_eq_rounds (n : Nat) (scope : Scope) (place : Position)
    (test update : Option Expression) (body : Command) :
    runLoop (n + 1) scope place test update body =
      tick place >>= fun _ => goesOn n scope test >>= fun onward =>
        if onward then run n scope body >>= nextRound n scope place test update body
        else pure .normal := by
  simp only [runLoop]
  apply bind_congr
  intro _
  cases test <;> simp only [goesOn, map_eq_pure_bind] <;> apply bind_congr <;> intro onward <;>
    cases onward
  -- a round is run, and its body ends in one of the four ways
  case none.true | some.true =>
    apply bind_congr
    intro flow
    cases flow <;> cases update <;> rfl
  all_goals rfl

/-- Evaluation with fuel `n` and evaluation with fuel `m` are related by `P`. -/
structure Respects (P : EvalRelation) (n m : Nat) : Prop where
  evaluate (scope : Scope) (e : Expression) : P Value (evaluate n scope e) (evaluate m scope e)
  evaluateAll (scope : Scope) (es : List Expression) :
    P (List Value) (evaluateAll n scope es) (evaluateAll m scope es)
  store (scope : Scope) (target : Expression) (value : Value) :
    P Unit (store n scope target value) (store m scope target value)
  callClosure (ref : Nat) (values : List Value) (place : Position) :
    P Value (callClosure n ref values place) (callClosure m ref values place)
  runDeclarators (scope : Scope) (kind : BindingKind) (ds : List (Declarator Expression Position)) :
    P Unit (runDeclarators n scope kind ds) (runDeclarators m scope kind ds)
  runBlock (scope : Scope) (commands : List Command) :
    P Flow (runBlock n scope commands) (runBlock m scope commands)
  runAll (scope : Scope) (commands : List Command) :
    P Flow (runAll n scope commands) (runAll m scope commands)
  runLoop (scope : Scope) (place : Position) (test update : Option Expression) (body : Command) :
    P Flow (runLoop n scope place test update body) (runLoop m scope place test update body)
  run (scope : Scope) (c : Command) : P Flow (run n scope c) (run m scope c)

section

variable {P G : EvalRelation} {n m : Nat}

private theorem evaluate_succ (h : P.IsClosed G) (ih : Respects P n m) (scope : Scope)
    (e : Expression) : P Value (evaluate (n + 1) scope e) (evaluate (m + 1) scope e) := by
  cases e with
  | number place x => exact h.pure _
  | string place t => exact h.pure _
  | bool place b => exact h.pure _
  | null place => exact h.pure _
  | undefined place => exact h.pure _
  | array place items =>
    simp only [evaluate]
    exact h.bind (ih.evaluateAll scope items) fun values => h.onHeap place _
  | identifier place name =>
    simp only [evaluate]
    exact h.find scope name place
  | unary place operator operand =>
    by_cases htypeOf : ∃ p name, operator = .typeOf ∧ operand = .identifier p name
    · obtain ⟨p, name, rfl, rfl⟩ := htypeOf
      simp only [evaluate]
      exact h.bind (h.find? scope name) fun found => h.pure _
    · rw [evaluate_unary n scope place htypeOf, evaluate_unary m scope place htypeOf]
      exact h.bind (ih.evaluate scope operand) fun value => h.unary operator value
  | binary place operator left right =>
    -- `and` and `or` may leave their right operand alone
    cases operator with
    | and =>
      simp only [evaluate]
      refine h.bind (ih.evaluate scope left) fun value => ?_
      split
      · exact ih.evaluate scope right
      · exact h.pure value
    | or =>
      simp only [evaluate]
      refine h.bind (ih.evaluate scope left) fun value => ?_
      split
      · exact h.pure value
      · exact ih.evaluate scope right
    | _ =>
      simp only [evaluate]
      exact h.bind (ih.evaluate scope left) fun a => h.bind (ih.evaluate scope right) fun b =>
        h.fromHeap _
  | conditional place test yes no =>
    simp only [evaluate]
    refine h.bind (ih.evaluate scope test) fun value => ?_
    split
    · exact ih.evaluate scope yes
    · exact ih.evaluate scope no
  | assign place operator target value =>
    simp only [evaluate]
    cases operator.binary? with
    | none =>
      exact h.bind (ih.evaluate scope value) fun v => h.bind (ih.store scope target v) fun _ => h.pure v
    | some operator =>
      exact h.bind (ih.evaluate scope target) fun current => h.bind (ih.evaluate scope value) fun operand =>
        h.bind (h.fromHeap _) fun v => h.bind (ih.store scope target v) fun _ => h.pure v
  | call place callee operands =>
    by_cases hmember : ∃ p object method, callee = .member p object method
    · obtain ⟨p, object, method, rfl⟩ := hmember
      simp only [evaluate]
      exact h.check place fun _ => h.weaken (h.bind (ih.evaluate scope object) fun v =>
        h.bind (ih.evaluateAll scope operands) fun values => h.callMethod v method values _ place)
    · rw [evaluate_call n scope place operands hmember, evaluate_call m scope place operands hmember]
      refine h.check place fun _ => h.bindAfter (h.weaken (ih.evaluate scope callee)) fun function =>
        h.bindAfter (h.weaken (ih.evaluateAll scope operands)) fun values => ?_
      split
      · exact h.weaken (ih.callClosure _ values place)
      · exact h.callNative _ values place
      · exact h.weaken (h.fail _ place _)
  | index place object key =>
    simp only [evaluate]
    exact h.bind (ih.evaluate scope object) fun object => h.bind (ih.evaluate scope key) fun key =>
      h.readHeap place _
  | member place object name =>
    simp only [evaluate]
    exact h.bind (ih.evaluate scope object) fun object => h.readHeap place _
  | construct place name operands =>
    simp only [evaluate]
    refine h.check place fun _ => h.weaken (h.bind (h.find scope name place) fun constructor =>
      h.bind (ih.evaluateAll scope operands) fun values => ?_)
    split
    · exact h.onHeap place _
    · exact h.fail _ place _

private theorem store_succ (h : P.IsClosed G) (ih : Respects P n m) (scope : Scope)
    (target : Expression) (value : Value) :
    P Unit (store (n + 1) scope target value) (store (m + 1) scope target value) := by
  cases target with
  | identifier place name => exact h.assign scope name value place
  | index place object key =>
    simp only [store]
    exact h.bind (ih.evaluate scope object) fun object => h.bind (ih.evaluate scope key) fun key =>
      h.bind (h.fromHeap _) fun name => h.onHeap place _
  | member place object name =>
    simp only [store]
    exact h.bind (ih.evaluate scope object) fun object => h.onHeap place _
  | _ =>
    simp only [store]
    exact h.fail _ _ _

private theorem callClosure_succ (h : P.IsClosed G) (ih : Respects P n m) (ref : Nat)
    (values : List Value) (place : Position) :
    P Value (callClosure (n + 1) ref values place) (callClosure (m + 1) ref values place) := by
  simp only [callClosure]
  refine h.bind (h.checkCalls place) fun _ => h.bind (h.fromHeap _) fun found => ?_
  cases found with
  | none => exact h.pure _
  | some closure =>
    refine h.bind (h.openScope _) fun scope => h.bind (h.bindParameters scope _ values) fun _ =>
      h.bind (h.within _ (ih.runBlock scope closure.body)) fun flow => ?_
    split <;> exact h.pure _

private theorem runDeclarators_succ (h : P.IsClosed G) (ih : Respects P n m) (scope : Scope)
    (kind : BindingKind) (ds : List (Declarator Expression Position)) :
    P Unit (runDeclarators (n + 1) scope kind ds) (runDeclarators (m + 1) scope kind ds) := by
  cases ds with
  | nil => exact h.pure ()
  | cons d ds =>
    simp only [runDeclarators]
    refine h.check d.place fun _ => h.weaken ?_
    cases d.value with
    | none =>
      exact h.bind (h.pure _) fun value => h.bind (h.bindDeclared scope kind d.name value d.place)
        fun _ => ih.runDeclarators scope kind ds
    | some e =>
      exact h.bind (ih.evaluate scope e) fun value =>
        h.bind (h.bindDeclared scope kind d.name value d.place) fun _ => ih.runDeclarators scope kind ds

private theorem runAll_succ (h : P.IsClosed G) (ih : Respects P n m) (scope : Scope)
    (commands : List Command) :
    P Flow (runAll (n + 1) scope commands) (runAll (m + 1) scope commands) := by
  cases commands with
  | nil => exact h.pure _
  | cons c cs =>
    simp only [runAll]
    refine h.bind (ih.run scope c) fun flow => ?_
    cases flow with
    | normal => exact ih.runAll scope cs
    | _ => exact h.pure _

private theorem runLoop_succ (h : P.IsClosed G) (ih : Respects P n m) (scope : Scope)
    (place : Position) (test update : Option Expression) (body : Command) :
    P Flow (runLoop (n + 1) scope place test update body)
      (runLoop (m + 1) scope place test update body) := by
  rw [runLoop_eq_rounds, runLoop_eq_rounds]
  refine h.check place fun _ => h.weaken (h.bind ?_ fun onward => ?_)
  -- the test, which may be missing, and then a round
  · cases test with
    | none => exact h.pure true
    | some e => exact h.bind (ih.evaluate scope e) fun _ => h.pure _
  · split
    · refine h.bind (ih.run scope body) fun flow => ?_
      cases flow with
      | broken => exact h.pure _
      | returned value => exact h.pure _
      | normal | continued =>
        cases update with
        | none => exact ih.runLoop scope place test none body
        | some e => exact h.bind (ih.evaluate scope e) fun _ => ih.runLoop scope place test (some e) body
    · exact h.pure _

private theorem run_succ (h : P.IsClosed G) (ih : Respects P n m) (scope : Scope) (c : Command) :
    P Flow (run (n + 1) scope c) (run (m + 1) scope c) := by
  -- behind a check the weaker relation is enough, which is why each check weakens
  cases c with
  | expression e =>
    simp only [run]
    exact h.check e.position fun _ => h.weaken (h.bind (ih.evaluate scope e) fun _ => h.pure _)
  | declaration kind ds =>
    simp only [run]
    exact h.bind (ih.runDeclarators scope kind ds) fun _ => h.pure _
  | function place name namePlace parameters isAsync body => exact h.pure _
  | empty => exact h.pure _
  | returning place value =>
    simp only [run]
    refine h.check place fun _ => h.weaken ?_
    cases value with
    | none => exact h.pure _
    | some e => exact h.bind (ih.evaluate scope e) fun _ => h.pure _
  | branch test yes no =>
    simp only [run]
    refine h.check test.position fun _ => h.weaken (h.bind (ih.evaluate scope test) fun value => ?_)
    split
    · exact ih.run scope yes
    · cases no with
      | none => exact h.pure _
      | some no => exact ih.run scope no
  | whileLoop test body =>
    simp only [run]
    exact ih.runLoop scope test.position (some test) none body
  | forLoop place start test update body =>
    simp only [run]
    refine h.bind (h.openScope scope) fun scope => ?_
    cases start with
    | none => exact ih.runLoop scope place test update body
    | some start =>
      cases start with
      | declaration kind ds =>
        exact h.bind (ih.runDeclarators scope kind ds) fun _ => ih.runLoop scope place test update body
      | expression e =>
        exact h.bind (ih.evaluate scope e) fun _ => ih.runLoop scope place test update body
  | block body =>
    simp only [run]
    exact h.bind (h.openScope scope) fun scope => ih.runBlock scope body
  | breaking place =>
    simp only [run]
    exact h.check place fun _ => h.weaken (h.pure _)
  | continuing place =>
    simp only [run]
    exact h.check place fun _ => h.weaken (h.pure _)

/-- One more unit of fuel on both sides. -/
theorem Respects.succ (h : P.IsClosed G) (ih : Respects P n m) : Respects P (n + 1) (m + 1) where
  evaluate := evaluate_succ h ih
  evaluateAll scope es := by
    cases es with
    | nil => exact h.pure _
    | cons e es =>
      simp only [Pseudocode.Script.evaluateAll]
      exact h.bind (ih.evaluate scope e) fun v => h.bind (ih.evaluateAll scope es) fun vs => h.pure _
  store := store_succ h ih
  callClosure := callClosure_succ h ih
  runDeclarators := runDeclarators_succ h ih
  runBlock scope commands := by
    simp only [Pseudocode.Script.runBlock]
    exact h.bind (h.hoist scope commands) fun _ => ih.runAll scope commands
  runAll := runAll_succ h ih
  runLoop := runLoop_succ h ih
  run := run_succ h ih

/-- Evaluation respects a closed relation. -/
theorem respects (h : P.IsClosed G) (hout : ∀ α, P α (throw .outOfFuel) (throw .outOfFuel)) (n : Nat) :
    Respects P n n := by
  induction n with
  | zero => constructor <;> intros <;> exact hout _
  | succ n ih => exact ih.succ h

/-- If running out of fuel is related to everything, the right side may be given more fuel. -/
theorem respects_add (h : P.IsClosed G) (hout : ∀ α (y : Eval α), P α (throw .outOfFuel) y)
    (n extra : Nat) : Respects P n (n + extra) := by
  induction n with
  | zero => constructor <;> intros <;> exact hout _ _
  | succ n ih =>
    rw [Nat.succ_add]
    exact ih.succ h

/-- What evaluation respects, a whole program respects. -/
theorem Respects.runProgram (h : P.IsClosed G) (ih : Respects P n m) (program : Program) :
    P Unit (runProgram n program) (runProgram m program) := by
  simp only [Pseudocode.Script.runProgram]
  refine h.bind (h.within _ (ih.runBlock _ program)) fun _ => h.bind (h.find? _ _) fun found => ?_
  split
  · refine h.bind (h.fromHeap _) fun closure => ?_
    split
    · exact h.bind (ih.callClosure _ _ _) fun _ => h.pure ()
    · exact h.pure ()
  · exact h.pure ()

end

/-! ## Checks -/

/-- The run was left because it had to stop. -/
def Unwind.IsStop : Unwind → Stop → Prop
  | .timedOut _, .timedOut => True
  | .cancelled, .cancelled => True
  | _, _ => False

theorem tick_of_passes {m : Machine} {place : Position} (h : m.watchdog.stop? = none) :
    tick place m = .ok () { m with watchdog := m.watchdog.tick } := by
  simp only [tick, h]

theorem tick_of_stops {m : Machine} {why : Stop} (place : Position)
    (h : m.watchdog.stop? = some why) : ∃ u, tick place m = .error u m ∧ u.IsStop why := by
  simp only [tick, h]
  cases why <;> exact ⟨_, rfl, trivial⟩

/-! ## Local operations

Most operations have nothing to do with the watchdog or the host. A relation that all of these
respect is closed as soon as it respects the rest. -/

/-- Watchdog, host and log are the same on two machines. -/
structure Machine.SameOutside (m m' : Machine) : Prop where
  watchdog : m'.watchdog = m.watchdog
  answers : m'.answers = m.answers
  log : m'.log = m.log
  cancelAfter : m'.cancelAfter = m.cancelAfter

/-- The operation does the same under every watchdog, and never talks to the host. -/
def IsLocal {α : Type} (x : Eval α) : Prop :=
  ∀ m w, match x m with
    | .ok a m' => m.SameOutside m' ∧ x { m with watchdog := w } = .ok a { m' with watchdog := w }
    | .error u m' => m.SameOutside m' ∧ (∀ place, u ≠ .timedOut place) ∧
        x { m with watchdog := w } = .error u { m' with watchdog := w }

section

variable {α : Type}

theorem isLocal_pure (a : α) : IsLocal (pure a : Eval α) := fun _ _ => ⟨⟨rfl, rfl, rfl, rfl⟩, rfl⟩

theorem isLocal_outOfFuel : IsLocal (throw .outOfFuel : Eval α) :=
  fun _ _ => ⟨⟨rfl, rfl, rfl, rfl⟩, by simp, rfl⟩

theorem isLocal_fail (place : Position) (cause : ErrorCause) : IsLocal (fail place cause : Eval α) :=
  fun _ _ => ⟨⟨rfl, rfl, rfl, rfl⟩, by simp, rfl⟩

theorem isLocal_onHeap (place : Position) (operation : Heap → Outcome α) :
    IsLocal (onHeap place operation) := by
  intro m w
  simp only [onHeap]
  cases operation m.heap with
  | ok a heap => exact ⟨⟨rfl, rfl, rfl, rfl⟩, rfl⟩
  | error why heap => cases why <;> exact ⟨⟨rfl, rfl, rfl, rfl⟩, by simp, rfl⟩

theorem isLocal_fromHeap (look : Heap → α) : IsLocal (fromHeap look) :=
  fun _ _ => ⟨⟨rfl, rfl, rfl, rfl⟩, rfl⟩

theorem isLocal_readHeap (place : Position) (look : Heap → Except ErrorCause α) :
    IsLocal (readHeap place look) := by
  intro m w
  simp only [readHeap]
  cases look m.heap with
  | ok a => exact ⟨⟨rfl, rfl, rfl, rfl⟩, rfl⟩
  | error cause => exact isLocal_fail place cause m w

theorem isLocal_openScope (scope : Scope) : IsLocal (openScope scope) :=
  fun _ _ => ⟨⟨rfl, rfl, rfl, rfl⟩, rfl⟩

theorem isLocal_find? (scope : Scope) (name : Text) : IsLocal (find? scope name) :=
  fun _ _ => ⟨⟨rfl, rfl, rfl, rfl⟩, rfl⟩

theorem isLocal_define (scope : Scope) (name : Text) (value : Value) :
    IsLocal (define scope name value) :=
  fun _ _ => ⟨⟨rfl, rfl, rfl, rfl⟩, rfl⟩

theorem isLocal_declare (scope : Scope) (name : Text) (binding : Binding) (place : Position) :
    IsLocal (declare scope name binding place) := by
  intro m w
  simp only [declare]
  cases m.frames.declareFault? name scope with
  | none => exact ⟨⟨rfl, rfl, rfl, rfl⟩, rfl⟩
  | some fault => exact isLocal_fail place _ m w

theorem isLocal_assign (scope : Scope) (name : Text) (value : Value) (place : Position) :
    IsLocal (assign scope name value place) := by
  intro m w
  simp only [assign]
  cases m.frames.assignFault? name scope with
  | none => exact ⟨⟨rfl, rfl, rfl, rfl⟩, rfl⟩
  | some fault =>
    cases fault with
    | notFound => exact ⟨⟨rfl, rfl, rfl, rfl⟩, rfl⟩
    | alreadyDeclared => exact isLocal_fail place _ m w
    | constant => exact isLocal_fail place _ m w

theorem isLocal_newClosure (closure : Closure) : IsLocal (newClosure closure) :=
  fun _ _ => ⟨⟨rfl, rfl, rfl, rfl⟩, rfl⟩

theorem isLocal_checkCalls (place : Position) : IsLocal (checkCalls place) := by
  intro m w
  simp only [checkCalls]
  by_cases hdeep : m.maxCalls < m.calls.length
  · rw [if_pos hdeep, if_pos hdeep]
    exact isLocal_fail place _ m w
  · rw [if_neg hdeep, if_neg hdeep]
    exact ⟨⟨rfl, rfl, rfl, rfl⟩, rfl⟩

end

/-- A relation is closed if it holds between a local operation and itself, and is respected by the
    operations that are not local. -/
theorem EvalRelation.isClosed_of_local {P G : EvalRelation}
    (weaken : ∀ {α : Type} {x y : Eval α}, P α x y → G α x y)
    (isLocal : ∀ {α : Type} {x : Eval α}, IsLocal x → P α x x)
    (bind : ∀ {α β : Type} {x y : Eval α} {f g : α → Eval β},
      P α x y → (∀ a, P β (f a) (g a)) → P β (x >>= f) (y >>= g))
    (bindAfter : ∀ {α β : Type} {x y : Eval α} {f g : α → Eval β},
      G α x y → (∀ a, G β (f a) (g a)) → G β (x >>= f) (y >>= g))
    (check : ∀ {α : Type} {f g : Unit → Eval α} (place : Position),
      (∀ u, G α (f u) (g u)) → P α (tick place >>= f) (tick place >>= g))
    (within : ∀ {α : Type} {x y : Eval α} (call : Call),
      P α x y → P α (within call x) (within call y))
    (print : ∀ shown, G Unit (print shown) (print shown))
    (input : ∀ prompt, G Text (input prompt) (input prompt)) : P.IsClosed G where
  weaken := weaken
  pure a := isLocal (isLocal_pure a)
  bind := bind
  bindAfter := bindAfter
  check := check
  within := within
  fail _ place cause := isLocal (isLocal_fail place cause)
  onHeap place operation := isLocal (isLocal_onHeap place operation)
  fromHeap look := isLocal (isLocal_fromHeap look)
  readHeap place look := isLocal (isLocal_readHeap place look)
  openScope scope := isLocal (isLocal_openScope scope)
  find? scope name := isLocal (isLocal_find? scope name)
  define scope name value := isLocal (isLocal_define scope name value)
  declare scope name binding place := isLocal (isLocal_declare scope name binding place)
  assign scope name value place := isLocal (isLocal_assign scope name value place)
  newClosure closure := isLocal (isLocal_newClosure closure)
  checkCalls place := isLocal (isLocal_checkCalls place)
  print := print
  input := input

end Pseudocode.Script
