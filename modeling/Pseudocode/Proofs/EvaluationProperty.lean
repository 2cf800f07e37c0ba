import Pseudocode.Proofs.DisciplinedEvaluation
import Pseudocode.Proofs.Legality
import Pseudocode.Proofs.Positions

/-!
# Properties of evaluation

A property of what happens on a machine holds of every legal statement once it is kept by the
operations that evaluation is put together from. `IsClosed` lists them, `IsSteady` those of them that
always end with a value, and `Holds` is what follows for expressions and statements.

A program is legal, so less has to be shown than for any statement: only legal functions are made and
called, an assignment always has a target, and the heap is changed by a few operations. And what is
done is done at the positions of the statement, in calls of its functions; a property may depend on
what is known of these.
-/

namespace Pseudocode.Script

open Eval

/-! ## Operations on values -/

namespace Heap

/-- The operations on the heap that evaluation uses. -/
inductive IsOperation : {α : Type} → (Heap → Outcome α) → Prop where
  | newArray (items : Array Value) : IsOperation (Heap.newArray · items)
  | constructArray (values : List Value) : IsOperation (Heap.constructArray · values)
  | method {object : Value} {name : Text} {call : Heap → List Value → Outcome Value}
    (hmethod : Heap.method? object name = some call) (values : List Value) :
    IsOperation (call · values)
  | callNative (function : Native) (values : List Value) :
    IsOperation (Heap.callNative · function values)
  | setProperty (object : Value) (key : Text) (value : Value) :
    IsOperation (Heap.setProperty · object key value)

variable {α : Type} {operation : Heap → Outcome α}

theorem IsOperation.keepsClosures (h : IsOperation operation) : KeepsClosures operation := by
  cases h with
  | newArray items => exact newArray_keepsClosures items
  | constructArray values => exact constructArray_keepsClosures values
  | method hmethod values => exact method?_keepsClosures hmethod values
  | callNative function values => exact callNative_keepsClosures function values
  | setProperty object key value => exact setProperty_keepsClosures object key value

theorem IsOperation.noSyntaxError (h : IsOperation operation) : NoSyntaxError operation := by
  cases h with
  | newArray items => exact newArray_noSyntaxError items
  | constructArray values => exact constructArray_noSyntaxError values
  | method hmethod values => exact method?_noSyntaxError hmethod values
  | callNative function values => exact callNative_noSyntaxError function values
  | setProperty object key value => exact setProperty_noSyntaxError object key value

/-- An operation that is refused leaves the heap as it was. -/
def RefusesWhole {α : Type} (operation : Heap → Outcome α) : Prop :=
  ∀ h why h', operation h = .error why h' → h' = h

private theorem constructArray_refusesWhole (values : List Value) :
    RefusesWhole (constructArray · values) := by
  intro h why h' heq
  simp only [constructArray] at heq
  split at heq
  · split at heq
    · cases heq
      rfl
    · cases heq
  · cases heq

private theorem callArray_refusesWhole (ref : Nat) (method : ArrayMethod) (values : List Value) :
    RefusesWhole (callArray · ref method values) := by
  intro h why h' heq
  cases method <;> simp only [callArray, reduceCtorEq] at heq
  case push | fill =>
    split at heq <;> cases heq
    rfl
  case slice => cases heq

private theorem method?_refusesWhole {object : Value} {name : Text}
    {call : Heap → List Value → Outcome Value} (hmethod : method? object name = some call)
    (values : List Value) : RefusesWhole (call · values) := by
  have hread (look : Heap → Value) : RefusesWhole fun h => .ok (look h) h :=
    fun _ _ _ heq => by cases heq
  cases object <;> simp only [method?, Option.map_eq_some_iff, reduceCtorEq] at hmethod
  case math =>
    obtain ⟨f, -, rfl⟩ := hmethod
    exact hread _
  case array ref =>
    obtain ⟨f, -, rfl⟩ := hmethod
    exact callArray_refusesWhole ref f values
  case string t =>
    obtain ⟨f, -, rfl⟩ := hmethod
    intro h why h' heq
    cases f <;> simp only [callString, newArray, reduceCtorEq] at heq
  case number x =>
    obtain ⟨f, -, rfl⟩ := hmethod
    intro h why h' heq
    cases f <;> simp only [callNumber, reduceCtorEq] at heq
    repeat' split at heq
    all_goals cases heq <;> rfl
  all_goals
    split at hmethod
    · simp only [Option.some.injEq] at hmethod
      subst hmethod
      exact hread _
    · cases hmethod

private theorem setProperty_refusesWhole (object : Value) (key : Text) (value : Value) :
    RefusesWhole (setProperty · object key value) := by
  intro h why h' heq
  cases object <;> simp only [setProperty, reduceCtorEq] at heq
  case undefined | null =>
    cases heq
    rfl
  case array ref =>
    repeat' split at heq
    all_goals cases heq <;> rfl

theorem IsOperation.refusesWhole (h : IsOperation operation) : RefusesWhole operation := by
  cases h with
  | newArray items => exact fun _ _ _ heq => by cases heq
  | constructArray values => exact constructArray_refusesWhole values
  | method hmethod values => exact method?_refusesWhole hmethod values
  | callNative function values =>
    intro h why h' heq
    cases function <;> simp only [Heap.callNative, reduceCtorEq] at heq
    case array => exact constructArray_refusesWhole values h why h' heq
    case print | input =>
      cases heq
      rfl
  | setProperty object key value => exact setProperty_refusesWhole object key value

end Heap

/-! ## Statements -/

/-- What is known of a statement: its jumps are legal where it stands, what is done in it is done at
    positions of one kind, and its functions have names of one kind. -/
structure Command.IsLegalAt (R : Position → Prop) (N : Text → Prop) (inLoop inFunction : Bool)
    (c : Command) : Prop where
  legal : c.IsLegal inLoop inFunction
  everywhere : c.Everywhere (Expression.IsSoundAt R) R (fun _ => True) N

/-- A legal statement stands somewhere. -/
theorem Command.IsLegal.isLegalAt {inLoop inFunction : Bool} {c : Command}
    (h : c.IsLegal inLoop inFunction) :
    c.IsLegalAt (fun _ => True) (fun _ => True) inLoop inFunction := by
  have hdeclarators {ds : List (Declarator Expression Position)} (hds : AreSound ds) :
      ∀ d ∈ ds, d.Everywhere (Expression.IsSoundAt fun _ => True) fun _ => True :=
    fun d hd => ⟨trivial, fun e he => (hds d hd e he).isSoundAt⟩
  refine ⟨h, ?_⟩
  -- nothing is asked of positions and names, so legality says it all
  induction h with
  | expression he => exact .expression he.isSoundAt
  | declaration hds => exact .declaration (hdeclarators hds)
  | function _ ih => exact .function trivial trivial trivial ih
  | returning hvalue => exact .returning trivial fun e he => (hvalue e he).isSoundAt
  | branch htest _ _ ihyes ihno => exact .branch htest.isSoundAt ihyes ihno
  | whileLoop htest _ ih => exact .whileLoop htest.isSoundAt ih
  | forLoop hstart htest hupdate _ ih =>
    refine .forLoop trivial (fun start hmem => ?_) (fun e he => (htest e he).isSoundAt)
      (fun e he => (hupdate e he).isSoundAt) ih
    have hsound := hstart start hmem
    cases start with
    | declaration => exact hdeclarators hsound
    | expression => exact hsound.isSoundAt
  | block _ ih => exact .block ih
  | breaking => exact .breaking trivial
  | continuing => exact .continuing trivial
  | empty => exact .empty

/-- What is known of a function that has been made. -/
structure Closure.IsLegalAt (R : Position → Prop) (N : Text → Prop) (c : Closure) : Prop where
  name : N c.name
  body : ∀ s ∈ c.body, s.IsLegalAt R N false true

/-! ## Closed properties -/

/-- A property of what happens on a machine, for every type of value. -/
abbrev EvalProperty := (α : Type) → Eval α → Prop

/-- `P` is kept by the operations that always end with a value. -/
structure EvalProperty.IsSteady (R : Position → Prop) (N : Text → Prop) (P : EvalProperty) : Prop where
  pure {α : Type} (a : α) : P α (pure a)
  bind {α β : Type} {x : Eval α} {f : α → Eval β} : P α x → (∀ a, P β (f a)) → P β (x >>= f)
  fromHeap {α : Type} (look : Heap → α) : P α (fromHeap look)
  openScope (scope : Scope) : P Scope (openScope scope)
  find? (scope : Scope) (name : Text) : P _ (find? scope name)
  define (scope : Scope) (name : Text) (value : Value) : P Unit (define scope name value)
  /-- A function that is found is legal. -/
  look {α : Type} (ref : Nat) {f : Option Closure → Eval α} : P α (f none) →
    (∀ closure, closure.IsLegalAt R N → P α (f (some closure))) →
      P α (Eval.fromHeap (fun h => h.closures[ref]?) >>= f)

/-- `P` is kept by the operations that the evaluation of legal statements consists of, at positions
    and in functions of the kinds that the statements have. -/
structure EvalProperty.IsClosed (R : Position → Prop) (N : Text → Prop) (P : EvalProperty) : Prop
    extends P.IsSteady R N where
  outOfFuel (α : Type) : P α (throw .outOfFuel)
  tick {place : Position} (hplace : R place) : P Unit (tick place)
  within {α : Type} {x : Eval α} {call : Call} (hname : N call.name) : P α x → P α (within call x)
  fail (α : Type) {place : Position} (hplace : R place) {cause : ErrorCause}
    (hcause : cause ≠ .noTarget) : P α (fail place cause)
  onHeap {α : Type} {place : Position} (hplace : R place) {operation : Heap → Outcome α}
    (hoperation : Heap.IsOperation operation) : P α (onHeap place operation)
  getIndex {place : Position} (hplace : R place) (object key : Value) :
    P Value (readHeap place fun h => h.getIndex object key)
  getMember {place : Position} (hplace : R place) (object : Value) (name : Text) :
    P Value (readHeap place fun h => h.getMember object name)
  declare (scope : Scope) (name : Text) (binding : Binding) {place : Position} (hplace : R place) :
    P Unit (declare scope name binding place)
  assign (scope : Scope) (name : Text) (value : Value) {place : Position} (hplace : R place) :
    P Unit (assign scope name value place)
  newClosure {closure : Closure} (hclosure : closure.IsLegalAt R N) : P Value (newClosure closure)
  checkCalls {place : Position} (hplace : R place) : P Unit (checkCalls place)
  print (shown : Text) : P Unit (print shown)
  input (prompt : Text) : P Text (input prompt)

/-- Goes into a function of the script, once one more call may be made. -/
def Eval.enter (fuel : Nat) (ref : Nat) (values : List Value) (place : Position) : Eval Value := do
  match ← fromHeap fun h => h.closures[ref]? with
  | none => return .undefined
  | some closure =>
    let scope ← openScope closure.scope
    bindParameters scope closure.parameters values
    match ← within ⟨closure.name, place⟩ (runBlock fuel scope closure.body) with
    | .returned value => return value
    | _ => return .undefined

theorem callClosure_eq_enter (n ref : Nat) (values : List Value) (place : Position) :
    callClosure (n + 1) ref values place = checkCalls place >>= fun _ => enter n ref values place := by
  simp only [callClosure]
  rfl

namespace EvalProperty.IsSteady

variable {R : Position → Prop} {N : Text → Prop} {P : EvalProperty}

theorem bindParameters (h : IsSteady R N P) (scope : Scope) (parameters : List Text) :
    ∀ values, P Unit (bindParameters scope parameters values) := by
  induction parameters with
  | nil => exact fun _ => h.pure ()
  | cons p ps ih =>
    intro values
    cases values with
    | nil => exact h.bind (h.define scope p .undefined) fun _ => ih []
    | cons v vs => exact h.bind (h.define scope p v) fun _ => ih vs

/-- A call depends on the body of the function. -/
theorem enter (h : IsSteady R N P) {n : Nat} {place : Position}
    (hbody : ∀ scope, ∀ closure : Closure, closure.IsLegalAt R N →
      P Flow (within ⟨closure.name, place⟩ (runBlock n scope closure.body)))
    (ref : Nat) (values : List Value) : P Value (enter n ref values place) := by
  refine h.look ref (h.pure _) fun closure hclosure => ?_
  refine h.bind (h.openScope _) fun scope => h.bind (h.bindParameters scope _ values) fun _ =>
    h.bind (hbody scope closure hclosure) fun flow => ?_
  split <;> exact h.pure _

/-- A run is that of the statements of the program, and a call of the function that it is wrapped
    in. -/
theorem runProgram (h : IsSteady R N P) {n : Nat} {program : Program}
    (hblock : P Flow (within ⟨topLevel, nowhere⟩ (runBlock n Machine.globalScope program)))
    (hcall : ∀ ref values place, P Value (callClosure n ref values place)) :
    P Unit (runProgram n program) := by
  refine h.bind hblock fun _ => h.bind (h.find? _ _) fun found => ?_
  split
  · refine h.look _ (h.pure ()) fun closure _ => ?_
    exact h.bind (hcall _ _ _) fun _ => h.pure ()
  · exact h.pure ()

end EvalProperty.IsSteady

namespace EvalProperty.IsClosed

variable {R : Position → Prop} {N : Text → Prop} {P : EvalProperty} {place : Position}

theorem find (h : IsClosed R N P) (scope : Scope) (name : Text) (hplace : R place) :
    P Value (find scope name place) := by
  refine h.bind (h.find? scope name) fun found => ?_
  cases found with
  | some v => exact h.pure v
  | none => exact h.fail _ hplace (by simp)

/-- A block makes its functions from its own statements. -/
theorem hoist (h : IsClosed R N P) (scope : Scope) {inLoop inFunction : Bool}
    {commands : List Command} (hlegal : ∀ c ∈ commands, c.IsLegalAt R N inLoop inFunction) :
    P Unit (hoist scope commands) := by
  induction commands with
  | nil => exact h.pure ()
  | cons c rest ih =>
    obtain ⟨⟨hc, heverywhere⟩, hrest⟩ := List.forall_mem_cons.1 hlegal
    cases hc with
    | @function _ _ place _ name parameters _ body hbody =>
      cases heverywhere with
      | function _ _ hname heverywhere =>
        have hmade : Closure.IsLegalAt R N ⟨name, parameters, body, place, scope⟩ :=
          ⟨hname, fun s hs => ⟨hbody s hs, heverywhere s hs⟩⟩
        exact h.bind (h.newClosure hmade) fun v => h.bind (h.define scope _ v) fun _ => ih hrest
    | _ => exact ih hrest

theorem bindDeclared (h : IsClosed R N P) (scope : Scope) (kind : BindingKind) (name : Text)
    (value : Value) (hplace : R place) : P Unit (bindDeclared scope kind name value place) := by
  cases kind with
  | «let» => exact h.declare scope name _ hplace
  | const => exact h.declare scope name _ hplace
  | var => exact h.define scope name value

theorem unary (h : IsClosed R N P) (operator : UnaryOperator) (value : Value) :
    P Value (unary operator value) := by
  cases operator <;> simp only [Eval.unary]
  case not | typeOf | await => exact h.pure _
  case negate | plus => exact h.fromHeap _

theorem callMethod (h : IsClosed R N P) (object : Value) (method : Text) (values : List Value)
    (description : Text) (hplace : R place) :
    P Value (callMethod object method values description place) := by
  unfold Eval.callMethod
  split
  · exact h.fail _ hplace (by simp)
  · exact h.fail _ hplace (by simp)
  · split
    · rename_i hmethod
      exact h.onHeap hplace (.method hmethod values)
    · exact h.fail _ hplace (by simp)

theorem callNative (h : IsClosed R N P) (function : Native) (values : List Value)
    (hplace : R place) : P Value (callNative function values place) := by
  cases function with
  | print =>
    exact h.bind (h.fromHeap _) fun shown => h.bind (h.print shown) fun _ => h.pure _
  | input =>
    exact h.bind (h.fromHeap _) fun prompt => h.bind (h.input prompt) fun _ => h.pure _
  | _ =>
    simp only [Eval.callNative]
    exact h.onHeap hplace (.callNative _ values)

end EvalProperty.IsClosed

/-! ## Expressions and statements -/

/-- `P` holds of the evaluation of legal statements with some fuel. -/
structure EvalProperty.Holds (R : Position → Prop) (N : Text → Prop) (P : EvalProperty) (n : Nat) :
    Prop where
  evaluate (scope : Scope) (e : Expression) (he : e.IsSoundAt R) : P Value (evaluate n scope e)
  evaluateAll (scope : Scope) (es : List Expression) (hes : ∀ e ∈ es, e.IsSoundAt R) :
    P (List Value) (evaluateAll n scope es)
  store (scope : Scope) (target : Expression) (value : Value) (htarget : target.IsSoundAt R)
    (hisTarget : target.isTarget = true) : P Unit (store n scope target value)
  callClosure (ref : Nat) (values : List Value) {place : Position} (hplace : R place) :
    P Value (callClosure n ref values place)
  runDeclarators (scope : Scope) (kind : BindingKind) (ds : List (Declarator Expression Position))
    (hds : ∀ d ∈ ds, d.Everywhere (Expression.IsSoundAt R) R) : P Unit (runDeclarators n scope kind ds)
  runBlock (scope : Scope) (inLoop inFunction : Bool) (commands : List Command)
    (hlegal : ∀ c ∈ commands, c.IsLegalAt R N inLoop inFunction) : P Flow (runBlock n scope commands)
  runAll (scope : Scope) (inLoop inFunction : Bool) (commands : List Command)
    (hlegal : ∀ c ∈ commands, c.IsLegalAt R N inLoop inFunction) : P Flow (runAll n scope commands)
  runLoop (scope : Scope) (inFunction : Bool) {place : Position} (hplace : R place)
    (test update : Option Expression) (body : Command) (htest : ∀ e ∈ test, e.IsSoundAt R)
    (hupdate : ∀ e ∈ update, e.IsSoundAt R) (hbody : body.IsLegalAt R N true inFunction) :
    P Flow (runLoop n scope place test update body)
  run (scope : Scope) (inLoop inFunction : Bool) (c : Command)
    (hlegal : c.IsLegalAt R N inLoop inFunction) : P Flow (run n scope c)

section

variable {R : Position → Prop} {N : Text → Prop} {P : EvalProperty} {n : Nat} (h : P.IsClosed R N)
  (ih : P.Holds R N n) (scope : Scope)
include h ih

private theorem evaluate_holds {e : Expression} (he : e.IsSoundAt R) :
    P Value (evaluate (n + 1) scope e) := by
  have hevaluate (e : Expression) := ih.evaluate scope e
  have hevaluateAll (es : List Expression) := ih.evaluateAll scope es
  cases he with
  | number | string | bool | null | undefined => exact h.pure _
  | @array place items hplace hitems =>
    simp only [evaluate]
    exact h.bind (hevaluateAll items hitems) fun values => h.onHeap hplace (.newArray _)
  | @identifier place name hplace =>
    simp only [evaluate]
    exact h.find scope name hplace
  | @unary place operator operand _ hoperand =>
    by_cases htypeOf : ∃ p name, operator = .typeOf ∧ operand = .identifier p name
    · obtain ⟨p, name, rfl, rfl⟩ := htypeOf
      simp only [evaluate]
      exact h.bind (h.find? scope name) fun found => h.pure _
    · rw [evaluate_unary n scope place htypeOf]
      exact h.bind (hevaluate operand hoperand) fun value => h.unary operator value
  | @binary place operator left right _ hleft hright =>
    -- `and` and `or` may leave their right operand alone
    cases operator with
    | and | or =>
      simp only [evaluate]
      refine h.bind (hevaluate left hleft) fun value => ?_
      split
      all_goals first | exact hevaluate right hright | exact h.pure value
    | _ =>
      simp only [evaluate]
      exact h.bind (hevaluate left hleft) fun a => h.bind (hevaluate right hright) fun b =>
        h.fromHeap _
  | @conditional place test yes no _ htest hyes hno =>
    simp only [evaluate]
    refine h.bind (hevaluate test htest) fun value => ?_
    split
    · exact hevaluate yes hyes
    · exact hevaluate no hno
  | @assign place operator target value _ htarget hisTarget hvalue =>
    have hstore (v : Value) := ih.store scope target v htarget hisTarget
    simp only [evaluate]
    cases operator.binary? with
    | none => exact h.bind (hevaluate value hvalue) fun v => h.bind (hstore v) fun _ => h.pure v
    | some operator =>
      exact h.bind (hevaluate target htarget) fun current => h.bind (hevaluate value hvalue)
        fun operand => h.bind (h.fromHeap _) fun v => h.bind (hstore v) fun _ => h.pure v
  | @call place callee operands hplace hcallee hoperands =>
    by_cases hmember : ∃ p object method, callee = .member p object method
    · obtain ⟨p, object, method, rfl⟩ := hmember
      cases hcallee with
      | member _ hobject =>
        simp only [evaluate]
        exact h.bind (h.tick hplace) fun _ => h.bind (hevaluate object hobject) fun v =>
          h.bind (hevaluateAll operands hoperands) fun values => h.callMethod v method values _ hplace
    · rw [evaluate_call n scope place operands hmember]
      refine h.bind (h.tick hplace) fun _ => h.bind (hevaluate callee hcallee) fun function =>
        h.bind (hevaluateAll operands hoperands) fun values => ?_
      split
      · exact ih.callClosure _ values hplace
      · exact h.callNative _ values hplace
      · exact h.fail _ hplace (by simp)
  | @index place object key hplace hobject hkey =>
    simp only [evaluate]
    exact h.bind (hevaluate object hobject) fun object => h.bind (hevaluate key hkey) fun key =>
      h.getIndex hplace object key
  | @member place object name hplace hobject =>
    simp only [evaluate]
    exact h.bind (hevaluate object hobject) fun object => h.getMember hplace object name
  | @construct place name operands hplace hoperands =>
    simp only [evaluate]
    refine h.bind (h.tick hplace) fun _ => h.bind (h.find scope name hplace) fun constructor =>
      h.bind (hevaluateAll operands hoperands) fun values => ?_
    split
    · exact h.onHeap hplace (.constructArray _)
    · exact h.fail _ hplace (by simp)

private theorem store_holds {target : Expression} (value : Value) (htarget : target.IsSoundAt R)
    (hisTarget : target.isTarget = true) : P Unit (store (n + 1) scope target value) := by
  cases htarget with
  | @identifier place name hplace => exact h.assign scope name value hplace
  | @index place object key hplace hobject hkey =>
    simp only [store]
    exact h.bind (ih.evaluate scope object hobject) fun object =>
      h.bind (ih.evaluate scope key hkey) fun key => h.bind (h.fromHeap _) fun name =>
        h.onHeap hplace (.setProperty object name value)
  | @member place object name hplace hobject =>
    simp only [store]
    exact h.bind (ih.evaluate scope object hobject) fun object =>
      h.onHeap hplace (.setProperty object name value)
  | _ => cases hisTarget

private theorem runDeclarators_holds (kind : BindingKind)
    {ds : List (Declarator Expression Position)}
    (hds : ∀ d ∈ ds, d.Everywhere (Expression.IsSoundAt R) R) :
    P Unit (runDeclarators (n + 1) scope kind ds) := by
  cases ds with
  | nil => exact h.pure ()
  | cons d ds =>
    obtain ⟨⟨hplace, hd⟩, hrest⟩ := List.forall_mem_cons.1 hds
    simp only [runDeclarators]
    refine h.bind (h.tick hplace) fun _ => ?_
    cases hvalue : d.value with
    | none =>
      exact h.bind (h.pure _) fun value => h.bind (h.bindDeclared scope kind d.name value hplace)
        fun _ => ih.runDeclarators scope kind ds hrest
    | some e =>
      exact h.bind (ih.evaluate scope e (hd e (by simp [hvalue]))) fun value =>
        h.bind (h.bindDeclared scope kind d.name value hplace) fun _ =>
          ih.runDeclarators scope kind ds hrest

private theorem runLoop_holds {inFunction : Bool} {place : Position} (hplace : R place)
    {test update : Option Expression} {body : Command} (htest : ∀ e ∈ test, e.IsSoundAt R)
    (hupdate : ∀ e ∈ update, e.IsSoundAt R) (hbody : body.IsLegalAt R N true inFunction) :
    P Flow (runLoop (n + 1) scope place test update body) := by
  have hagain := ih.runLoop scope inFunction hplace test update body htest hupdate hbody
  -- a check, the test, the body, and the loop again with less fuel
  rw [runLoop_eq_rounds]
  refine h.bind (h.tick hplace) fun _ => h.bind ?_ fun onward => ?_
  · cases test with
    | none => exact h.pure true
    | some e => exact h.bind (ih.evaluate scope e (htest e rfl)) fun _ => h.pure _
  · split
    · refine h.bind (ih.run scope _ _ body hbody) fun flow => ?_
      cases flow with
      | broken => exact h.pure _
      | returned value => exact h.pure _
      | normal | continued =>
        cases update with
        | none => exact hagain
        | some e => exact h.bind (ih.evaluate scope e (hupdate e rfl)) fun _ => hagain
    · exact h.pure _

private theorem run_holds {inLoop inFunction : Bool} {c : Command}
    (hlegal : c.IsLegalAt R N inLoop inFunction) : P Flow (run (n + 1) scope c) := by
  have hevaluate (e : Expression) := ih.evaluate scope e
  obtain ⟨hlegal, heverywhere⟩ := hlegal
  -- what holds everywhere in the command leads, its legality is opened where it is needed
  cases heverywhere with
  | @expression e he =>
    simp only [run]
    exact h.bind (h.tick he.position) fun _ => h.bind (hevaluate e he) fun _ => h.pure _
  | @declaration kind ds hds =>
    simp only [run]
    exact h.bind (ih.runDeclarators scope kind ds hds) fun _ => h.pure _
  | function | empty => exact h.pure _
  | @returning place value hplace hvalue =>
    simp only [run]
    refine h.bind (h.tick hplace) fun _ => ?_
    cases value with
    | none => exact h.pure _
    | some e => exact h.bind (hevaluate e (hvalue e rfl)) fun _ => h.pure _
  | @branch test yes no htest hyes hno =>
    cases hlegal with
    | branch _ hyesLegal hnoLegal =>
      simp only [run]
      refine h.bind (h.tick htest.position) fun _ => h.bind (hevaluate test htest) fun value => ?_
      split
      · exact ih.run scope _ _ yes ⟨hyesLegal, hyes⟩
      · cases no with
        | none => exact h.pure _
        | some no => exact ih.run scope _ _ no ⟨hnoLegal no rfl, hno no rfl⟩
  | @whileLoop test body htest hbody =>
    cases hlegal with
    | whileLoop _ hbodyLegal =>
      simp only [run]
      exact ih.runLoop scope _ htest.position (some test) none body (by simpa using htest) (by simp)
        ⟨hbodyLegal, hbody⟩
  | @forLoop place start test update body hplace hstart htest hupdate hbody =>
    cases hlegal with
    | forLoop _ _ _ hbodyLegal =>
      simp only [run]
      refine h.bind (h.openScope scope) fun scope => ?_
      have hloop := ih.runLoop scope _ hplace test update body htest hupdate ⟨hbodyLegal, hbody⟩
      cases start with
      | none => exact hloop
      | some start =>
        cases start with
        | declaration kind ds =>
          exact h.bind (ih.runDeclarators scope kind ds (hstart _ rfl)) fun _ => hloop
        | expression e => exact h.bind (ih.evaluate scope e (hstart _ rfl)) fun _ => hloop
  | @block body hbody =>
    cases hlegal with
    | block hbodyLegal =>
      simp only [run]
      exact h.bind (h.openScope scope) fun scope =>
        ih.runBlock scope _ _ body fun s hs => ⟨hbodyLegal s hs, hbody s hs⟩
  | breaking hplace | continuing hplace =>
    simp only [run]
    exact h.bind (h.tick hplace) fun _ => h.pure _

end

namespace EvalProperty.IsClosed

variable {R : Position → Prop} {N : Text → Prop} {P : EvalProperty}

/-- A closed property holds of every evaluation of legal statements, however much fuel it is given. -/
theorem holds (h : P.IsClosed R N) (n : Nat) : P.Holds R N n := by
  -- on the fuel: each function of the evaluator calls the others with less of it
  induction n with
  | zero => constructor <;> intros <;> exact h.outOfFuel _
  | succ n ih =>
    exact {
      evaluate := fun scope e he => evaluate_holds h ih scope he
      evaluateAll := fun scope es hes => by
        cases es with
        | nil => exact h.pure _
        | cons e es =>
          obtain ⟨he, hes⟩ := List.forall_mem_cons.1 hes
          simp only [evaluateAll]
          exact h.bind (ih.evaluate scope e he) fun v =>
            h.bind (ih.evaluateAll scope es hes) fun vs => h.pure _
      store := fun scope target value => store_holds h ih scope value
      callClosure := fun ref values place hplace => by
        rw [callClosure_eq_enter]
        refine h.bind (h.checkCalls hplace) fun _ => h.enter (fun scope closure hclosure => ?_) ref values
        exact h.within hclosure.name (ih.runBlock scope _ _ closure.body hclosure.body)
      runDeclarators := fun scope kind ds => runDeclarators_holds h ih scope kind
      runBlock := fun scope inLoop inFunction commands hlegal => by
        simp only [runBlock]
        exact h.bind (h.hoist scope hlegal) fun _ => ih.runAll scope _ _ commands hlegal
      runAll := fun scope inLoop inFunction commands hlegal => by
        cases commands with
        | nil => exact h.pure _
        | cons c cs =>
          obtain ⟨hc, hcs⟩ := List.forall_mem_cons.1 hlegal
          simp only [runAll]
          refine h.bind (ih.run scope _ _ c hc) fun flow => ?_
          cases flow with
          | normal => exact ih.runAll scope _ _ cs hcs
          | _ => exact h.pure _
      runLoop := fun scope inFunction place hplace test update body => runLoop_holds h ih scope hplace
      run := fun scope inLoop inFunction c => run_holds h ih scope }

/-- A closed property holds of every run of a legal program. -/
theorem runProgram (h : P.IsClosed (fun _ => True) fun _ => True) (n : Nat) {program : Program}
    (hlegal : ∀ c ∈ program, c.IsLegal false false) : P Unit (runProgram n program) := by
  have hn := h.holds n
  refine h.toIsSteady.runProgram (h.within trivial ?_) fun ref values _ => hn.callClosure ref values trivial
  exact hn.runBlock _ _ _ program fun c hc => (hlegal c hc).isLegalAt

end EvalProperty.IsClosed

end Pseudocode.Script
