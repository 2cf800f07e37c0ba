import Pseudocode.Proofs.Visits

/-!
# The order that plans keep

What every task does with its scope and with calls. A statement binds names in its own scope only, or
in one that it has opened, and an expression binds none. A call is entered only after a check that one
more may be made, and only for a call that the script makes.

* `Stage`                   where a plan may bind names, and whether it may enter a call
* `Plan.IsOrderly`          a plan keeps the order
* `Task.plan_isOrderly`     the plan of every task does, from the scope of the task on
-/

namespace Pseudocode.Script

/-! ## What matters of an operation and of a task -/

/-- The scope that an operation binds a name in. -/
def Operation.boundIn? {α : Type} : Operation α → Option Scope
  | .define scope _ _ | .declare scope _ _ _ => some scope
  | _ => none

/-- The scope that a task may bind names in. An expression binds none, and the call of a function
    binds its parameters in a scope that it opens. -/
def Task.boundIn? {α : Type} : Task α → Option Scope
  | .runDeclarators scope _ _ | .runBlock scope _ | .runAll scope _ | .runLoop scope _ _ _ _
  | .run scope _ => some scope
  | .evaluate _ _ | .evaluateAll _ _ | .store _ _ _ | .callClosure _ _ _ => none

/-- Where the call was made, if the task is the call of a function. -/
def Task.callSite? {α : Type} : Task α → Option Position
  | .callClosure _ _ place => some place
  | _ => none

/-- Where the task makes a call, if it is the value of a call. -/
def Task.madeCall? {α : Type} : Task α → Option Position
  | .evaluate _ (.call place _ _) => some place
  | _ => none

/-- How far a plan has come. -/
structure Stage where
  /-- The scope that names may be bound in. -/
  scope : Option Scope
  /-- One more call may be entered. -/
  isChecked : Bool

/-- How far a plan has come after an operation with a result. -/
def Stage.after {α : Type} (s : Stage) : Operation α → α → Stage
  | .openScope _, scope => { s with scope := some scope }
  | .checkCalls _, _ => { s with isChecked := true }
  | _, _ => s

/-! ## Orderly plans -/

namespace Plan

/-- A plan keeps the order from a stage on. It is part of a task that may enter a call made at `site`
    and may make a call at `made`. -/
def IsOrderly {α : Type} (site made : Option Position) : Stage → Plan α → Prop
  | _, .done _ => True
  | s, .step o next =>
    (∀ scope ∈ o.boundIn?, s.scope = some scope) ∧ ∀ b, (next b).IsOrderly site made (s.after o b)
  | s, .task entered t next =>
    (∀ scope ∈ t.boundIn?, s.scope = some scope) ∧
      (∀ call ∈ entered, s.isChecked = true ∧ site = some call.site ∧ t.callSite? = none) ∧
      (∀ place ∈ t.callSite?, made = some place) ∧ ∀ b, (next b).IsOrderly site made s

namespace IsOrderly

variable {α β : Type} {site made : Option Position} {s : Stage}

theorem pure (a : α) : (pure a : Plan α).IsOrderly site made s := trivial

theorem step {o : Operation β} (hbound : o.boundIn? = none) {f : β → Plan α}
    (hnext : ∀ b, (f b).IsOrderly site made (s.after o b)) :
    (liftM o >>= f : Plan α).IsOrderly site made s :=
  ⟨fun scope hscope => (Option.not_mem_none scope (hbound ▸ hscope)).elim, hnext⟩

theorem operation {o : Operation α} (hbound : o.boundIn? = none) :
    (liftM o : Plan α).IsOrderly site made s :=
  step hbound fun _ => trivial

/-- Something is nested in the scope of the plan. -/
theorem task {t : Task β} (hbound : t.boundIn? = s.scope) (hsite : t.callSite? = none)
    {f : β → Plan α} (hnext : ∀ b, (f b).IsOrderly site made s) :
    (liftM t >>= f : Plan α).IsOrderly site made s :=
  ⟨fun _ h => hbound ▸ h, nofun, fun place h => (Option.not_mem_none place (hsite ▸ h)).elim, hnext⟩

theorem ofTask {t : Task α} (hbound : t.boundIn? = s.scope) (hsite : t.callSite? = none) :
    (liftM t : Plan α).IsOrderly site made s :=
  task hbound hsite fun _ => trivial

/-- An expression is nested. -/
theorem value {t : Task β} (hbound : t.boundIn? = none) (hsite : t.callSite? = none)
    {f : β → Plan α} (hnext : ∀ b, (f b).IsOrderly site made s) :
    (liftM t >>= f : Plan α).IsOrderly site made s :=
  ⟨fun scope h => (Option.not_mem_none scope (hbound ▸ h)).elim, nofun,
    fun place h => (Option.not_mem_none place (hsite ▸ h)).elim, hnext⟩

theorem ofValue {t : Task α} (hbound : t.boundIn? = none) (hsite : t.callSite? = none) :
    (liftM t : Plan α).IsOrderly site made s :=
  value hbound hsite fun _ => trivial

end IsOrderly

variable {α : Type} {site made : Option Position} {s : Stage}

theorem find_isOrderly (scope : Scope) (name : Text) (place : Position) {f : Value → Plan α}
    (hnext : ∀ v, (f v).IsOrderly site made s) :
    (find scope name place >>= f).IsOrderly site made s := by
  refine .step rfl fun found => ?_
  cases found with
  | some v => exact hnext v
  | none => exact .step rfl fun v => hnext v

theorem bindParameters_isOrderly {scope : Scope} (hscope : s.scope = some scope)
    (parameters : List Text) {f : Unit → Plan α} (hnext : (f ()).IsOrderly site made s) :
    ∀ values, (bindParameters scope parameters values >>= f).IsOrderly site made s := by
  have hbound {t : Scope} (ht : t ∈ some scope) : s.scope = some t := hscope.trans ht
  induction parameters with
  | nil => exact fun _ => hnext
  | cons p ps ih =>
    intro values
    cases values with
    | nil => exact ⟨fun _ => hbound, fun _ => ih []⟩
    | cons v vs => exact ⟨fun _ => hbound, fun _ => ih vs⟩

theorem hoist_isOrderly {scope : Scope} (hscope : s.scope = some scope) (commands : List Command)
    {f : Unit → Plan α} (hnext : (f ()).IsOrderly site made s) :
    (hoist scope commands >>= f).IsOrderly site made s := by
  induction commands with
  | nil => exact hnext
  | cons c rest ih =>
    cases c with
    | function => exact .step rfl fun v => ⟨fun _ ht => hscope.trans ht, fun _ => ih⟩
    | _ => exact ih

theorem bindDeclared_isOrderly {scope : Scope} (hscope : s.scope = some scope) (kind : BindingKind)
    (name : Text) (value : Value) (place : Position) {f : Unit → Plan α}
    (hnext : (f ()).IsOrderly site made s) :
    (bindDeclared scope kind name value place >>= f).IsOrderly site made s := by
  cases kind <;> exact ⟨fun _ ht => hscope.trans ht, fun _ => hnext⟩

theorem unary_isOrderly (operator : UnaryOperator) (value : Value) :
    (unary operator value).IsOrderly site made s := by
  cases operator <;> first | exact .pure _ | exact .operation rfl

theorem callMethod_isOrderly (object : Value) (method : Text) (values : List Value)
    (description : Text) (place : Position) :
    (callMethod object method values description place).IsOrderly site made s := by
  unfold callMethod
  split
  · exact .operation rfl
  · exact .operation rfl
  · split <;> exact .operation rfl

theorem callNative_isOrderly (function : Native) (values : List Value) (place : Position) :
    (callNative function values place).IsOrderly site made s := by
  cases function with
  | print | input => exact .step rfl fun _ => .step rfl fun _ => .pure _
  | _ => exact .operation rfl

theorem evaluate_isOrderly (scope : Scope) (e : Expression) (s : Stage) :
    (evaluate scope e).IsOrderly none (Task.evaluate scope e).madeCall? s := by
  cases e with
  | number | string | bool | null | undefined => exact .pure _
  | array => exact .value rfl rfl fun _ => .operation rfl
  | identifier =>
    refine .step rfl fun found => ?_
    cases found with
    | some v => exact .pure v
    | none => exact .operation rfl
  | unary place operator operand =>
    by_cases htypeOf : ∃ p name, operator = .typeOf ∧ operand = .identifier p name
    · obtain ⟨p, name, rfl, rfl⟩ := htypeOf
      exact .step rfl fun _ => .pure _
    · rw [evaluate_unary scope place htypeOf]
      exact .value rfl rfl fun _ => unary_isOrderly _ _
  | binary place operator left right =>
    cases operator with
    | and | or =>
      refine .value rfl rfl fun value => ?_
      split
      all_goals first | exact .ofValue rfl rfl | exact .pure _
    | _ => exact .value rfl rfl fun _ => .value rfl rfl fun _ => .operation rfl
  | conditional =>
    refine .value rfl rfl fun value => ?_
    split <;> exact .ofValue rfl rfl
  | assign place operator target value =>
    simp only [evaluate]
    cases operator.binary? with
    | none => exact .value rfl rfl fun _ => .value rfl rfl fun _ => .pure _
    | some operator =>
      exact .value rfl rfl fun _ => .value rfl rfl fun _ => .step rfl fun _ =>
        .value rfl rfl fun _ => .pure _
  | call place callee operands =>
    by_cases hmember : ∃ p object method, callee = .member p object method
    · obtain ⟨p, object, method, rfl⟩ := hmember
      exact .step rfl fun _ => .value rfl rfl fun _ => .value rfl rfl fun _ =>
        callMethod_isOrderly _ _ _ _ _
    · rw [evaluate_call scope place operands hmember]
      refine .step rfl fun _ => .value rfl rfl fun function => .value rfl rfl fun values => ?_
      cases function with
      | function ref =>
        -- this is the call that the expression makes
        exact ⟨fun scope h => (Option.not_mem_none scope h).elim,
          fun call h => (Option.not_mem_none call h).elim, fun _ h => h, fun _ => trivial⟩
      | native function => exact callNative_isOrderly _ _ _
      | _ => exact .operation rfl
  | index => exact .value rfl rfl fun _ => .value rfl rfl fun _ => .operation rfl
  | member => exact .value rfl rfl fun _ => .operation rfl
  | construct place name operands =>
    refine .step rfl fun _ => find_isOrderly scope name place fun _ => .value rfl rfl fun _ => ?_
    split <;> exact .operation rfl

theorem store_isOrderly (scope : Scope) (target : Expression) (value : Value) (s : Stage) :
    (store scope target value).IsOrderly none none s := by
  cases target with
  | index => exact .value rfl rfl fun _ => .value rfl rfl fun _ => .step rfl fun _ => .operation rfl
  | member => exact .value rfl rfl fun _ => .operation rfl
  | _ => exact .operation rfl

/-- A call is checked before it is entered. -/
theorem callClosure_isOrderly (ref : Nat) (values : List Value) (place : Position) (s : Stage) :
    (callClosure ref values place).IsOrderly (some place) none s := by
  refine .step rfl fun _ => .step rfl fun found => ?_
  cases found with
  | none => exact .pure _
  | some closure =>
    refine .step rfl fun scope => bindParameters_isOrderly rfl _ ?_ values
    refine ⟨fun _ h => h, fun _ h => ?_, nofun, fun flow => ?_⟩
    · cases h
      exact ⟨rfl, rfl, rfl⟩
    · cases flow <;> exact .pure _

theorem runLoop_isOrderly (scope : Scope) (place : Position) (test update : Option Expression)
    (body : Command) (checked : Bool) :
    (runLoop scope place test update body).IsOrderly none none ⟨some scope, checked⟩ := by
  -- what follows the test is the same with and without one
  have hrounds (onward : Bool) : (if onward = true then (do
      let flow ← Task.run scope body
      nextRound scope place test update body flow) else pure Flow.normal : Plan Flow).IsOrderly
        none none ⟨some scope, checked⟩ := by
    cases onward with
    | false => exact .pure _
    | true =>
      refine .task rfl rfl fun flow => ?_
      cases flow with
      | broken | returned => exact .pure _
      | normal | continued =>
        cases update with
        | none => exact .ofTask rfl rfl
        | some e => exact .value rfl rfl fun _ => .ofTask rfl rfl
  refine .step rfl fun _ => ?_
  cases test with
  | none => exact hrounds true
  | some e => exact .value rfl rfl fun value => hrounds value.isTruthy

theorem run_isOrderly (scope : Scope) (c : Command) (checked : Bool) :
    (run scope c).IsOrderly none none ⟨some scope, checked⟩ := by
  cases c with
  | expression => exact .step rfl fun _ => .value rfl rfl fun _ => .pure _
  | declaration => exact .task rfl rfl fun _ => .pure _
  | function | empty => exact .pure _
  | returning place value =>
    refine .step rfl fun _ => ?_
    cases value with
    | none => exact .pure _
    | some e => exact .value rfl rfl fun _ => .pure _
  | branch test yes no =>
    refine .step rfl fun _ => .value rfl rfl fun value => ?_
    split
    · exact .ofTask rfl rfl
    · cases no with
      | none => exact .pure _
      | some no => exact .ofTask rfl rfl
  | whileLoop => exact .ofTask rfl rfl
  | forLoop place start test update body =>
    refine .step rfl fun inner => ?_
    cases start with
    | none => exact .ofTask rfl rfl
    | some start =>
      cases start with
      | declaration => exact .task rfl rfl fun _ => .ofTask rfl rfl
      | expression => exact .value rfl rfl fun _ => .ofTask rfl rfl
  | block => exact .step rfl fun inner => .ofTask rfl rfl
  | breaking | continuing => exact .step rfl fun _ => .pure _

end Plan

/-- The plan of a task keeps the order in the scope of the task. -/
theorem Task.plan_isOrderly {α : Type} (t : Task α) :
    t.plan.IsOrderly t.callSite? t.madeCall? ⟨t.boundIn?, false⟩ := by
  cases t with
  | evaluate scope e => exact Plan.evaluate_isOrderly scope e _
  | evaluateAll scope es =>
    cases es with
    | nil => exact .pure _
    | cons e es => exact .value rfl rfl fun _ => .value rfl rfl fun _ => .pure _
  | store scope target value => exact Plan.store_isOrderly scope target value _
  | callClosure ref values place => exact Plan.callClosure_isOrderly ref values place _
  | runDeclarators scope kind ds =>
    cases ds with
    | nil => exact .pure _
    | cons d ds =>
      simp only [Task.plan]
      refine .step rfl fun _ => ?_
      have hrest (value : Value) : (Plan.bindDeclared scope kind d.name value d.place >>= fun _ =>
          liftM (Task.runDeclarators scope kind ds) : Plan Unit).IsOrderly none none
            ⟨some scope, false⟩ :=
        Plan.bindDeclared_isOrderly rfl kind d.name value d.place (.ofTask rfl rfl)
      cases d.value with
      | none => exact hrest .undefined
      | some e => exact .value rfl rfl fun value => hrest value
  | runBlock scope commands => exact Plan.hoist_isOrderly rfl commands (.ofTask rfl rfl)
  | runAll scope cs =>
    cases cs with
    | nil => exact .pure _
    | cons c cs =>
      refine .task rfl rfl fun flow => ?_
      cases flow with
      | normal => exact .ofTask rfl rfl
      | _ => exact .pure _
  | runLoop scope place test update body =>
    exact Plan.runLoop_isOrderly scope place test update body false
  | run scope c => exact Plan.run_isOrderly scope c false

/-- A task may make the call that it is, and nothing else. -/
theorem Task.isOrderly {α : Type} (t : Task α) :
    (liftM t : Plan α).IsOrderly none t.callSite? ⟨t.boundIn?, false⟩ :=
  ⟨fun _ h => h, nofun, fun _ h => h, fun _ => trivial⟩

end Pseudocode.Script
